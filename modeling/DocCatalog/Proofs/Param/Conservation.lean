import DocCatalog.Proofs.Param.Parts

/-!
# Reading a parameter drops only blanks

A parameter is written as the token of its name with its description after it (`render_bare`), and
with its type before both (`render_of_typed`). The text that a part is read from and the text that it
is written as have the same ink (`ink_render_of_named`, `ink_render_of_typed`). What is read is also
well formed (`WellFormed`). Both are put together in `parse_keeps_ink`.
-/

namespace DocCatalog

open Text (ink isBlank nonBlank?)

/-! ## Descriptions -/

/-- A description with a space before it. -/
def spaced (description : Option String) : List Char :=
  (description.map fun text => ' ' :: text.toList).getD []

theorem nonBlank?_ne_empty (text : List Char) : nonBlank? text ≠ some "" := by
  intro found
  obtain ⟨content, present⟩ := Text.nonBlank?_eq_some_iff.1 found
  exact present content.symm

theorem ink_spaced_nonBlank? (text : List Char) : ink (spaced (nonBlank? text)) = ink text := by
  cases found : nonBlank? text with
  | none => exact (Text.nonBlank?_eq_none_iff.1 found).symm
  | some description =>
    obtain ⟨content, -⟩ := Text.nonBlank?_eq_some_iff.1 found
    show ink (' ' :: description.toList) = ink text
    rw [Text.ink_cons_of_blank Text.isBlank_space, content, Text.ink_trim]

/-- A text that starts with a type in braces is that type and what follows it. -/
theorem bracedType_append {text type after : List Char}
    (enclosed : Enclosed '\x7b' '\x7d' text type after) :
    bracedType (String.ofList type) ++ after = text := by
  rw [bracedType, String.toList_ofList, enclosed.whole, List.append_assoc]
  rfl

/-- A type stays a type when other text follows it. -/
theorem enclosed_bracedType {text type after : List Char}
    (enclosed : Enclosed '\x7b' '\x7d' text type after) (rest : List Char) :
    Enclosed '\x7b' '\x7d' (bracedType (String.ofList type) ++ rest) type rest := by
  refine ⟨?_, enclosed.present, enclosed.first⟩
  rw [bracedType, String.toList_ofList, List.append_assoc]
  rfl

namespace Param

/-! ## What is read is written back with the same ink -/

theorem render_bare {named : Param} (bare : Bare named) {description : Option String}
    (present : description ≠ some "") :
    render { named with description := description } = named.token ++ spaced description := by
  obtain ⟨name, isNamed, -⟩ := bare.named
  have kept : description.filter (· ≠ "") = description := by
    cases description with
    | none => rfl
    | some text => simpa using present
  simp only [render, token, bare.untyped, isNamed, kept]
  cases description with
  | none => exact (List.append_nil _).symm
  | some text => exact List.append_assoc ..

theorem render_of_typed {text : List Char} {inner : Param} (found : ofNamed? text = some inner)
    (type : String) :
    render { inner with type := some type } = bracedType type ++ ' ' :: inner.render := by
  obtain ⟨named, after, names, rfl⟩ := ofNamed?_eq_some_iff.1 found
  obtain ⟨name, isNamed, -⟩ := names.bare.named
  simp only [render, names.bare.untyped, isNamed]
  exact List.append_assoc ..

theorem ink_render_of_named {text : List Char} {param : Param} (found : ofNamed? text = some param) :
    ink param.render = ink text := by
  obtain ⟨named, after, names, rfl⟩ := ofNamed?_eq_some_iff.1 found
  calc
    ink (render { named with description := nonBlank? after })
        = ink (named.token ++ spaced (nonBlank? after)) := by
          rw [render_bare names.bare (nonBlank?_ne_empty after)]
    _ = ink (named.token ++ after) := by
          rw [Text.ink_append, Text.ink_append, ink_spaced_nonBlank?]
    _ = ink text := by rw [← names.whole, Text.ink_trimStart]

theorem ink_render_of_typed {text : List Char} {param : Param} (found : ofTyped? text = some param) :
    ink param.render = ink text := by
  obtain ⟨type, after, inner, enclosed, named, rfl⟩ := ofTyped?_eq_some_iff.1 found
  rw [render_of_typed named, Text.ink_append, Text.ink_cons_of_blank Text.isBlank_space,
    ink_render_of_named named, ← Text.ink_append, bracedType_append enclosed]

/-! ## What is read is well formed -/

/-- What holds of every parameter that is read. -/
structure WellFormed (param : Param) : Prop where
  optional_of_default : param.defaultValue ≠ none → param.optional = true
  type_ne_empty : param.type ≠ some ""
  type_closed : ∀ type ∈ param.type, '\x7d' ∉ type.toList
  name_ne_empty : param.name ≠ some ""
  description_trimmed : ∀ description ∈ param.description, Text.trimmed description = description

theorem wellFormed_of_named {text : List Char} {param : Param} (found : ofNamed? text = some param) :
    WellFormed param := by
  obtain ⟨named, after, names, rfl⟩ := ofNamed?_eq_some_iff.1 found
  obtain ⟨name, isNamed, present⟩ := names.bare.named
  refine ⟨names.bare.optional_of_default, ?_, ?_, ?_, ?_⟩
  · rw [names.bare.untyped]
    exact Option.some_ne_none "" ∘ Eq.symm
  · rw [names.bare.untyped]
    rintro type ⟨⟩
  · rw [isNamed]
    exact fun empty => present (Option.some.inj empty)
  · intro description described
    obtain ⟨content, -⟩ := Text.nonBlank?_eq_some_iff.1 described
    rw [Text.trimmed, content, (Text.tight_trim after).trim_eq, ← content, String.ofList_toList]

theorem wellFormed_of_typed {text : List Char} {param : Param} (found : ofTyped? text = some param) :
    WellFormed param := by
  obtain ⟨type, after, inner, enclosed, named, rfl⟩ := ofTyped?_eq_some_iff.1 found
  have untyped := wellFormed_of_named named
  refine { untyped with type_ne_empty := ?_, type_closed := ?_ }
  · exact fun empty => ofList_ne_empty enclosed.present (Option.some.inj empty)
  · rintro _ ⟨⟩
    rw [String.toList_ofList]
    exact enclosed.first

theorem description_of_named {text : List Char} {param : Param} (found : ofNamed? text = some param) :
    param.description ≠ some "" := by
  obtain ⟨named, after, -, rfl⟩ := ofNamed?_eq_some_iff.1 found
  exact nonBlank?_ne_empty after

theorem description_of_typed {text : List Char} {param : Param} (found : ofTyped? text = some param) :
    param.description ≠ some "" := by
  obtain ⟨type, after, inner, -, named, rfl⟩ := ofTyped?_eq_some_iff.1 found
  show inner.description ≠ some ""
  exact description_of_named named

theorem ink_render_parse (value : String) : ink (parse value).render = ink value.toList := by
  rw [← Text.ink_trim value.toList]
  rcases parse_cases value with typed | ⟨-, named⟩ | ⟨blank, fallback⟩
  · exact ink_render_of_typed typed
  · exact ink_render_of_named named
  · rw [fallback, blank]
    rfl

theorem wellFormed_parse (value : String) : (parse value).WellFormed := by
  rcases parse_cases value with typed | ⟨-, named⟩ | ⟨-, fallback⟩
  · exact wellFormed_of_typed typed
  · exact wellFormed_of_named named
  · rw [fallback]
    constructor <;> simp

theorem blank_of_description_parse {value : String} (empty : (parse value).description = some "") :
    ink value.toList = [] := by
  rcases parse_cases value with typed | ⟨-, named⟩ | ⟨blank, -⟩
  · exact absurd empty (description_of_typed typed)
  · exact absurd empty (description_of_named named)
  · exact Text.trim_eq_nil_iff.1 blank

end Param

namespace ReturnValue

/-- A return value is read with a type in braces in front of it, or is the whole text. -/
theorem parse_cases (value : String) :
    (∃ type after, Enclosed '\x7b' '\x7d' (Text.trim value.toList) type after ∧
        parse value = { type := some (String.ofList type), description := nonBlank? after }) ∨
      splitType? (Text.trim value.toList) = none ∧
        parse value = { description := nonBlank? (Text.trim value.toList) } := by
  simp only [parse]
  cases split : splitType? (Text.trim value.toList) with
  | some found => exact .inl ⟨found.1, found.2, splitType?_eq_some_iff.1 split, rfl⟩
  | none => exact .inr ⟨rfl, rfl⟩

theorem render_typed (type : String) (description : Option String) :
    render { type := some type, description := description } =
      ' ' :: (bracedType type ++ spaced description) := rfl

theorem render_untyped (description : Option String) :
    render { description := description } = spaced description := rfl

theorem ink_render_parse (value : String) : ink (parse value).render = ink value.toList := by
  rw [← Text.ink_trim value.toList]
  rcases parse_cases value with ⟨type, after, enclosed, typed⟩ | ⟨-, untyped⟩
  · rw [typed, render_typed, Text.ink_cons_of_blank Text.isBlank_space, Text.ink_append,
      ink_spaced_nonBlank?, ← Text.ink_append, bracedType_append enclosed]
  · rw [untyped, render_untyped, ink_spaced_nonBlank?]

end ReturnValue

/-- Only blanks are dropped: a parameter and a return value are written back with the ink of the
text they were read from. What is read is well formed, and its description is empty only when the
text is blank. -/
theorem parse_keeps_ink (value : String) :
    ink (Param.parse value).render = ink value.toList ∧
      ink (ReturnValue.parse value).render = ink value.toList ∧
      (Param.parse value).WellFormed ∧
      ((Param.parse value).description = some "" → ∀ c ∈ value.toList, isBlank c = true) := by
  refine ⟨Param.ink_render_parse value, ReturnValue.ink_render_parse value,
    Param.wellFormed_parse value, ?_⟩
  intro empty
  exact Text.ink_eq_nil_iff.1 (Param.blank_of_description_parse empty)

-- braces that no name follows are the name and the description
example : (Param.parse "\x7ba  b\x7d ").render = "\x7ba b\x7d".toList := by decide

end DocCatalog
