import DocCatalog.Proofs.Param.Conservation

/-!
# Written parameters are read back

What is read and written is read again as it was. A written parameter has the token of its name and
the ink of the rest as in the text it was read from, only the blanks between them differ. With the
same ink, a part between delimiters closes in one of the two texts exactly when it closes in the other
(`Enclosed.respaced`). So a name that was read as a word is not read as a name in brackets when it is
written (`Named.respaced`), and braces that were no type do not become one
(`ofTyped?_render_eq_none`).
-/

namespace DocCatalog

open Text (Tight ink isBlank nonBlank? trim trimStart)

/-! ## Other blanks after a token -/

theorem trim_spaced (text : List Char) : trim (spaced (nonBlank? text)) = trim text := by
  cases found : nonBlank? text with
  | none => exact (Text.trim_eq_nil_iff.2 (Text.nonBlank?_eq_none_iff.1 found)).symm
  | some description =>
    obtain ⟨content, -⟩ := Text.nonBlank?_eq_some_iff.1 found
    show trim (' ' :: description.toList) = trim text
    rw [Text.trim_cons_of_blank Text.isBlank_space, content, (Text.tight_trim text).trim_eq]

theorem nonBlank?_spaced (text : List Char) : nonBlank? (spaced (nonBlank? text)) = nonBlank? text :=
  Text.nonBlank?_eq_of_trim_eq (trim_spaced text)

theorem head?_spaced {description : Option String} {c : Char}
    (head : c ∈ (spaced description).head?) : isBlank c = true := by
  cases description with
  | none => cases head
  | some text =>
    cases head
    exact Text.isBlank_space

theorem tight_append_spaced {token : List Char} (tight : Tight token) (present : token ≠ [])
    (text : List Char) : Tight (token ++ spaced (nonBlank? text)) := by
  cases found : nonBlank? text with
  | none => rwa [show spaced none = [] from rfl, List.append_nil]
  | some description =>
    obtain ⟨content, nonempty⟩ := Text.nonBlank?_eq_some_iff.1 found
    have whole : token ++ spaced (some description) = token ++ [' '] ++ trim text := by
      rw [← content, List.append_assoc]
      rfl
    rw [whole]
    exact tight.append present (Text.tight_trim text) nonempty [' ']

/-- A part between delimiters is also there when the text after a token has other blanks, and the
same ink follows it. -/
theorem Enclosed.respaced {opener closer : Char} {token after other inner rest : List Char}
    (enclosed : Enclosed opener closer (token ++ after) inner rest) (present : token ≠ [])
    (solid : isBlank closer = false) (sameInk : ink after = ink other)
    (starts : ∀ c ∈ other.head?, isBlank c = true) :
    ∃ inner' rest', Enclosed opener closer (token ++ other) inner' rest' ∧ ink rest' = ink rest := by
  cases token with
  | nil => exact absurd rfl present
  | cons c more =>
    obtain rfl : c = opener := List.head_eq_of_cons_eq enclosed.whole
    have whole : more ++ after = inner ++ closer :: rest := List.tail_eq_of_cons_eq enclosed.whole
    have same : ink (more ++ after) = ink (more ++ other) := by
      rw [Text.ink_append, Text.ink_append, sameInk]
    have closes : closer ∈ more ++ other := Text.mem_of_ink_eq solid same (by simp [whole])
    -- the part starts within the token, or with a blank
    have notFirst : (more ++ other).head? ≠ some closer := by
      intro first
      cases more with
      | nil =>
        have blank := starts closer first
        rw [solid] at blank
        cases blank
      | cons d others =>
        obtain rfl : d = closer := Option.some.inj first
        obtain ⟨e, body, rfl⟩ := List.exists_cons_of_ne_nil enclosed.present
        obtain ⟨rfl, -⟩ := List.cons.inj whole
        exact enclosed.first List.mem_cons_self
    obtain ⟨inner', rest', cut⟩ := exists_cut? closes notFirst
    obtain ⟨whole', -, first'⟩ := of_cut?_eq_some cut
    refine ⟨inner', rest', enclosed_cons_iff.2 cut, ?_⟩
    have inks : ink inner' ++ closer :: ink rest' = ink inner ++ closer :: ink rest := by
      rw [← Text.ink_cons solid, ← Text.ink_cons solid, ← Text.ink_append, ← Text.ink_append,
        ← whole', ← whole, same]
    exact after_eq_of_append_eq (fun member => first' (Text.mem_ink.1 member).1)
      (fun member => enclosed.first (Text.mem_ink.1 member).1) inks

namespace Param

theorem Named.respaced {text after : List Char} {named : Param} (names : Named text named after) :
    Named (named.token ++ spaced (nonBlank? after)) named (spaced (nonBlank? after)) := by
  cases names with
  | brackets enclosed =>
    refine .brackets ⟨?_, enclosed.present, enclosed.first⟩
    rw [token_ofBrackets, List.append_assoc]
    rfl
  | word unclosed present =>
    have solid : ∀ c ∈ Text.word text, isBlank c = false := fun c => Text.not_blank_of_mem_word
    have starts : ∀ c ∈ (spaced (nonBlank? (Text.afterWord text))).head?, isBlank c = true :=
      fun c => head?_spaced
    have sameWord := Text.word_append solid starts
    have sameRest := Text.afterWord_append solid starts
    have sameInk := ink_spaced_nonBlank? (Text.afterWord text)
    have stays : ∀ inner rest, ¬ Enclosed '[' ']'
        (Text.word text ++ spaced (nonBlank? (Text.afterWord text))) inner rest := by
      intro inner rest enclosed
      obtain ⟨inner', rest', found, -⟩ := enclosed.respaced present (by decide) sameInk
        fun c => Text.blank_of_head?_afterWord
      rw [Text.word_append_afterWord] at found
      exact unclosed inner' rest' found
    have names := Named.word stays (by rwa [sameWord])
    rw [sameWord, sameRest] at names
    rwa [token_ofWord]

theorem tight_render_of_named {text : List Char} {param : Param} (found : ofNamed? text = some param) :
    Tight param.render ∧ param.render ≠ [] := by
  obtain ⟨named, after, names, rfl⟩ := ofNamed?_eq_some_iff.1 found
  rw [render_bare names.bare (nonBlank?_ne_empty after)]
  exact ⟨tight_append_spaced names.tight_token names.token_ne_nil after,
    List.append_ne_nil_of_left_ne_nil names.token_ne_nil _⟩

theorem tight_bracedType (type : String) : Tight (bracedType type) :=
  Text.tight_delimited (by decide) (by decide) type.toList

theorem tight_render_of_typed {text : List Char} {param : Param} (found : ofTyped? text = some param) :
    Tight param.render := by
  obtain ⟨type, after, inner, enclosed, named, rfl⟩ := ofTyped?_eq_some_iff.1 found
  obtain ⟨tight, present⟩ := tight_render_of_named named
  have whole : bracedType (String.ofList type) ++ ' ' :: inner.render =
      bracedType (String.ofList type) ++ [' '] ++ inner.render := by simp
  rw [render_of_typed named, whole]
  exact (tight_bracedType _).append (List.cons_ne_nil _ _) tight present [' ']

/-- A name and a description are read back. -/
theorem ofNamed?_render {text : List Char} {param : Param} (found : ofNamed? text = some param) :
    ofNamed? param.render = some param := by
  have trimmed := Text.trimStart_eq_self (tight_render_of_named found).1.starts
  obtain ⟨named, after, names, rfl⟩ := ofNamed?_eq_some_iff.1 found
  have again := names.respaced
  rw [← render_bare names.bare (nonBlank?_ne_empty after), ← trimmed] at again
  exact ofNamed?_eq_some_iff.2 ⟨named, _, again, by rw [nonBlank?_spaced]⟩

/-- A type, a name and a description are read back. -/
theorem ofTyped?_render {text : List Char} {param : Param} (found : ofTyped? text = some param) :
    ofTyped? param.render = some param := by
  obtain ⟨type, after, inner, enclosed, named, rfl⟩ := ofTyped?_eq_some_iff.1 found
  have spaceless : ofNamed? (' ' :: inner.render) = ofNamed? inner.render := by
    unfold ofNamed?
    rw [Text.trimStart_cons_of_blank Text.isBlank_space]
  have again : Enclosed '\x7b' '\x7d' (render { inner with type := some (String.ofList type) }) type
      (' ' :: inner.render) := by
    rw [render_of_typed named]
    exact enclosed_bracedType enclosed _
  exact ofTyped?_eq_some_iff.2 ⟨type, _, inner, again, spaceless.trans (ofNamed?_render named), rfl⟩

/-- Braces that no name followed are followed by none when they are written. -/
theorem ofTyped?_render_eq_none {text : List Char} {param : Param} (tight : Tight text)
    (untyped : ofTyped? text = none) (found : ofNamed? text = some param) :
    ofTyped? param.render = none := by
  obtain ⟨named, after, names, rfl⟩ := ofNamed?_eq_some_iff.1 found
  rw [Text.trimStart_eq_self tight.starts] at names
  rw [render_bare names.bare (nonBlank?_ne_empty after)]
  refine ofTyped?_eq_none_iff.2 fun type rest braces => ?_
  cases names with
  | brackets enclosed =>
    have whole := braces.whole
    rw [token_ofBrackets] at whole
    exact absurd (List.head_eq_of_cons_eq whole) (by decide)
  | word unclosed present =>
    rw [token_ofWord] at braces
    obtain ⟨type', rest', found, sameInk⟩ := braces.respaced present (by decide)
      (ink_spaced_nonBlank? _) fun c => Text.blank_of_head?_afterWord
    rw [Text.word_append_afterWord] at found
    rw [← sameInk]
    exact ofTyped?_eq_none_iff.1 untyped type' rest' found

/-! ## Reading again -/

theorem parse_of_typed {value : String} {param : Param}
    (found : ofTyped? (trim value.toList) = some param) : parse value = param := by
  simp only [parse, found]
  rfl

theorem parse_of_named {value : String} {param : Param}
    (untyped : ofTyped? (trim value.toList) = none)
    (found : ofNamed? (trim value.toList) = some param) : parse value = param := by
  simp only [parse, untyped, found]
  rfl

theorem parse_render (value : String) :
    parse (String.ofList (parse value).render) = parse value := by
  have written {param : Param} (tight : Tight param.render) :
      trim (String.ofList param.render).toList = param.render := by
    rw [String.toList_ofList, tight.trim_eq]
  rcases parse_cases value with typed | ⟨untyped, named⟩ | ⟨-, fallback⟩
  · apply parse_of_typed
    rw [written (tight_render_of_typed typed)]
    exact ofTyped?_render typed
  · obtain ⟨tight, -⟩ := tight_render_of_named named
    apply parse_of_named
    · rw [written tight]
      exact ofTyped?_render_eq_none (Text.tight_trim _) untyped named
    · rw [written tight]
      exact ofNamed?_render named
  · rw [fallback]
    rfl

end Param

namespace ReturnValue

theorem parse_of_enclosed {value : String} {type after : List Char}
    (enclosed : Enclosed '\x7b' '\x7d' (trim value.toList) type after) :
    parse value = { type := some (String.ofList type), description := nonBlank? after } := by
  simp only [parse, splitType?_eq_some_iff.2 enclosed]

theorem parse_eq_of_trim_eq {first second : String}
    (same : trim first.toList = trim second.toList) : parse first = parse second := by
  unfold parse
  rw [same]

theorem parse_render (value : String) :
    parse (String.ofList (parse value).render) = parse value := by
  rcases parse_cases value with ⟨type, after, enclosed, typed⟩ | ⟨-, untyped⟩
  · have tight := tight_append_spaced (Param.tight_bracedType (String.ofList type))
      (List.cons_ne_nil _ _) after
    have written : trim (String.ofList (parse value).render).toList =
        bracedType (String.ofList type) ++ spaced (nonBlank? after) := by
      rw [typed, String.toList_ofList, render_typed, Text.trim_cons_of_blank Text.isBlank_space,
        tight.trim_eq]
    have again := enclosed_bracedType enclosed (spaced (nonBlank? after))
    rw [← written] at again
    rw [parse_of_enclosed again, nonBlank?_spaced, typed]
  · apply parse_eq_of_trim_eq
    rw [untyped, String.toList_ofList, render_untyped, trim_spaced, (Text.tight_trim _).trim_eq]

end ReturnValue

/-- What was read once is read again from what it is written as. -/
theorem parse_render_parse (value : String) :
    Param.parse (String.ofList (Param.parse value).render) = Param.parse value ∧
      ReturnValue.parse (String.ofList (ReturnValue.parse value).render) =
        ReturnValue.parse value :=
  ⟨Param.parse_render value, ReturnValue.parse_render value⟩

end DocCatalog
