import DocCatalog.Param
import DocCatalog.Proofs.Text.Blank
import DocCatalog.Proofs.Text.Path

/-!
# The parts of a parameter

A part between two delimiters ends at the first closing one and is not empty (`Enclosed`). Types are
such parts (`splitType?_eq_some_iff`). A name is such a part or, when there is none, a word
(`Named`); so a text has a name exactly when it is not blank (`ofNamed?_eq_none_iff`), and it has a
type exactly when a name can follow it (`ofTyped?_eq_none_iff`).

The token of a parameter is its name as it is written. A text is the token of its name and what
follows it (`Named.whole`).
-/

namespace DocCatalog

open Text (Tight ink isBlank nonBlank? trimStart)

/-! ## Delimiters -/

/-- What stands before the first separator, not empty, and what stands after it. -/
def cut? (separator : Char) (text : List Char) : Option (List Char × List Char) :=
  match text.takeWhile (· ≠ separator), text.dropWhile (· ≠ separator) with
  | c :: more, _ :: after => some (c :: more, after)
  | _, _ => none

theorem dropWhile_append_separator {separator : Char} {inner : List Char} (first : separator ∉ inner)
    (after : List Char) :
    (inner ++ separator :: after).dropWhile (· ≠ separator) = separator :: after := by
  rw [List.dropWhile_append_of_pos (Text.ne_of_mem first)]
  simp

theorem cut?_append {separator : Char} {inner : List Char} (present : inner ≠ [])
    (first : separator ∉ inner) (after : List Char) :
    cut? separator (inner ++ separator :: after) = some (inner, after) := by
  have front : (inner ++ separator :: after).takeWhile (· ≠ separator) = inner := by
    rw [List.takeWhile_append_of_pos (Text.ne_of_mem first)]
    simp
  rw [cut?, front, dropWhile_append_separator first]
  cases inner with
  | nil => exact absurd rfl present
  | cons c more => rfl

/-- The first separator is at one place only. -/
theorem after_eq_of_append_eq {separator : Char} {first second rest more : List Char}
    (plain : separator ∉ first) (others : separator ∉ second)
    (same : first ++ separator :: rest = second ++ separator :: more) : rest = more := by
  have cut : separator :: rest = separator :: more := by
    rw [← dropWhile_append_separator plain rest, same, dropWhile_append_separator others more]
  exact List.tail_eq_of_cons_eq cut

theorem of_cut?_eq_some {separator : Char} {text inner after : List Char}
    (found : cut? separator text = some (inner, after)) :
    text = inner ++ separator :: after ∧ inner ≠ [] ∧ separator ∉ inner := by
  have whole : text.takeWhile (· ≠ separator) ++ text.dropWhile (· ≠ separator) = text :=
    List.takeWhile_append_dropWhile
  have away : ∀ c ∈ text.takeWhile (· ≠ separator), c ≠ separator := fun c member =>
    of_decide_eq_true (List.all_eq_true.1 List.all_takeWhile c member)
  have stop := List.head?_dropWhile_not (fun c => decide (c ≠ separator)) text
  unfold cut? at found
  split at found
  case h_2 => cases found
  case h_1 c more d _ front back =>
    cases found
    rw [front] at whole away
    rw [back] at whole stop
    obtain rfl : d = separator := by simpa using stop
    exact ⟨whole.symm, List.cons_ne_nil c more, fun member => away _ member rfl⟩

theorem exists_cut? {separator : Char} {text : List Char} (member : separator ∈ text)
    (starts : text.head? ≠ some separator) :
    ∃ inner after, cut? separator text = some (inner, after) := by
  obtain ⟨inner, after, rfl, first⟩ := List.eq_append_cons_of_mem member
  have present : inner ≠ [] := by
    rintro rfl
    exact starts rfl
  exact ⟨inner, after, cut?_append present first after⟩

/-- A text starts with a part between two delimiters. -/
structure Enclosed (opener closer : Char) (text inner after : List Char) : Prop where
  whole : text = opener :: inner ++ closer :: after
  present : inner ≠ []
  first : closer ∉ inner

theorem enclosed_cons_iff {opener closer : Char} {text inner after : List Char} :
    Enclosed opener closer (opener :: text) inner after ↔ cut? closer text = some (inner, after) := by
  constructor
  · rintro ⟨whole, present, first⟩
    obtain rfl : text = inner ++ closer :: after := List.tail_eq_of_cons_eq whole
    exact cut?_append present first after
  · intro found
    obtain ⟨rfl, present, first⟩ := of_cut?_eq_some found
    exact ⟨rfl, present, first⟩

theorem splitType?_eq_some_iff {text type after : List Char} :
    splitType? text = some (type, after) ↔ Enclosed '\x7b' '\x7d' text type after := by
  unfold splitType?
  split
  case h_1 rest => exact enclosed_cons_iff.symm
  case h_2 other =>
    constructor
    · rintro ⟨⟩
    · intro enclosed
      exact absurd enclosed.whole (other _)

namespace Param

theorem splitBrackets?_cons (text : List Char) :
    splitBrackets? ('[' :: text) =
      (cut? ']' text).map fun (inner, after) => (ofBrackets inner, after) := by
  simp only [splitBrackets?, cut?]
  cases text.takeWhile (· ≠ ']') with
  | nil => rfl
  | cons c more =>
    cases text.dropWhile (· ≠ ']') with
    | nil => rfl
    | cons d after => rfl

theorem splitBrackets?_eq_some_iff {text after : List Char} {param : Param} :
    splitBrackets? text = some (param, after) ↔
      ∃ inner, Enclosed '[' ']' text inner after ∧ param = ofBrackets inner := by
  by_cases opens : ∃ rest, text = '[' :: rest
  case pos =>
    obtain ⟨rest, rfl⟩ := opens
    rw [splitBrackets?_cons]
    simp only [enclosed_cons_iff]
    constructor
    · intro found
      obtain ⟨⟨inner, stop⟩, cut, equal⟩ := Option.map_eq_some_iff.1 found
      cases equal
      exact ⟨inner, cut, rfl⟩
    · rintro ⟨inner, cut, rfl⟩
      rw [cut]
      rfl
  case neg =>
    constructor
    · intro found
      unfold splitBrackets? at found
      split at found
      case h_1 rest => exact absurd ⟨rest, rfl⟩ opens
      case h_2 => cases found
    · rintro ⟨inner, enclosed, -⟩
      exact absurd ⟨_, enclosed.whole⟩ opens

/-! ## Names -/

/-- The name of a parameter as it is written. -/
def token (param : Param) : List Char :=
  (param.name.map param.renderName).getD []

/-- A parameter of which only the name is known. -/
structure Bare (param : Param) : Prop where
  untyped : param.type = none
  undescribed : param.description = none
  named : ∃ name, param.name = some name ∧ name ≠ ""
  optional_of_default : param.defaultValue ≠ none → param.optional = true

theorem of_splitDefault?_eq_some {text name value : List Char}
    (found : splitDefault? text = some (name, value)) :
    text = name ++ '=' :: value ∧ name ≠ [] := by
  unfold splitDefault? at found
  split at found
  case h_2 => cases found
  case h_1 c more e d others front back =>
    cases found
    have cut : cut? '=' text = some (c :: more, d :: others) := by rw [cut?, front, back]
    obtain ⟨whole, present, -⟩ := of_cut?_eq_some cut
    exact ⟨whole, present⟩

theorem ofList_ne_empty {text : List Char} (present : text ≠ []) : String.ofList text ≠ "" :=
  fun empty => present (by simpa using empty)

theorem token_ofBrackets (inner : List Char) : (ofBrackets inner).token = '[' :: inner ++ [']'] := by
  unfold ofBrackets
  split
  case h_1 name value found =>
    obtain ⟨rfl, -⟩ := of_splitDefault?_eq_some found
    simp [token, renderName]
  case h_2 => simp [token, renderName]

theorem token_ofWord (word : List Char) : token { name := some (String.ofList word) } = word :=
  String.toList_ofList

theorem bare_ofBrackets {inner : List Char} (present : inner ≠ []) : Bare (ofBrackets inner) := by
  unfold ofBrackets
  split
  case h_1 name value found =>
    obtain ⟨-, nonempty⟩ := of_splitDefault?_eq_some found
    exact ⟨rfl, rfl, ⟨_, rfl, ofList_ne_empty nonempty⟩, fun _ => rfl⟩
  case h_2 => exact ⟨rfl, rfl, ⟨_, rfl, ofList_ne_empty present⟩, fun _ => rfl⟩

/-- The parameter that a text starts with the name of, and what follows the name. A part in brackets
comes before a word. -/
inductive Named (text : List Char) : Param → List Char → Prop
  | brackets {inner after : List Char} (enclosed : Enclosed '[' ']' text inner after) :
      Named text (ofBrackets inner) after
  | word (unclosed : ∀ inner after, ¬ Enclosed '[' ']' text inner after)
      (present : Text.word text ≠ []) :
      Named text { name := some (String.ofList (Text.word text)) } (Text.afterWord text)

namespace Named

variable {text after : List Char} {named : Param}

theorem whole (names : Named text named after) : text = named.token ++ after := by
  cases names with
  | brackets enclosed => rw [token_ofBrackets, enclosed.whole, List.append_assoc]; rfl
  | word unclosed present => rw [token_ofWord, Text.word_append_afterWord]

theorem bare (names : Named text named after) : Bare named := by
  cases names with
  | brackets enclosed => exact bare_ofBrackets enclosed.present
  | word unclosed present =>
    exact ⟨rfl, rfl, ⟨_, rfl, ofList_ne_empty present⟩, fun missing => absurd rfl missing⟩

theorem token_ne_nil (names : Named text named after) : named.token ≠ [] := by
  cases names with
  | brackets enclosed =>
    rw [token_ofBrackets]
    exact List.cons_ne_nil _ _
  | word unclosed present =>
    rwa [token_ofWord]

theorem tight_token (names : Named text named after) : Tight named.token := by
  cases names with
  | brackets enclosed =>
    rw [token_ofBrackets]
    exact Text.tight_delimited (by decide) (by decide) _
  | word unclosed present =>
    rw [token_ofWord]
    exact Text.tight_of_solid fun c member => Text.not_blank_of_mem_word member

end Named

theorem named_iff {text after : List Char} {named : Param} :
    (splitBrackets? text <|> splitWord? text) = some (named, after) ↔ Named text named after := by
  cases split : splitBrackets? text with
  | some found =>
    obtain ⟨param, rest⟩ := found
    obtain ⟨inner, enclosed, rfl⟩ := splitBrackets?_eq_some_iff.1 split
    show some (ofBrackets inner, rest) = some (named, after) ↔ Named text named after
    constructor
    · rintro ⟨⟩
      exact .brackets enclosed
    · intro names
      cases names with
      | brackets other =>
        rw [← split]
        exact splitBrackets?_eq_some_iff.2 ⟨_, other, rfl⟩
      | word unclosed present => exact absurd enclosed (unclosed inner rest)
  | none =>
    show splitWord? text = some (named, after) ↔ Named text named after
    have unclosed (inner after : List Char) : ¬ Enclosed '[' ']' text inner after := by
      intro enclosed
      rw [splitBrackets?_eq_some_iff.2 ⟨inner, enclosed, rfl⟩] at split
      cases split
    constructor
    · intro found
      unfold splitWord? at found
      split at found
      case h_1 => cases found
      case h_2 c more word =>
        cases found
        rw [← word]
        exact .word unclosed (by rw [word]; exact List.cons_ne_nil c more)
    · intro names
      cases names with
      | brackets enclosed => exact absurd enclosed (unclosed _ _)
      | word _ present =>
        unfold splitWord?
        split
        case h_1 nothing => exact absurd nothing present
        case h_2 c more word => rw [word]

theorem ofNamed?_eq_some_iff {text : List Char} {param : Param} :
    ofNamed? text = some param ↔ ∃ named after, Named (trimStart text) named after ∧
      param = { named with description := nonBlank? after } := by
  constructor
  · intro found
    obtain ⟨⟨named, after⟩, split, equal⟩ := Option.map_eq_some_iff.1 found
    exact ⟨named, after, named_iff.1 split, equal.symm⟩
  · rintro ⟨named, after, names, rfl⟩
    exact Option.map_eq_some_iff.2 ⟨(named, after), named_iff.2 names, rfl⟩

theorem exists_named {text : List Char} (present : ink text ≠ []) :
    ∃ named after, Named (trimStart text) named after := by
  by_cases closed : ∃ inner after, Enclosed '[' ']' (trimStart text) inner after
  case pos =>
    obtain ⟨inner, after, enclosed⟩ := closed
    exact ⟨_, after, .brackets enclosed⟩
  case neg =>
    have unclosed : ∀ inner after, ¬ Enclosed '[' ']' (trimStart text) inner after :=
      fun inner after enclosed => closed ⟨inner, after, enclosed⟩
    exact ⟨_, _, .word unclosed (Text.word_trimStart_ne_nil present)⟩

theorem ink_ne_nil_of_named {text after : List Char} {named : Param}
    (names : Named (trimStart text) named after) : ink text ≠ [] := by
  intro blank
  have whole : ink named.token ++ ink after = [] := by
    rw [← Text.ink_append, ← names.whole, Text.ink_trimStart, blank]
  exact names.token_ne_nil (names.tight_token.eq_nil_of_ink (List.append_eq_nil_iff.1 whole).1)

theorem ofNamed?_eq_none_iff {text : List Char} : ofNamed? text = none ↔ ink text = [] := by
  cases found : ofNamed? text with
  | some param =>
    obtain ⟨named, after, names, -⟩ := ofNamed?_eq_some_iff.1 found
    simpa using ink_ne_nil_of_named names
  | none =>
    by_cases blank : ink text = []
    case pos => simpa using blank
    case neg =>
      obtain ⟨named, after, names⟩ := exists_named blank
      rw [ofNamed?_eq_some_iff.2 ⟨named, after, names, rfl⟩] at found
      cases found

/-! ## Types -/

theorem ofTyped?_eq_some_iff {text : List Char} {param : Param} :
    ofTyped? text = some param ↔ ∃ type after inner, Enclosed '\x7b' '\x7d' text type after ∧
      ofNamed? after = some inner ∧ param = { inner with type := some (String.ofList type) } := by
  constructor
  · intro found
    obtain ⟨⟨type, after⟩, split, rest⟩ := Option.bind_eq_some_iff.1 found
    obtain ⟨inner, named, equal⟩ := Option.bind_eq_some_iff.1 rest
    cases equal
    exact ⟨type, after, inner, splitType?_eq_some_iff.1 split, named, rfl⟩
  · rintro ⟨type, after, inner, enclosed, named, rfl⟩
    show (splitType? text).bind _ = _
    rw [splitType?_eq_some_iff.2 enclosed]
    show (ofNamed? after).bind _ = _
    rw [named]
    rfl

theorem ofTyped?_eq_none_iff {text : List Char} :
    ofTyped? text = none ↔ ∀ type after, Enclosed '\x7b' '\x7d' text type after → ink after = [] := by
  constructor
  · intro missing type after enclosed
    cases named : ofNamed? after with
    | none => exact ofNamed?_eq_none_iff.1 named
    | some inner =>
      rw [ofTyped?_eq_some_iff.2 ⟨type, after, inner, enclosed, named, rfl⟩] at missing
      cases missing
  · intro blank
    cases found : ofTyped? text with
    | none => rfl
    | some param =>
      obtain ⟨type, after, inner, enclosed, named, -⟩ := ofTyped?_eq_some_iff.1 found
      rw [ofNamed?_eq_none_iff.2 (blank type after enclosed)] at named
      cases named

/-- A parameter is read with a type, or without one, or from a blank value. -/
theorem parse_cases (value : String) :
    ofTyped? (Text.trim value.toList) = some (parse value) ∨
      ofTyped? (Text.trim value.toList) = none ∧
        ofNamed? (Text.trim value.toList) = some (parse value) ∨
      Text.trim value.toList = [] ∧ parse value = { description := some "" } := by
  simp only [parse]
  cases typed : ofTyped? (Text.trim value.toList) with
  | some param => exact .inl rfl
  | none =>
    cases named : ofNamed? (Text.trim value.toList) with
    | some param => exact .inr (.inl ⟨rfl, rfl⟩)
    | none =>
      have blank : Text.trim value.toList = [] :=
        (Text.tight_trim _).eq_nil_of_ink (ofNamed?_eq_none_iff.1 named)
      rw [blank]
      exact .inr (.inr ⟨rfl, rfl⟩)

end Param

end DocCatalog
