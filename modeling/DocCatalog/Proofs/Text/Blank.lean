import DocCatalog.Text.Blank

/-!
# Laws of trimming and of words

Trimming keeps a part of the text that stands together and has no blank at its ends, and changes
nothing when there is none. The first word holds no blank.

The ink of a text is what is left when all blanks are gone. Trimming keeps it.
-/

namespace DocCatalog.Text

@[simp] theorem isBlank_space : isBlank ' ' = true := by decide

theorem isSuffix_trimStart (text : List Char) : trimStart text <:+ text :=
  List.dropWhile_suffix isBlank

theorem isPrefix_trimEnd (text : List Char) : trimEnd text <+: text := by
  have suffix : text.reverse.dropWhile isBlank <:+ text.reverse := List.dropWhile_suffix isBlank
  simpa [trimEnd] using List.reverse_prefix.2 suffix

/-- The blanks that are dropped in front. -/
theorem exists_append_trimStart (text : List Char) :
    ∃ blanks, (∀ c ∈ blanks, isBlank c = true) ∧ blanks ++ trimStart text = text :=
  ⟨text.takeWhile isBlank, fun _ member => List.all_eq_true.1 List.all_takeWhile _ member,
    List.takeWhile_append_dropWhile⟩

/-- The blanks that are dropped at the end. -/
theorem exists_trimEnd_append (text : List Char) :
    ∃ blanks, (∀ c ∈ blanks, isBlank c = true) ∧ trimEnd text ++ blanks = text := by
  obtain ⟨blanks, blank, whole⟩ := exists_append_trimStart text.reverse
  refine ⟨blanks.reverse, fun c member => blank c (List.mem_reverse.1 member), ?_⟩
  rw [trimEnd, ← trimStart, ← List.reverse_append, whole, List.reverse_reverse]

theorem isInfix_trim (text : List Char) : trim text <:+: text :=
  (isPrefix_trimEnd (trimStart text)).isInfix.trans (isSuffix_trimStart text).isInfix

theorem isPrefix_word (text : List Char) : word text <+: text :=
  List.takeWhile_prefix _

theorem not_blank_of_mem_word {text : List Char} {c : Char} (member : c ∈ word text) :
    isBlank c = false := by
  have solid := List.all_eq_true.1 List.all_takeWhile c member
  simpa using solid

/-- A blank ends a word. -/
theorem word_append {first rest : List Char} (solid : ∀ c ∈ first, isBlank c = false)
    (starts : ∀ c ∈ rest.head?, isBlank c = true) : word (first ++ rest) = first := by
  have inside : ∀ c ∈ first, (!isBlank c) = true := fun c member => by simp [solid c member]
  rw [word, List.takeWhile_append_of_pos inside]
  cases rest with
  | nil => simp
  | cons c more => simp [starts c rfl]

theorem blank_of_head?_afterWord {text : List Char} {c : Char}
    (head : c ∈ (afterWord text).head?) : isBlank c = true := by
  have blank := List.head?_dropWhile_not (fun c => !isBlank c) text
  unfold afterWord at head
  rw [Option.mem_def.1 head] at blank
  simpa using blank

theorem afterWord_append {first rest : List Char} (solid : ∀ c ∈ first, isBlank c = false)
    (starts : ∀ c ∈ rest.head?, isBlank c = true) : afterWord (first ++ rest) = rest := by
  have whole : word (first ++ rest) ++ afterWord (first ++ rest) = first ++ rest :=
    word_append_afterWord _
  rw [word_append solid starts] at whole
  exact List.append_cancel_left whole

/-! ## Ends without blanks -/

/-- No blank at either end. -/
structure Tight (text : List Char) : Prop where
  starts : ∀ c ∈ text.head?, isBlank c = false
  ends : ∀ c ∈ text.getLast?, isBlank c = false

theorem not_blank_of_head?_trimStart {text : List Char} {c : Char}
    (head : c ∈ (trimStart text).head?) : isBlank c = false := by
  have solid := List.head?_dropWhile_not isBlank text
  unfold trimStart at head
  rw [Option.mem_def.1 head] at solid
  simpa using solid

theorem tight_trim (text : List Char) : Tight (trim text) where
  starts c head := by
    obtain ⟨back, whole⟩ := isPrefix_trimEnd (trimStart text)
    have atStart : c ∈ (trimStart text).head? := by
      have first : (trimEnd (trimStart text)).head? = some c := head
      rw [← whole, List.head?_append, first]
      rfl
    exact not_blank_of_head?_trimStart atStart
  ends c last := by
    have reversed : c ∈ (trimStart (trimStart text).reverse).head? := by
      simpa [trim, trimEnd, trimStart] using last
    exact not_blank_of_head?_trimStart reversed

theorem trimStart_cons_of_blank {c : Char} (blank : isBlank c = true) (text : List Char) :
    trimStart (c :: text) = trimStart text :=
  List.dropWhile_cons_of_pos blank

theorem trim_cons_of_blank {c : Char} (blank : isBlank c = true) (text : List Char) :
    trim (c :: text) = trim text := by
  rw [trim, trimStart_cons_of_blank blank, ← trim]

theorem trimStart_eq_self {text : List Char} (starts : ∀ c ∈ text.head?, isBlank c = false) :
    trimStart text = text := by
  cases text with
  | nil => rfl
  | cons c rest =>
    have notBlank : ¬ isBlank c = true := by simp [starts c rfl]
    exact List.dropWhile_cons_of_neg notBlank

theorem Tight.trim_eq {text : List Char} (tight : Tight text) : trim text = text := by
  have reversed : trimStart text.reverse = text.reverse :=
    trimStart_eq_self fun c head => tight.ends c (by simpa using head)
  have kept : trimEnd text = text := by
    rw [trimEnd, ← trimStart, reversed, List.reverse_reverse]
  rw [trim, trimStart_eq_self tight.starts, kept]

theorem tight_of_solid {text : List Char} (solid : ∀ c ∈ text, isBlank c = false) :
    Tight text where
  starts c head := solid c (List.mem_of_mem_head? head)
  ends c last := solid c (List.mem_of_getLast? last)

/-- A text without blanks has nothing to trim. -/
theorem trim_eq_self {text : List Char} (solid : ∀ c ∈ text, isBlank c = false) :
    trim text = text :=
  (tight_of_solid solid).trim_eq

/-- The blanks inside do not count. -/
theorem Tight.append {first last : List Char} (tight : Tight first) (present : first ≠ [])
    (others : Tight last) (lastPresent : last ≠ []) (middle : List Char) :
    Tight (first ++ middle ++ last) where
  starts c head := by
    cases first with
    | nil => exact absurd rfl present
    | cons d rest => exact tight.starts c head
  ends c found := by
    refine others.ends c ?_
    rcases List.eq_nil_or_concat last with nothing | ⟨front, d, rfl⟩
    · exact absurd nothing lastPresent
    · simpa [← List.append_assoc] using found

/-- A text between two delimiters, whatever it is. -/
theorem tight_delimited {opener closer : Char} (opens : isBlank opener = false)
    (closes : isBlank closer = false) (inner : List Char) :
    Tight (opener :: inner ++ [closer]) where
  starts c head := by
    cases head
    exact opens
  ends c last := by
    rw [List.getLast?_concat] at last
    cases last
    exact closes

/-! ## Ink -/

/-- The characters of a text that are not blank. -/
def ink (text : List Char) : List Char :=
  text.filter fun c => !isBlank c

@[simp] theorem ink_append (first second : List Char) :
    ink (first ++ second) = ink first ++ ink second :=
  List.filter_append ..

theorem ink_cons {c : Char} (solid : isBlank c = false) (rest : List Char) :
    ink (c :: rest) = c :: ink rest :=
  List.filter_cons_of_pos (by simp [solid])

theorem ink_cons_of_blank {c : Char} (blank : isBlank c = true) (rest : List Char) :
    ink (c :: rest) = ink rest :=
  List.filter_cons_of_neg (by simp [blank])

theorem mem_ink {c : Char} {text : List Char} : c ∈ ink text ↔ c ∈ text ∧ isBlank c = false := by
  simp [ink]

theorem mem_of_ink_eq {first second : List Char} {c : Char} (solid : isBlank c = false)
    (same : ink first = ink second) (member : c ∈ first) : c ∈ second := by
  have inInk : c ∈ ink second := same ▸ mem_ink.2 ⟨member, solid⟩
  exact (mem_ink.1 inInk).1

theorem ink_eq_nil_iff {text : List Char} : ink text = [] ↔ ∀ c ∈ text, isBlank c = true := by
  simp [ink]

theorem ink_trimStart (text : List Char) : ink (trimStart text) = ink text := by
  have blanks : ink (text.takeWhile isBlank) = [] :=
    ink_eq_nil_iff.2 fun c member => List.all_eq_true.1 List.all_takeWhile c member
  have split : text.takeWhile isBlank ++ trimStart text = text := List.takeWhile_append_dropWhile
  calc
    ink (trimStart text) = ink (text.takeWhile isBlank) ++ ink (trimStart text) := by rw [blanks]; rfl
    _ = ink text := by rw [← ink_append, split]

theorem ink_trim (text : List Char) : ink (trim text) = ink text := by
  have reversed (other : List Char) : ink other.reverse = (ink other).reverse :=
    List.filter_reverse
  have atEnd (other : List Char) : ink (trimEnd other) = ink other := by
    rw [trimEnd, ← trimStart, reversed, ink_trimStart, reversed, List.reverse_reverse]
  rw [trim, atEnd, ink_trimStart]

theorem Tight.eq_nil_of_ink {text : List Char} (tight : Tight text) (blank : ink text = []) :
    text = [] := by
  cases text with
  | nil => rfl
  | cons c rest =>
    rw [ink_cons (tight.starts c rfl)] at blank
    cases blank

theorem trim_eq_nil_iff {text : List Char} : trim text = [] ↔ ink text = [] := by
  constructor
  · intro nothing
    rw [← ink_trim, nothing]
    rfl
  · intro blank
    exact (tight_trim text).eq_nil_of_ink (by rw [ink_trim, blank])

theorem word_trimStart_ne_nil {text : List Char} (present : ink text ≠ []) :
    word (trimStart text) ≠ [] := by
  rw [← ink_trimStart] at present
  cases trimmed : trimStart text with
  | nil =>
    rw [trimmed] at present
    exact absurd rfl present
  | cons c rest =>
    have head : c ∈ (trimStart text).head? := by simp [trimmed]
    have solid := not_blank_of_head?_trimStart head
    simp [word, solid]

/-! ## Texts that may be missing -/

theorem nonBlank?_eq_of_trim_eq {first second : List Char} (same : trim first = trim second) :
    nonBlank? first = nonBlank? second := by
  unfold nonBlank?
  rw [same]

theorem nonBlank?_eq_none_iff {text : List Char} : nonBlank? text = none ↔ ink text = [] := by
  rw [← trim_eq_nil_iff, nonBlank?]
  cases trim text <;> simp

theorem nonBlank?_eq_some_iff {text : List Char} {content : String} :
    nonBlank? text = some content ↔ content.toList = trim text ∧ trim text ≠ [] := by
  unfold nonBlank?
  cases trim text with
  | nil => simp
  | cons c rest =>
    constructor
    · rintro found
      cases found
      exact ⟨String.toList_ofList, List.cons_ne_nil c rest⟩
    · rintro ⟨same, -⟩
      show some (String.ofList (c :: rest)) = some content
      rw [← same, String.ofList_toList]

end DocCatalog.Text
