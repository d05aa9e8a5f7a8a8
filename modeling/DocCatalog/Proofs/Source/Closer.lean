import DocCatalog.Proofs.Source.Lexer

/-!
# The closer stays outside

A doc comment ends at its first `*/`, so no body holds those two characters next to each other,
whether the comment is closed or cut off by the end of the text (`unclosed_of_mem_bodies`). The
reader keeps this of what it holds, character by character.
-/

namespace DocCatalog.Source

/-- A text in which no star stands directly before a slash. -/
def Unclosed (text : List Char) : Prop :=
  ¬ ['*', '/'] <:+: text

theorem Unclosed.within {part text : List Char} (unclosed : Unclosed text)
    (inside : part <:+: text) : Unclosed part :=
  fun closer => unclosed (closer.trans inside)

theorem pair_infix_cons {first second c : Char} {rest : List Char} :
    [first, second] <:+: c :: rest ↔
      c = first ∧ rest.head? = some second ∨ [first, second] <:+: rest := by
  rw [List.infix_cons_iff]
  refine or_congr_left ?_
  cases rest with
  | nil => simp
  | cons d tail =>
    simp only [List.cons_prefix_cons, List.nil_prefix, and_true, List.head?_cons,
      Option.some.injEq, eq_comm]

theorem unclosed_nil : Unclosed [] := by
  intro closer
  simpa using closer.length_le

theorem unclosed_cons {c : Char} {rest : List Char} :
    Unclosed (c :: rest) ↔ (c = '*' → rest.head? ≠ some '/') ∧ Unclosed rest := by
  simp only [Unclosed, pair_infix_cons, not_or, not_and, ne_eq]

/-- The same read from the end. -/
theorem unclosed_reverse_cons {c : Char} {held : List Char} :
    Unclosed (c :: held).reverse ↔
      (c = '/' → held.head? ≠ some '*') ∧ Unclosed held.reverse := by
  have mirrored (text : List Char) : Unclosed text.reverse ↔ ¬ ['/', '*'] <:+: text :=
    not_congr (@List.reverse_infix Char ['/', '*'] text)
  simp only [mirrored, pair_infix_cons, not_or, not_and, ne_eq]

/-- What a mode holds has no closer. -/
def Mode.Unclosed : Mode → Prop
  | .doc held => Source.Unclosed held.reverse
  | _ => True

theorem Mode.unclosed_afterCode (c : Char) : (afterCode c).Unclosed := by
  unfold afterCode
  split
  · trivial
  · split <;> trivial

theorem Mode.Unclosed.next {mode : Mode} (unclosed : mode.Unclosed) (c : Char) :
    (mode.next c).Unclosed := by
  cases mode with
  | code => exact unclosed_afterCode c
  | slash =>
    simp only [Mode.next]
    split
    · trivial
    · split
      · trivial
      · exact unclosed_afterCode c
  | slashStar =>
    simp only [Mode.next]
    split
    · exact unclosed_nil
    · exact unclosed_afterCode c
  | string quote previous =>
    simp only [Mode.next]
    split <;> trivial
  | line =>
    simp only [Mode.next]
    split <;> trivial
  | doc held =>
    simp only [Mode.next]
    split
    case isTrue => trivial
    case isFalse stays =>
      -- A slash after a star would have ended the comment.
      refine unclosed_reverse_cons.2 ⟨fun slash star => stays ⟨slash, ?_⟩, unclosed⟩
      simp [ends, List.headD_eq_head?_getD, star]

theorem Mode.Unclosed.ended {mode : Mode} (unclosed : mode.Unclosed) {c : Char} {body : List Char}
    (found : mode.ended? c = some body) : Source.Unclosed body := by
  cases mode with
  | doc held =>
    simp only [Mode.ended?] at found
    split at found
    · simp only [Option.some.injEq] at found
      subst found
      have inside : held.tail.reverse <:+: held.reverse :=
        List.reverse_infix.2 (List.tail_suffix held).isInfix
      exact Source.Unclosed.within unclosed inside
    · simp at found
  | code | slash | slashStar | string | line => simp [Mode.ended?] at found

theorem Mode.Unclosed.cutOff {mode : Mode} (unclosed : mode.Unclosed) {body : List Char}
    (found : mode.cutOff? = some body) : Source.Unclosed body := by
  cases mode with
  | doc held =>
    simp only [Mode.cutOff?, Option.some.injEq] at found
    exact found ▸ unclosed
  | code | slash | slashStar | string | line => simp [Mode.cutOff?] at found

theorem unclosed_of_mem_read {mode : Mode} (unclosed : mode.Unclosed) {text body : List Char}
    (member : body ∈ read mode text) : Unclosed body := by
  induction text generalizing mode with
  | nil => exact unclosed.cutOff (by simpa [read] using member)
  | cons c rest ih =>
    rcases List.mem_append.1 member with now | later
    · exact unclosed.ended (by simpa using now)
    · exact ih (unclosed.next c) later

theorem unclosed_of_mem_bodies {text body : List Char} (member : body ∈ bodies text) :
    Unclosed body := by
  rw [bodies_eq_read] at member
  have start : Mode.code.Unclosed := trivial
  exact unclosed_of_mem_read start member

end DocCatalog.Source
