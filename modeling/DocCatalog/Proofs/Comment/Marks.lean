import Mathlib.Data.List.TakeWhile
import DocCatalog.Proofs.Comment.TagName

/-!
# Where a text is cut

A mark is a position of a text at which the marker stands and no backslash directly before it. The
text is cut at its marks and nowhere else, so the parts can be read off the positions alone.

Results:
1. `cut_eq`: the parts after the markers are what follows each mark, up to the next one.
2. `cut_append_of_unmarked`: a text without a mark goes to the first part as it is.
3. `cut_congr`: of the character before a text only one thing counts, whether it is a backslash.
4. `alike_append`: text without the marker that is added at the end goes to the last part.
-/

namespace DocCatalog.Comment

/-! ## Marks -/

/-- The marker stands at a position, and no backslash directly before it. -/
def isMark (marker : Char) (text : List Char) (i : Nat) : Bool :=
  text[i]? = some marker ∧ (i = 0 ∨ text[i - 1]? ≠ some '\\')

/-- The positions of the marks of a text, in order. -/
def marks (marker : Char) (text : List Char) : List Nat :=
  (List.range text.length).filter (isMark marker text)

/-- The characters from a position on, up to the first that meets a condition. -/
def upTo (stops : Char → Nat → Bool) (text : List Char) (start : Nat) : List Char :=
  ((text.zipIdx.drop start).takeWhile fun entry => !stops entry.1 entry.2).map Prod.fst

/-- The characters from a position on, up to the next mark. -/
def upToMark (marker : Char) (text : List Char) (start : Nat) : List Char :=
  upTo (fun _ i => isMark marker text i) text start

theorem upTo_of_lt (stops : Char → Nat → Bool) {text : List Char} {start : Nat}
    (inside : start < text.length) :
    upTo stops text start =
      if stops text[start] start then [] else text[start] :: upTo stops text (start + 1) := by
  have insideIdx : start < text.zipIdx.length := by simpa using inside
  have here : text.zipIdx[start] = (text[start], start) := by simp
  rw [upTo, List.drop_eq_getElem_cons insideIdx, here, List.takeWhile_cons]
  by_cases stop : stops text[start] start <;> simp [stop, upTo]

theorem upTo_of_le (stops : Char → Nat → Bool) {text : List Char} {start : Nat}
    (beyond : text.length ≤ start) : upTo stops text start = [] := by
  rw [upTo, List.drop_eq_nil_of_le (by simpa using beyond)]
  rfl

/-- Stopping earlier is the same as stopping in what was found. -/
theorem upTo_or (earlier : Char → Bool) (stops : Char → Nat → Bool) (text : List Char)
    (start : Nat) :
    upTo (fun c i => earlier c || stops c i) text start =
      (upTo stops text start).takeWhile fun c => !earlier c := by
  simp only [upTo, List.takeWhile_map, List.takeWhile_takeWhile, Bool.not_or, Function.comp_def,
    Bool.decide_and, Bool.decide_coe]

/-- Whether a marker counts depends on the character before it only. -/
theorem isMark_at_length (marker : Char) (before rest : List Char) (c : Char) :
    isMark marker (before ++ c :: rest) before.length =
      decide (c = marker ∧ before.getLast? ≠ some '\\') := by
  rcases List.eq_nil_or_concat before with rfl | ⟨front, d, rfl⟩
  · simp [isMark]
  · simp [isMark]

/-- What stands before a text does not matter behind its first character. -/
theorem isMark_append (marker : Char) (before text : List Char) (i : Nat) :
    isMark marker (before ++ text) (before.length + (i + 1)) = isMark marker text (i + 1) := by
  have shifted (j : Nat) : (before ++ text)[before.length + j]? = text[j]? := by
    rw [List.getElem?_append_right (Nat.le_add_right _ _), Nat.add_sub_cancel_left]
  have previous : before.length + (i + 1) - 1 = before.length + i := rfl
  simp only [isMark, previous, shifted]
  simp

theorem upToMark_at_length (marker : Char) (before rest : List Char) (c : Char) :
    upToMark marker (before ++ c :: rest) before.length =
      if c = marker ∧ before.getLast? ≠ some '\\' then []
      else c :: upToMark marker (before ++ c :: rest) (before.length + 1) := by
  have inside : before.length < (before ++ c :: rest).length := by simp
  have here : (before ++ c :: rest)[before.length] = c := by simp
  rw [upToMark, upTo_of_lt _ inside, here, isMark_at_length]
  simp only [decide_eq_true_eq]
  rfl

theorem isMark_eq_false {marker : Char} {text : List Char} (none : marks marker text = [])
    (i : Nat) : isMark marker text i = false := by
  by_cases inside : i < text.length
  · exact Bool.eq_false_iff.2 (List.filter_eq_nil_iff.1 none i (List.mem_range.2 inside))
  · refine decide_eq_false fun mark => ?_
    rw [List.getElem?_eq_none (Nat.le_of_not_lt inside)] at mark
    cases mark.1

/-- The parts of a text that follows another one. -/
theorem cut_eq_upToMark (marker : Char) (before rest : List Char) :
    cut marker before.getLast? rest =
      (upToMark marker (before ++ rest) before.length,
        ((List.range' before.length rest.length).filter (isMark marker (before ++ rest))).map
          fun i => upToMark marker (before ++ rest) (i + 1)) := by
  induction rest generalizing before with
  | nil => simp [cut, upToMark, upTo_of_le]
  | cons c rest ih =>
    have next := ih (before ++ [c])
    rw [List.getLast?_concat, List.append_assoc, List.singleton_append, List.length_append,
      List.length_singleton] at next
    rw [cut_cons, next, List.length_cons, List.range'_succ, List.filter_cons, upToMark_at_length,
      isMark_at_length]
    by_cases marked : c = marker ∧ before.getLast? ≠ some '\\'
    · simp [marked]
    · rw [if_neg marked, if_neg marked, if_neg (by simpa using marked)]

/-- The parts after the markers are what follows each mark, up to the next one. -/
theorem cut_eq (marker : Char) (text : List Char) :
    cut marker none text =
      (upToMark marker text 0, (marks marker text).map fun i => upToMark marker text (i + 1)) := by
  have whole := cut_eq_upToMark marker [] text
  rwa [List.getLast?_nil, List.nil_append, List.length_nil, ← List.range_eq_range'] at whole

/-! ## Texts that are put together -/

/-- Of the character before a text only one thing counts, whether it is a backslash. -/
theorem cut_congr {marker : Char} {previous other : Option Char}
    (same : previous = some '\\' ↔ other = some '\\') (text : List Char) :
    cut marker previous text = cut marker other text := by
  cases text with
  | nil => rfl
  | cons c rest =>
    have marked : (c = marker ∧ previous ≠ some '\\') ↔ (c = marker ∧ other ≠ some '\\') :=
      and_congr_right' (not_congr same)
    simp only [cut_cons, marked]

theorem cut_of_not_mem {marker : Char} {text : List Char} (absent : marker ∉ text)
    (previous : Option Char) : cut marker previous text = (text, []) := by
  induction text generalizing previous with
  | nil => rfl
  | cons c rest ih =>
    obtain ⟨differs, away⟩ := List.ne_and_not_mem_of_not_mem_cons absent
    rw [cut_cons, ih away, if_neg fun marked => differs marked.1.symm]

theorem cut_append_after {marker : Char} {before text : List Char}
    (unmarked : ∀ i, before.length ≤ i → isMark marker (before ++ text) i = false)
    (rest : List Char) :
    cut marker before.getLast? (text ++ rest) =
      (text ++ (cut marker (before ++ text).getLast? rest).1,
        (cut marker (before ++ text).getLast? rest).2) := by
  induction text generalizing before with
  | nil => simp
  | cons c text ih =>
    have whole : before ++ c :: text = (before ++ [c]) ++ text := by simp
    have first := unmarked before.length (Nat.le_refl _)
    rw [isMark_at_length, decide_eq_false_iff_not] at first
    have others : ∀ i, (before ++ [c]).length ≤ i →
        isMark marker ((before ++ [c]) ++ text) i = false := by
      intro i beyond
      rw [← whole]
      exact unmarked i (Nat.le_of_succ_le (by simpa using beyond))
    have next := ih others
    rw [List.getLast?_concat] at next
    rw [List.cons_append, cut_cons, if_neg first, next, ← whole]
    rfl

/-- A text without a mark goes to the first part as it is. -/
theorem cut_append_of_unmarked {marker : Char} {text : List Char}
    (none : marks marker text = []) (previous : Option Char) (rest : List Char) :
    cut marker previous (text ++ rest) =
      (text ++ (cut marker (text.getLast?.or previous) rest).1,
        (cut marker (text.getLast?.or previous) rest).2) := by
  have unmarked := isMark_eq_false none
  have after : ∀ i, previous.toList.length ≤ i →
      isMark marker (previous.toList ++ text) i = false := by
    intro i beyond
    obtain ⟨j, rfl⟩ := Nat.exists_eq_add_of_le beyond
    cases j with
    | succ j =>
      rw [isMark_append]
      exact unmarked (j + 1)
    | zero =>
      cases text with
      | nil => simp [isMark]
      | cons c rest =>
        have differs : c ≠ marker := by simpa [isMark] using unmarked 0
        rw [Nat.add_zero, isMark_at_length]
        simp [differs]
  have last : previous.toList.getLast? = previous := by cases previous <;> rfl
  have cutAfter := cut_append_after after rest
  rwa [List.getLast?_append, last] at cutAfter

/-! ## Tags of parts -/

theorem tag?_eq (part : List Char) :
    tag? part =
      if Text.word part = [] then none
      else some (String.ofList (Text.word part), String.ofList (Text.afterWord part)) := by
  unfold tag?
  split
  case h_1 none => rw [if_pos none]
  case h_2 word => rw [if_neg (by simp [word]), word]

/-! ## Parts that look alike -/

section Views

variable {marker : Char} {β : Type} {view : List Char → β}

/-- The parts of two texts that follow the same character look alike. -/
structure Alike (marker : Char) (view : List Char → β) (previous : Option Char)
    (text other : List Char) : Prop where
  first : view (cut marker previous text).1 = view (cut marker previous other).1
  others : (cut marker previous text).2.map view = (cut marker previous other).2.map view

theorem Alike.cons
    (grows : ∀ (c : Char) {part other : List Char},
      view part = view other → view (c :: part) = view (c :: other))
    {c : Char} {text other : List Char} (alike : Alike marker view (some c) text other)
    (previous : Option Char) : Alike marker view previous (c :: text) (c :: other) := by
  by_cases marked : c = marker ∧ previous ≠ some '\\'
  · constructor
    · rw [cut_cons, cut_cons, if_pos marked, if_pos marked]
    · rw [cut_cons, cut_cons, if_pos marked, if_pos marked, List.map_cons, List.map_cons,
        alike.first, alike.others]
  · constructor
    · rw [cut_cons, cut_cons, if_neg marked, if_neg marked]
      exact grows c alike.first
    · rw [cut_cons, cut_cons, if_neg marked, if_neg marked]
      exact alike.others

/-- Text without the marker that is added at the end goes to the last part. So the parts look as
before when the end of a part is not seen. -/
theorem alike_append {tail : List Char} (absent : marker ∉ tail)
    (grows : ∀ (c : Char) {part other : List Char},
      view part = view other → view (c :: part) = view (c :: other))
    (unseen : view tail = view []) (previous : Option Char) (text : List Char) :
    Alike marker view previous (text ++ tail) text := by
  induction text generalizing previous with
  | nil =>
    constructor
    · rw [List.nil_append, cut_of_not_mem absent]
      exact unseen
    · rw [List.nil_append, cut_of_not_mem absent]
      rfl
  | cons c rest ih => exact (ih (some c)).cons grows previous

end Views

end DocCatalog.Comment
