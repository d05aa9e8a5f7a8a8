import Mathlib.Data.List.Basic
import DocCatalog.Proofs.Comment.Marks
import DocCatalog.Text.Split

/-!
# Writing a comment

A comment is written as its description and then its tags, each with the marker before its name.
Nothing else tells where a tag begins, so reading gives the comment back when no part has a mark of
its own, none ends with the escape of the next marker, and the text as a whole has no frame that
reading would take off.

Results:
1. `Unframed.bare_eq`: a text without a frame stays as it is.
2. `cut_parts`: parts that are written with markers between them are cut at these markers again.
3. `tag?_piece`: a name and a value that are written together are told apart again.
4. `parse_written`: reading undoes writing.
-/

namespace DocCatalog.Comment

/-! ## Texts without a frame -/

/-- A line that is not empty and does not begin with margin. -/
abbrev Flush (line : List Char) : Prop :=
  line.head?.any fun c => !isMargin c

/-- No blanks around the text, no delimiter at its ends, and no line that is empty or begins with
margin. An empty text has no line. -/
structure Unframed (text : List Char) : Prop where
  tight : Text.Tight text
  noOpener : ¬ ['/', '*', '*'] <+: text
  noCloser : ¬ ['*', '/'] <:+ text
  lines : text ≠ [] → ∀ line ∈ Text.pieces '\n' text, Flush line

/-- Flush lines have no margin. The line in which a text starts need not be flush when it began before
the text. -/
theorem stripMargin_eq_self (text : List Char) :
    ((∀ line ∈ Text.pieces '\n' text, Flush line) → stripMargin true text = text) ∧
    ((∀ line ∈ (Text.pieces '\n' text).tail, Flush line) → stripMargin false text = text) := by
  induction text with
  | nil => exact ⟨fun _ => rfl, fun _ => rfl⟩
  | cons c rest ih =>
    obtain ⟨atStart, inLine⟩ := ih
    cases cut : Text.pieces '\n' rest with
    | nil => exact absurd cut (Text.pieces_ne_nil '\n' rest)
    | cons line others =>
      rw [cut] at atStart inLine
      rw [Text.pieces, cut]
      by_cases lineFeed : c = '\n'
      · subst lineFeed
        constructor
        · intro flush
          exact absurd (flush [] (by simp)) (by decide)
        · intro flush
          rw [stripMargin, Bool.false_and, if_neg Bool.false_ne_true, beq_self_eq_true,
            atStart (by simpa using flush)]
      · have kept (flush : ∀ line ∈ others, Flush line) :
            c :: stripMargin (c == '\n') rest = c :: rest := by
          rw [beq_false_of_ne lineFeed, inLine flush]
        simp only [if_neg lineFeed]
        constructor
        · intro flush
          obtain ⟨first, later⟩ := List.forall_mem_cons.1 flush
          have ink : isMargin c = false := by simpa [Flush] using first
          rw [stripMargin, ink, Bool.and_false, if_neg Bool.false_ne_true, kept later]
        · intro flush
          rw [stripMargin, Bool.false_and, if_neg Bool.false_ne_true, kept flush]

theorem Unframed.bare_eq {text : List Char} (unframed : Unframed text) : bare text = text := by
  rw [bare, unframed.tight.trim_eq, dropOpener_eq_self unframed.noOpener,
    dropCloser_eq_self unframed.noCloser]
  by_cases present : text = []
  · rw [present]
    rfl
  · exact (stripMargin_eq_self text).1 (unframed.lines present)

/-! ## Parts with markers between them -/

/-- Parts that are written with markers between them are cut at these markers again. -/
theorem cut_parts {marker : Char} {previous : Option Char} {first : List Char}
    {others : List (List Char)} (unmarked : ∀ part ∈ first :: others, marks marker part = [])
    (present : ∀ part ∈ others, part ≠ [])
    (unescaped : ∀ part ∈ (first :: others).dropLast, part.getLast? ≠ some '\\')
    (start : first = [] → previous ≠ some '\\') :
    cut marker previous (first ++ others.flatMap (marker :: ·)) = (first, others) := by
  induction others generalizing previous first with
  | nil =>
    rw [cut_append_of_unmarked (unmarked first List.mem_cons_self)]
    simp [cut]
  | cons part rest ih =>
    obtain ⟨firstUnmarked, othersUnmarked⟩ := List.forall_mem_cons.1 unmarked
    obtain ⟨partPresent, restPresent⟩ := List.forall_mem_cons.1 present
    obtain ⟨firstUnescaped, othersUnescaped⟩ := List.forall_mem_cons.1 unescaped
    have noEscape : first.getLast?.or previous ≠ some '\\' := by
      rcases List.eq_nil_or_concat first with rfl | ⟨front, c, rfl⟩
      · exact start rfl
      · simpa using firstUnescaped
    have next : cut marker (some marker) (part ++ rest.flatMap (marker :: ·)) = (part, rest) :=
      ih othersUnmarked restPresent othersUnescaped fun none => absurd none partPresent
    rw [cut_append_of_unmarked firstUnmarked, List.flatMap_cons, List.cons_append, cut_cons,
      if_pos ⟨rfl, noEscape⟩, next, List.append_nil]

/-! ## Comments -/

/-- A tag as it is written behind the marker. -/
def piece (tag : String × String) : List Char :=
  tag.1.toList ++ tag.2.toList

/-- The description and the tags as they are written. -/
def parts (comment : Comment) : List (List Char) :=
  comment.description.toList :: comment.tags.map piece

/-- Writes a comment: the description, and then every tag behind a marker. -/
def written (marker : Char) (comment : Comment) : List Char :=
  comment.description.toList ++ comment.tags.flatMap fun tag => marker :: piece tag

/-- What a comment must be like so that its tags are told apart when they are written. -/
structure Writable (marker : Char) (comment : Comment) : Prop where
  name : ∀ tag ∈ comment.tags, tag.1 ≠ "" ∧ ∀ c ∈ tag.1.toList, Text.isBlank c = false
  /-- The value is empty or begins with a blank. -/
  value : ∀ tag ∈ comment.tags, ∀ c ∈ tag.2.toList.head?, Text.isBlank c = true
  unmarked : ∀ part ∈ comment.parts, marks marker part = []
  /-- No part before a marker ends with a backslash. -/
  unescaped : ∀ part ∈ comment.parts.dropLast, part.getLast? ≠ some '\\'

theorem tag?_piece {tag : String × String} (present : tag.1 ≠ "")
    (solid : ∀ c ∈ tag.1.toList, Text.isBlank c = false)
    (starts : ∀ c ∈ tag.2.toList.head?, Text.isBlank c = true) : tag? (piece tag) = some tag := by
  have notNil : tag.1.toList ≠ [] := fun none => present (String.toList_eq_nil_iff.1 none)
  rw [tag?_eq, piece, Text.word_append solid starts, Text.afterWord_append solid starts,
    if_neg notNil, String.ofList_toList, String.ofList_toList]

theorem Writable.cut_written {marker : Char} {comment : Comment}
    (writable : comment.Writable marker) :
    cut marker none (comment.written marker) =
      (comment.description.toList, comment.tags.map piece) := by
  have present : ∀ part ∈ comment.tags.map piece, part ≠ [] := by
    refine List.forall_mem_map.2 fun tag member none => ?_
    have noName := (List.append_eq_nil_iff.1 none).1
    exact (writable.name tag member).1 (String.toList_eq_nil_iff.1 noName)
  have whole : comment.written marker =
      comment.description.toList ++ (comment.tags.map piece).flatMap (marker :: ·) := by
    rw [written, List.flatMap_map]
  rw [whole]
  exact cut_parts writable.unmarked present writable.unescaped fun _ => nofun

/-- Reading undoes writing, whatever the marker is. It gives back the comment itself, with every
blank of its description and its values. -/
theorem parse_written {marker : Char} {comment : Comment} (writable : comment.Writable marker)
    (unframed : Unframed (comment.written marker)) :
    parse marker (comment.written marker) = comment := by
  have tags : (comment.tags.map piece).filterMap tag? = comment.tags := by
    rw [List.filterMap_map]
    have told : ∀ tag ∈ comment.tags, (tag? ∘ piece) tag = some tag := fun tag member =>
      tag?_piece (writable.name tag member).1 (writable.name tag member).2
        (writable.value tag member)
    rw [List.filterMap_congr told, List.filterMap_some]
  rw [parse, unframed.bare_eq, ofBare, writable.cut_written]
  simp only [String.ofList_toList, tags]

/-- Escaped markers in the description and in a value, a tag without a value directly before another
one, and a value that ends with the line. -/
theorem parse_written_escaped :
    let comment : Comment :=
      ⟨"A \\@.\n", [("param", " a\n"), ("todo", ""), ("see", " \\@ b")]⟩
    comment.Writable '@' ∧ Unframed (comment.written '@') ∧
      String.ofList (comment.written '@') = "A \\@.\n@param a\n@todo@see \\@ b" ∧
      parse '@' (comment.written '@') = comment := by
  intro comment
  have spelled : comment.written '@' =
      ['A', ' ', '\\', '@', '.', '\n', '@', 'p', 'a', 'r', 'a', 'm', ' ', 'a', '\n',
        '@', 't', 'o', 'd', 'o', '@', 's', 'e', 'e', ' ', '\\', '@', ' ', 'b'] := by decide
  have named : ∀ tag ∈ comment.tags,
      tag.1 ≠ "" ∧ tag.1.toList.all fun c => !Text.isBlank c := by decide
  have valued : ∀ tag ∈ comment.tags, tag.2.toList.head?.all Text.isBlank := by decide
  have writable : comment.Writable '@' := {
    name := by simpa using named
    value := by simpa [Option.all_eq_true] using valued
    unmarked := by decide
    unescaped := by decide }
  have unframed : Unframed (comment.written '@') := by
    rw [spelled]
    refine ⟨⟨?_, ?_⟩, by decide, by decide, fun _ => by decide⟩
    · rintro _ ⟨⟩
      decide
    · rintro _ ⟨⟩
      decide
  exact ⟨writable, unframed, by decide, parse_written writable unframed⟩

end DocCatalog.Comment
