import Mathlib.Data.List.Flatten
import DocCatalog.Text.Split

/-!
# The characters of parts

Joining parts brings in the separator and nothing else (`mem_joined`), and cutting a text brings in
nothing at all: pieces and lines hold characters of the text only (`mem_of_mem_pieces`,
`mem_of_mem_lines`).
-/

namespace DocCatalog.Text

theorem joined_eq_intercalate (separator : List Char) (parts : List (List Char)) :
    joined separator parts = separator.intercalate parts := by
  fun_induction joined separator parts with
  | case1 => rfl
  | case2 piece => simp
  | case3 piece next others ih => rw [ih, List.intercalate_cons_cons]

theorem mem_joined {separator : List Char} {parts : List (List Char)} {c : Char}
    (member : c ∈ joined separator parts) : c ∈ separator ∨ ∃ part ∈ parts, c ∈ part := by
  fun_induction joined separator parts with
  | case1 => exact absurd member List.not_mem_nil
  | case2 piece => exact .inr ⟨piece, List.mem_cons_self, member⟩
  | case3 piece next others ih =>
    rcases List.mem_append.1 member with front | back
    · rcases List.mem_append.1 front with inPiece | inSeparator
      · exact .inr ⟨piece, List.mem_cons_self, inPiece⟩
      · exact .inl inSeparator
    · exact (ih back).imp_right fun ⟨part, later, inPart⟩ =>
        ⟨part, List.mem_cons_of_mem _ later, inPart⟩

theorem mem_joined_of_mem {separator : List Char} {parts : List (List Char)} {part : List Char}
    (inParts : part ∈ parts) {c : Char} (member : c ∈ part) : c ∈ joined separator parts := by
  fun_induction joined separator parts with
  | case1 => exact absurd inParts List.not_mem_nil
  | case2 piece => exact List.mem_singleton.1 inParts ▸ member
  | case3 piece next others ih =>
    rcases List.mem_cons.1 inParts with rfl | later
    · exact List.mem_append_left _ (List.mem_append_left _ member)
    · exact List.mem_append_right _ (ih later)

theorem mem_of_mem_pieces {separator : Char} {text piece : List Char}
    (inPieces : piece ∈ pieces separator text) {c : Char} (member : c ∈ piece) : c ∈ text := by
  rw [← joined_pieces separator text]
  exact mem_joined_of_mem inPieces member

theorem dropReturn_subset (line : List Char) : dropReturn line ⊆ line := by
  unfold dropReturn
  split
  case h_1 rest reversed =>
    intro c member
    have inReverse : c ∈ line.reverse :=
      reversed ▸ List.mem_cons_of_mem _ (List.mem_reverse.1 member)
    exact List.mem_reverse.1 inReverse
  case h_2 => exact List.Subset.refl line

theorem mem_of_mem_lines {text line : List Char} (inLines : line ∈ lines text) {c : Char}
    (member : c ∈ line) : c ∈ text := by
  rcases List.mem_append.1 inLines with ended | last
  · obtain ⟨piece, before, rfl⟩ := List.mem_map.1 ended
    exact mem_of_mem_pieces (List.dropLast_subset _ before) (dropReturn_subset piece member)
  · split at last
    case isTrue => exact absurd last List.not_mem_nil
    case isFalse =>
      rw [List.mem_singleton.1 last, List.getLastD_eq_getLast?,
        List.getLast?_eq_some_getLast (pieces_ne_nil '\n' text)] at member
      exact mem_of_mem_pieces (List.getLast_mem _) member

end DocCatalog.Text
