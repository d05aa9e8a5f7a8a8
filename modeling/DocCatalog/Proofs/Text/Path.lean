import Mathlib.Data.List.TakeWhile
import DocCatalog.Text.Split

/-!
# Dotted paths

A dotted path can be read in two ways: with every part between its dots (`literalPath`), or with the
empty parts left out (`segments`). Joining names with dots undoes the first reading
(`dotted_literalPath`), and is undone by it when the names are segments (`literalPath_dotted`). So a
path of segments and its dotted form say the same (`dotted_eq_iff`).

The segments of two paths with a dot between them are those of the first and then those of the
second (`segments_append_dot`); what is said of segments rests on this. Cutting at the last dot
splits a name without dots off the path before it (`lastSplit?_append`).
-/

namespace DocCatalog.Text

variable {α : Type} [DecidableEq α]

theorem pieces_eq_splitOn (separator : α) (text : List α) :
    pieces separator text = text.splitOn separator := by
  induction text with
  | nil => rfl
  | cons c rest ih =>
    rw [pieces, List.splitOn_cons_eq_if_modifyHead, ← ih]
    cases cut : pieces separator rest with
    | nil => exact absurd cut (pieces_ne_nil separator rest)
    | cons piece others => simp

theorem not_mem_of_mem_pieces {separator : α} {text piece : List α}
    (member : piece ∈ pieces separator text) : separator ∉ piece := by
  induction text generalizing piece with
  | nil =>
    rw [List.mem_singleton.1 member]
    exact List.not_mem_nil
  | cons c rest ih =>
    rw [pieces] at member
    split at member
    case h_1 none => exact absurd none (pieces_ne_nil separator rest)
    case h_2 first others cut =>
      rw [cut] at ih
      have firstPlain : separator ∉ first := ih List.mem_cons_self
      split at member
      case isTrue =>
        rcases List.mem_cons.1 member with rfl | later
        · exact List.not_mem_nil
        · exact ih later
      case isFalse differs =>
        rcases List.mem_cons.1 member with rfl | later
        · exact List.not_mem_cons_of_ne_of_not_mem (Ne.symm differs) firstPlain
        · exact ih (List.mem_cons_of_mem _ later)

/-- The parts between the dots of a path, the empty ones too. The empty path has none. -/
def literalPath (path : String) : List String :=
  if path = "" then [] else (pieces '.' path.toList).map String.ofList

/-- A name that can stand between two dots. -/
structure IsSegment (name : String) : Prop where
  nonempty : name ≠ ""
  dotless : '.' ∉ name.toList

theorem isSegment_of_mem_segments {path name : String} (member : name ∈ segments path) :
    IsSegment name := by
  obtain ⟨piece, kept, rfl⟩ := List.mem_map.1 member
  obtain ⟨inPieces, notNil⟩ := List.mem_filter.1 kept
  refine ⟨?_, ?_⟩
  · simpa using notNil
  · rw [String.toList_ofList]
    exact not_mem_of_mem_pieces inPieces

theorem toList_dotted (names : List String) :
    (dotted names).toList = ['.'].intercalate (names.map String.toList) :=
  String.toList_intercalate

theorem dotted_ne_empty {names : List String} (present : names ≠ [])
    (segments : ∀ name ∈ names, IsSegment name) : dotted names ≠ "" := by
  intro empty
  cases names with
  | nil => exact present rfl
  | cons name rest =>
    have first : name.toList ≠ [] := by
      intro nil
      exact (segments name List.mem_cons_self).nonempty (String.toList_eq_nil_iff.1 nil)
    have none : (dotted (name :: rest)).toList = [] := by rw [empty, String.toList_empty]
    rw [toList_dotted] at none
    cases rest with
    | nil => exact first (by simpa using none)
    | cons next more => exact first (by simp_all [List.intercalate_cons_cons])

theorem dotted_literalPath (path : String) : dotted (literalPath path) = path := by
  unfold literalPath
  split
  case isTrue empty => exact empty.symm
  case isFalse =>
    apply String.toList_inj.1
    rw [toList_dotted, List.map_map]
    have same : String.toList ∘ String.ofList = id := by
      funext text
      exact String.toList_ofList
    rw [same, List.map_id, pieces_eq_splitOn, List.intercalate_splitOn]

theorem literalPath_dotted {names : List String} (segments : ∀ name ∈ names, IsSegment name) :
    literalPath (dotted names) = names := by
  by_cases empty : names = []
  · subst empty
    rfl
  · rw [literalPath, if_neg (dotted_ne_empty empty segments), toList_dotted, pieces_eq_splitOn,
      List.splitOn_intercalate, List.map_map]
    · have same : String.ofList ∘ String.toList = id := by
        funext text
        exact String.ofList_toList
      rw [same, List.map_id]
    · intro part member
      obtain ⟨name, inNames, rfl⟩ := List.mem_map.1 member
      exact (segments name inNames).dotless
    · simpa using empty

theorem dotted_eq_iff {names : List String} (segments : ∀ name ∈ names, IsSegment name)
    (path : String) : dotted names = path ↔ names = literalPath path := by
  constructor
  · rintro rfl
    exact (literalPath_dotted segments).symm
  · rintro rfl
    exact dotted_literalPath path

/-! ## Segments -/

/-- A dot ends one path and starts another. -/
theorem segments_append_dot (first second : String) :
    segments (first ++ "." ++ second) = segments first ++ segments second := by
  have cut : (first ++ "." ++ second).toList = first.toList ++ '.' :: second.toList := by simp
  rw [segments, cut, pieces_eq_splitOn, List.splitOn_append_cons_self, List.filter_append,
    List.map_append, ← pieces_eq_splitOn, ← pieces_eq_splitOn]
  rfl

theorem segments_of_isSegment {name : String} (segment : IsSegment name) :
    segments name = [name] := by
  rw [segments, pieces_eq_splitOn, List.splitOn_eq_singleton segment.dotless]
  simp [segment.nonempty]

/-- Segments that were joined with dots are read back. -/
theorem segments_dotted {names : List String} (solid : ∀ name ∈ names, IsSegment name) :
    segments (dotted names) = names := by
  induction names with
  | nil => decide
  | cons name rest ih =>
    obtain ⟨first, others⟩ := List.forall_mem_cons.1 solid
    cases rest with
    | nil => simpa [dotted] using segments_of_isSegment first
    | cons next more =>
      have joins : dotted (name :: next :: more) = name ++ "." ++ dotted (next :: more) :=
        String.intercalate_cons_cons
      rw [joins, segments_append_dot, ih others, segments_of_isSegment first]
      rfl

theorem dotted_append_singleton {path : List String} (present : path ≠ []) (leaf : String) :
    dotted (path ++ [leaf]) = dotted path ++ "." ++ leaf := by
  rw [dotted, String.intercalate_append_of_ne_nil present (List.cons_ne_nil leaf []),
    String.intercalate_singleton, dotted]

/-! ## The last separator -/

theorem ne_of_mem {separator : α} {text : List α} (plain : separator ∉ text) :
    ∀ c ∈ text, decide (c ≠ separator) = true := by
  intro c member
  simp only [decide_eq_true_eq]
  rintro rfl
  exact plain member

theorem lastSplit?_eq_none {separator : α} {text : List α} (plain : separator ∉ text) :
    lastSplit? separator text = none := by
  have none : text.reverse.dropWhile (· ≠ separator) = [] :=
    List.dropWhile_eq_nil_iff.2 (ne_of_mem (mt List.mem_reverse.1 plain))
  rw [lastSplit?, none]

theorem lastSplit?_append {separator : α} {after : List α} (plain : separator ∉ after)
    (before : List α) :
    lastSplit? separator (before ++ separator :: after) = some (before, after) := by
  have reversed : (before ++ separator :: after).reverse =
      after.reverse ++ separator :: before.reverse := by simp
  have away := ne_of_mem (mt List.mem_reverse.1 plain)
  rw [lastSplit?, reversed, List.takeWhile_append_of_pos away, List.dropWhile_append_of_pos away]
  simp

end DocCatalog.Text
