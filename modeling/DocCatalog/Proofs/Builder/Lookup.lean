import DocCatalog.Proofs.Builder.Layouts
import DocCatalog.Proofs.Namespace.Filing

/-!
# What a tree builder stores is found under its name

A builder resolves the place of a record from two strings of any shape and writes the resolved name
and namespace into the record. So after every run of events the tree is filed, and dotted look-up
leads to every record in it.

Results:
1. `filed_insertAll`: records that are stored where they belong make a filed tree.
2. `filed_and_found`: the tree of a run is filed, is empty exactly when it has no records, and has
   every record under its qualified name.
-/

namespace DocCatalog

theorem Namespace.filed_insertAll {placements : List Placement}
    (resolved : ∀ placement ∈ placements, placement.Resolved) :
    (insertAll placements empty).Filed [] := by
  -- The last placement is stored last, so the list is extended at its end.
  induction placements using List.reverseRecOn with
  | nil => exact filed_empty []
  | append_singleton rest placement ih =>
    obtain ⟨before, last⟩ := List.forall_mem_append.1 resolved
    obtain ⟨name, scope, path, leaf⟩ := last placement List.mem_cons_self
    rw [insertAll_append_singleton]
    exact (ih before).insert path leaf ⟨name, scope⟩

namespace Builder

/-- After every run the tree is filed: all names in it are segments, every record carries the name
and the namespace under which it stands, overload groups have at least two records, and no namespace
below the root is without records. So the catalog counts as empty exactly when it has no records,
and every record is found by its qualified name and by its namespace. -/
theorem filed_and_found (events : List Event) :
    ∃ root, ((start .tree).run events).finish = .tree root ∧
      root.Filed [] ∧
      ((Catalog.tree root).isEmpty = true ↔ (Catalog.tree root).size = 0) ∧
      ∀ record ∈ root.records, root.Finds record := by
  let placements := (start .tree).placements events
  have resolved : ∀ placement ∈ placements, placement.Resolved :=
    fun _ member => resolved_of_mem_placements member
  have filed : (Namespace.empty.insertAll placements).Filed [] :=
    Namespace.filed_insertAll resolved
  have ordered : (Namespace.empty.insertAll placements).Ordered :=
    Namespace.ordered_insertAll placements
  refine ⟨Namespace.empty.insertAll placements, finish_tree events, filed, ?_,
    fun _ member => filed.finds ordered member⟩
  rw [Catalog.isEmpty, filed.isEmpty_iff, Catalog.size, List.length_eq_zero_iff, Catalog.records]

end Builder

end DocCatalog
