import Mathlib.Data.List.Basic
import DocCatalog.Outline
import DocCatalog.Proofs.Namespace.Conservation

/-!
# The items of an outline

The items of a namespace are those of its entries and then, child by child, a header and the items
of the child (`spaceItems_eq`). The outline and the list of records walk a tree separately, but in
the same order: the records of the items are the records of the catalog (`records_items`).
-/

namespace DocCatalog.Outline

/-- The record that an item shows. -/
def Item.record? : Item → Option Record
  | record _ _ shown => some shown
  | scope .. | overloads .. => none

/-- How many levels an item is indented. -/
def Item.depth : Item → Nat
  | scope depth _ | overloads depth .. | record depth .. => depth

theorem childItems_eq_flatMap (depth : Nat) (path : String) (children : List (String × Namespace)) :
    childItems depth path children = children.flatMap fun child =>
      .scope depth (childPath path child.1) ::
        spaceItems (depth + 1) (childPath path child.1) child.2 := by
  induction children with
  | nil => rfl
  | cons child rest ih => rw [childItems, ih, List.flatMap_cons]

theorem spaceItems_eq (depth : Nat) (path : String) (entries : List (String × Entry))
    (children : List (String × Namespace)) :
    spaceItems depth path ⟨entries, children⟩ =
      (entries.flatMap fun entry => entryItems depth entry.1 entry.2) ++
        children.flatMap fun child =>
          .scope depth (childPath path child.1) ::
            spaceItems (depth + 1) (childPath path child.1) child.2 := by
  rw [spaceItems, childItems_eq_flatMap]

/-! ## Records -/

theorem filterMap_record?_map (depth : Nat) (title : Record → String) (records : List Record) :
    (records.map fun record => Item.record depth (title record) record).filterMap Item.record? =
      records := by
  rw [List.filterMap_map]
  exact List.filterMap_some

theorem filterMap_record?_entryItems (depth : Nat) (name : String) (entry : Entry) :
    (entryItems depth name entry).filterMap Item.record? = entry.records := by
  cases entry with
  | single record => rfl
  | overloads records => exact filterMap_record?_map (depth + 1) (·.name.getD "") records

theorem filterMap_record?_spaceItems (space : Namespace) (depth : Nat) (path : String) :
    (spaceItems depth path space).filterMap Item.record? = space.records := by
  induction space using Namespace.induct generalizing depth path with
  | step entries children ih =>
    rw [spaceItems_eq, Namespace.records_eq, List.filterMap_append, List.filterMap_flatMap,
      List.filterMap_flatMap]
    congr 1
    · exact congrArg (entries.flatMap ·)
        (funext fun entry => filterMap_record?_entryItems depth entry.1 entry.2)
    · exact List.flatMap_congr fun child member => ih child member _ _

/-- The records of the items are those of the catalog, each once and in order. -/
theorem records_items (catalog : Catalog) :
    (items catalog).filterMap Item.record? = catalog.records := by
  cases catalog with
  | tree root => exact filterMap_record?_spaceItems root 0 ""
  | flat records => exact filterMap_record?_map 0 (·.qualifiedName.getD "") records

end DocCatalog.Outline
