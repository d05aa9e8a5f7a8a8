import DocCatalog.Catalog

/-!
# Storing keeps every record

Putting one record into a tree or a list adds that record and leaves all others where they are, up
to the order in which they are told (`records_insert`, `records_add`). Sorting only changes the
order (`records_sorted`).
-/

namespace DocCatalog

theorem perm_append_last {β : Type} (first added rest : List β) :
    ((first ++ added) ++ rest).Perm ((first ++ rest) ++ added) := by
  rw [List.append_assoc, List.append_assoc]
  exact List.perm_append_comm.append_left first

/-- Changing the value under one key adds what the change adds to that value. -/
theorem Table.flatMap_alter {α β : Type} {content : α → List β} {change : Option α → α}
    {added : List β} (fresh : (content (change none)).Perm added)
    (grown : ∀ value, (content (change (some value))).Perm (content value ++ added))
    (key : String) (table : Table α) :
    ((alter key change table).flatMap fun entry => content entry.2).Perm
      ((table.flatMap fun entry => content entry.2) ++ added) := by
  induction table with
  | nil => simpa [alter] using fresh
  | cons entry rest ih =>
    obtain ⟨other, value⟩ := entry
    rw [alter]
    split
    case isTrue =>
      simp only [List.flatMap_cons]
      exact ((grown value).append_right _).trans (perm_append_last _ _ _)
    case isFalse =>
      -- The key is missing: it goes in front of the first larger one, or further down.
      split
      · simp only [List.flatMap_cons]
        exact (fresh.append_right _).trans List.perm_append_comm
      · simp only [List.flatMap_cons, List.append_assoc]
        exact ih.append_left _

namespace Namespace

theorem records_eq (space : Namespace) :
    space.records =
      (space.entries.flatMap fun entry => entry.2.records) ++
        space.children.flatMap fun child => child.2.records := by
  cases space with
  | mk entries children => rw [records, recordsBelow_eq_flatMap]

@[simp] theorem records_empty : empty.records = [] := by
  rw [records_eq]
  rfl

theorem records_put (leaf : String) (record : Record) (space : Namespace) :
    (put leaf record space).records.Perm (space.records ++ [record]) := by
  have entries : ((put leaf record space).entries.flatMap fun entry => entry.2.records).Perm
      ((space.entries.flatMap fun entry => entry.2.records) ++ [record]) :=
    Table.flatMap_alter (List.Perm.refl _) (fun _ => List.Perm.refl _) leaf space.entries
  rw [records_eq, records_eq]
  exact (entries.append_right _).trans (perm_append_last _ _ _)

/-- What a change adds to a namespace it adds to every namespace above. -/
theorem records_update {change : Namespace → Namespace} {added : List Record}
    (adds : ∀ space, (change space).records.Perm (space.records ++ added))
    (path : List String) (space : Namespace) :
    (update change path space).records.Perm (space.records ++ added) := by
  induction path generalizing space with
  | nil => exact adds space
  | cons segment path ih =>
    have fresh : (update change path empty).records.Perm added := by simpa using ih empty
    have children : ((update change (segment :: path) space).children.flatMap
          fun child => child.2.records).Perm
        ((space.children.flatMap fun child => child.2.records) ++ added) :=
      Table.flatMap_alter fresh (fun child => ih child) segment space.children
    rw [records_eq, records_eq, List.append_assoc]
    exact children.append_left _

theorem records_insert (path : List String) (leaf : String) (record : Record)
    (space : Namespace) :
    (space.insert path leaf record).records.Perm (space.records ++ [record]) :=
  records_update (records_put leaf record) path space

end Namespace

namespace Catalog

theorem records_add (path : List String) (leaf : String) (record : Record) (catalog : Catalog) :
    (catalog.add path leaf record).records.Perm (catalog.records ++ [record]) := by
  cases catalog with
  | tree root => exact Namespace.records_insert path leaf record root
  | flat records => exact List.Perm.refl _

theorem records_sorted (catalog : Catalog) : catalog.sorted.records.Perm catalog.records := by
  cases catalog with
  | tree root => exact List.Perm.refl _
  | flat records => exact List.mergeSort_perm records _

theorem size_sorted (catalog : Catalog) : catalog.sorted.size = catalog.size :=
  (records_sorted catalog).length_eq

theorem size_empty (layout : Layout) : (empty layout).size = 0 := by
  cases layout with
  | tree => simp [empty, size, records]
  | flat => rfl

end Catalog

end DocCatalog
