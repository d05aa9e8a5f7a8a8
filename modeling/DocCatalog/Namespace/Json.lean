import DocCatalog.Catalog
import DocCatalog.Record.Json

/-!
# Catalogs as JSON

A namespace is an object with its entries and its children side by side, by name. Under a name that
is both a record and a namespace, the members of the namespace are merged into the object of the
record, whose own members win; all objects within the merged one are sorted by key. An overload
group hides the namespace of the same name.
-/

namespace DocCatalog

namespace Json

mutual

/-- Sorts the members of every object by key; of two members with one key the last one counts. -/
def sortKeys : Json → Json
  | array items => array (sortItems items)
  | object members => object (sortMembers members)
  | null => null
  | boolean value => boolean value
  | number text => number text
  | string text => string text
  | unpaired => unpaired

def sortItems : List Json → List Json
  | [] => []
  | item :: rest => sortKeys item :: sortItems rest

def sortMembers : List (String × Json) → Table Json
  | [] => []
  | (key, value) :: rest =>
    Table.alter key (fun later => later.getD (sortKeys value)) (sortMembers rest)

end

/-- Adds the members of another table whose keys are free. -/
def mergeMembers (own : Table Json) : List (String × Json) → Table Json
  | [] => own
  | (key, value) :: rest =>
    mergeMembers (Table.alter key (fun found => found.getD value) own) rest

end Json

namespace Namespace

/-- A record with the members of the namespace of the same name. -/
def mergedJson (record : Record) (members : List (String × Json)) : Json :=
  .object (Json.mergeMembers (Json.sortMembers record.members) (Json.sortMembers members))

/-- What is written under a name that holds an entry, a namespace, or both. -/
def slotJson : Option Entry → Option (List (String × Json)) → Json
  | some (.single record), some members => mergedJson record members
  | some entry, _ => entry.toJson
  | none, some members => .object members
  | none, none => .null

mutual

/-- The members of a namespace in ascending order of the names. -/
def members : Namespace → List (String × Json)
  | ⟨entries, children⟩ =>
    let below := childMembers children
    (Table.unionKeys entries below).map fun key =>
      (key, slotJson (Table.get? key entries) (Table.get? key below))

def childMembers : List (String × Namespace) → Table (List (String × Json))
  | [] => []
  | (key, child) :: rest => (key, members child) :: childMembers rest

end

def toJson (space : Namespace) : Json :=
  .object space.members

theorem childMembers_eq_map (children : List (String × Namespace)) :
    childMembers children = children.map fun child => (child.1, child.2.members) := by
  induction children with
  | nil => rfl
  | cons child rest ih => rw [childMembers, ih]; rfl

end Namespace

/-- A tree is the object of its root, a list the array of its records. -/
def Catalog.toJson : Catalog → Json
  | .tree root => root.toJson
  | .flat records => .array (records.map Record.toJson)

end DocCatalog
