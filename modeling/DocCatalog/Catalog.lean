import DocCatalog.Namespace

/-!
# Catalogs

A catalog holds the records of one run over the sources: as a tree of namespaces, or as a list.
-/

namespace DocCatalog

inductive Layout where
  /-- Namespaces within namespaces, with overload groups. -/
  | tree
  /-- A list in the order of the sort keys. -/
  | flat
deriving DecidableEq, Repr

def Layout.name : Layout → String
  | .tree => "tree"
  | .flat => "flat"

def Layout.ofName? (name : String) : Option Layout :=
  [tree, flat].find? fun layout => layout.name == name

inductive Catalog where
  | tree (root : Namespace)
  | flat (records : List Record)
deriving Repr

namespace Catalog

def empty : Layout → Catalog
  | .tree => tree Namespace.empty
  | .flat => flat []

def records : Catalog → List Record
  | tree root => root.records
  | flat records => records

/-- The number of records. -/
def size (catalog : Catalog) : Nat :=
  catalog.records.length

/-- Whether there is neither an entry in the tree nor a record in the list. -/
def isEmpty : Catalog → Bool
  | tree root => root.isEmpty
  | flat records => records.isEmpty

/-- Stores a record at its path and leaf name. A list keeps the order of arrival. -/
def add (path : List String) (leaf : String) (record : Record) : Catalog → Catalog
  | tree root => tree (root.insert path leaf record)
  | flat records => flat (records ++ [record])

/-- Puts a list in the order of the sort keys; records with one key stay in the order of arrival. -/
def sorted : Catalog → Catalog
  | tree root => tree root
  | flat records =>
    flat (records.mergeSort fun first second => decide (first.sortKey ≤ second.sortKey))

end Catalog

end DocCatalog
