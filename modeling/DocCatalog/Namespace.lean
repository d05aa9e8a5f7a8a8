import DocCatalog.Record
import DocCatalog.Text.Split

/-!
# Namespaces

A namespace holds entries under leaf names and child namespaces under segment names, apart from each
other, so one name can be both. Records that share a place form an overload group.
-/

namespace DocCatalog

/-- What stands under one name: a record, or the records that share the name. -/
inductive Entry where
  | single (record : Record)
  | overloads (records : List Record)
deriving DecidableEq, Repr

namespace Entry

def records : Entry → List Record
  | single record => [record]
  | overloads records => records

def isOverloaded : Entry → Bool
  | single _ => false
  | overloads _ => true

/-- Adds a record after the ones that are there. -/
def push (entry : Entry) (record : Record) : Entry :=
  overloads (entry.records ++ [record])

@[simp] theorem records_push (entry : Entry) (record : Record) :
    (entry.push record).records = entry.records ++ [record] := rfl

end Entry

structure Namespace where
  entries : List (String × Entry)
  children : List (String × Namespace)
deriving Repr

namespace Namespace

def empty : Namespace := ⟨[], []⟩

/-- Changes the namespace at a path; namespaces that are missing on the way are made. -/
def update (change : Namespace → Namespace) : List String → Namespace → Namespace
  | [], space => change space
  | segment :: path, space =>
    { space with
      children := Table.alter segment (fun child => update change path (child.getD empty))
        space.children }

/-- Makes the namespaces of a path that are missing. -/
def descend (path : List String) (space : Namespace) : Namespace :=
  update id path space

/-- Puts a record under a leaf name of this namespace, beside the records that are there. -/
def put (leaf : String) (record : Record) (space : Namespace) : Namespace :=
  { space with
    entries := Table.alter leaf
      (fun entry => (entry.map fun found => found.push record).getD (.single record))
      space.entries }

/-- Puts a record under a leaf name of the namespace at a path. -/
def insert (path : List String) (leaf : String) (record : Record) (space : Namespace) : Namespace :=
  update (put leaf record) path space

/-- The namespace at a path. -/
def get? : List String → Namespace → Option Namespace
  | [], space => some space
  | segment :: path, space => (Table.get? segment space.children).bind (get? path)

/-- The namespace at a dotted path; empty segments do not count. -/
def find? (path : String) (space : Namespace) : Option Namespace :=
  space.get? (Text.segments path)

/-- The entry with a qualified name. The part after the last dot is the leaf name as it stands. -/
def entry? (qualified : String) (space : Namespace) : Option Entry :=
  match Text.lastSplit? '.' qualified.toList with
  | some (path, leaf) =>
    (space.find? (String.ofList path)).bind fun found =>
      Table.get? (String.ofList leaf) found.entries
  | none => Table.get? qualified space.entries

mutual

/-- Whether no entry stands here or below. -/
def isEmpty : Namespace → Bool
  | ⟨entries, children⟩ => entries.isEmpty && areEmpty children

def areEmpty : List (String × Namespace) → Bool
  | [] => true
  | (_, child) :: rest => isEmpty child && areEmpty rest

end

mutual

/-- The records of this namespace, then those of its children, in the order of the names. -/
def records : Namespace → List Record
  | ⟨entries, children⟩ => (entries.flatMap fun entry => entry.2.records) ++ recordsBelow children

def recordsBelow : List (String × Namespace) → List Record
  | [] => []
  | (_, child) :: rest => records child ++ recordsBelow rest

end

/-- What holds of a namespace as soon as it holds of its children holds of every tree. -/
@[elab_as_elim]
theorem induct {holds : Namespace → Prop}
    (step : ∀ entries children, (∀ child ∈ children, holds child.2) → holds ⟨entries, children⟩)
    (space : Namespace) : holds space :=
  match space with
  | ⟨entries, children⟩ =>
    step entries children fun child member =>
      have := List.sizeOf_lt_of_mem member
      induct step child.2
termination_by sizeOf space
decreasing_by
  obtain ⟨segment, below⟩ := child
  simp only [Prod.mk.sizeOf_spec, mk.sizeOf_spec] at *
  omega

theorem areEmpty_eq_all (children : List (String × Namespace)) :
    areEmpty children = children.all fun child => child.2.isEmpty := by
  induction children with
  | nil => rfl
  | cons child rest ih => rw [areEmpty, ih]; rfl

theorem recordsBelow_eq_flatMap (children : List (String × Namespace)) :
    recordsBelow children = children.flatMap fun child => child.2.records := by
  induction children with
  | nil => rfl
  | cons child rest ih => rw [recordsBelow, ih]; rfl

end Namespace

end DocCatalog
