import Mathlib.Data.List.Induction
import DocCatalog.Catalog

/-!
# The tree as a map from places to records

A place is a path of literal segments and a leaf name; segments may be anything here, also empty or
dotted. Storing a record at a place is seen at that place and nowhere else.

Results:
1. `Ordered.insert`: the tables of the tree stay in order at every level.
2. `entryAt?_insert_self`, `entryAt?_insert_of_ne`: what is read after one insertion.
3. `entryAt?_insertAll`: after any run of insertions, a place holds exactly the records that were
   inserted there, in their order; one record stands alone, more form an overload group.
-/

namespace DocCatalog

/-! ## Entries as lists of records -/

/-- The entry for the records of one place. -/
def Entry.ofRecords? : List Record → Option Entry
  | [] => none
  | [record] => some (.single record)
  | records => some (.overloads records)

theorem Entry.ofRecords?_append_singleton (records : List Record) (record : Record) :
    ofRecords? (records ++ [record]) =
      some (((ofRecords? records).map fun found => found.push record).getD (.single record)) := by
  match records with
  | [] => rfl
  | [_] => rfl
  | _ :: _ :: _ => rfl

theorem Entry.ofRecords?_eq_none_iff {records : List Record} :
    ofRecords? records = none ↔ records = [] := by
  match records with
  | [] => simp [ofRecords?]
  | [_] => simp [ofRecords?]
  | _ :: _ :: _ => simp [ofRecords?]

theorem Entry.records_of_ofRecords? {records : List Record} {entry : Entry}
    (found : ofRecords? records = some entry) : entry.records = records := by
  match records with
  | [] => simp [ofRecords?] at found
  | [record] =>
    obtain rfl : Entry.single record = entry := by simpa [ofRecords?] using found
    rfl
  | first :: second :: others =>
    obtain rfl : Entry.overloads (first :: second :: others) = entry := by
      simpa [ofRecords?] using found
    rfl

theorem Entry.isOverloaded_of_ofRecords? {records : List Record} {entry : Entry}
    (found : ofRecords? records = some entry) :
    entry.isOverloaded = true ↔ 2 ≤ records.length := by
  match records with
  | [] => simp [ofRecords?] at found
  | [record] =>
    obtain rfl : Entry.single record = entry := by simpa [ofRecords?] using found
    simp [isOverloaded]
  | first :: second :: others =>
    obtain rfl : Entry.overloads (first :: second :: others) = entry := by
      simpa [ofRecords?] using found
    simp [isOverloaded]

theorem Table.mem_of_get? {α : Type} {key : String} {value : α} {table : Table α}
    (found : get? key table = some value) : (key, value) ∈ table := by
  induction table with
  | nil => simp [get?] at found
  | cons pair rest ih =>
    rw [get?] at found
    split at found
    case isTrue equal =>
      simp only [Option.some.injEq] at found
      subst equal found
      exact List.mem_cons_self
    case isFalse => exact List.mem_cons_of_mem _ (ih found)

theorem Table.get?_of_mem {α : Type} {table : Table α} (ordered : Ordered table) {pair : String × α}
    (member : pair ∈ table) : get? pair.1 table = some pair.2 := by
  induction table with
  | nil => exact absurd member List.not_mem_nil
  | cons entry rest ih =>
    obtain ⟨below, restOrdered⟩ := List.pairwise_cons.1 ordered
    rcases List.mem_cons.1 member with rfl | inRest
    · exact if_pos rfl
    · have differs : entry.1 ≠ pair.1 := String.ne_of_lt (below pair inRest)
      rw [get?, if_neg differs]
      exact ih restOrdered inRest

/-- What holds of every entry, and of the changed one, holds of every entry of the changed table. -/
theorem Table.forall_mem_alter {α : Type} {holds : String × α → Prop} {key : String}
    {change : Option α → α} {table : Table α} (kept : ∀ pair ∈ table, holds pair)
    (fresh : holds (key, change none))
    (grown : ∀ value, (key, value) ∈ table → holds (key, change (some value))) :
    ∀ pair ∈ alter key change table, holds pair := by
  induction table with
  | nil => exact List.forall_mem_singleton.2 fresh
  | cons entry rest ih =>
    obtain ⟨other, value⟩ := entry
    obtain ⟨first, others⟩ := List.forall_mem_cons.1 kept
    rw [alter]
    split
    case isTrue equal =>
      subst equal
      exact List.forall_mem_cons.2 ⟨grown value List.mem_cons_self, others⟩
    case isFalse =>
      split
      · exact List.forall_mem_cons.2 ⟨fresh, kept⟩
      · have below : ∀ pair ∈ alter key change rest, holds pair :=
          ih others fun inner inside => grown inner (List.mem_cons_of_mem _ inside)
        exact List.forall_mem_cons.2 ⟨first, below⟩

/-! ## Placements -/

/-- A record and the place at which it is stored. -/
structure Placement where
  path : List String
  leaf : String
  record : Record
deriving DecidableEq, Repr

/-- The records that are stored at one place, in order. -/
def recordsAt (path : List String) (leaf : String) (placements : List Placement) : List Record :=
  (placements.filter fun placement => placement.path = path ∧ placement.leaf = leaf).map
    Placement.record

/-- Stores a record at its place. -/
def Catalog.place (catalog : Catalog) (placement : Placement) : Catalog :=
  catalog.add placement.path placement.leaf placement.record

namespace Namespace

def insertAll (placements : List Placement) (space : Namespace) : Namespace :=
  placements.foldl
    (fun space placement => space.insert placement.path placement.leaf placement.record) space

theorem insertAll_append_singleton (placements : List Placement) (placement : Placement)
    (space : Namespace) :
    insertAll (placements ++ [placement]) space =
      (insertAll placements space).insert placement.path placement.leaf placement.record := by
  simp [insertAll]

/-! ## Order at every level -/

/-- The tables of a namespace and of all namespaces below it are in order. -/
inductive Ordered : Namespace → Prop
  | intro {entries : List (String × Entry)} {children : List (String × Namespace)} :
      Table.Ordered entries → Table.Ordered children →
      (∀ pair ∈ children, Ordered pair.2) → Ordered ⟨entries, children⟩

theorem ordered_empty : Ordered empty :=
  .intro List.Pairwise.nil List.Pairwise.nil fun _ member => absurd member List.not_mem_nil

theorem Ordered.put {space : Namespace} (ordered : Ordered space) (leaf : String)
    (record : Record) : Ordered (put leaf record space) := by
  cases ordered with
  | intro entries children below => exact .intro (entries.alter _ _) children below

theorem Ordered.update {change : Namespace → Namespace}
    (keeps : ∀ space, Ordered space → Ordered (change space)) {space : Namespace}
    (ordered : Ordered space) (path : List String) : Ordered (update change path space) := by
  induction path generalizing space with
  | nil => exact keeps space ordered
  | cons segment path ih =>
    cases ordered with
    | intro entries children below =>
      -- A child of the changed table is an old one, one made from the empty one, or a changed one.
      exact .intro entries (children.alter _ _)
        (Table.forall_mem_alter below (ih ordered_empty) fun _ inside => ih (below _ inside))

theorem Ordered.insert {space : Namespace} (ordered : Ordered space) (path : List String)
    (leaf : String) (record : Record) : Ordered (space.insert path leaf record) :=
  ordered.update (fun _ inner => inner.put leaf record) path

theorem Ordered.entries {space : Namespace} (ordered : Ordered space) :
    Table.Ordered space.entries := by
  cases ordered with
  | intro entries _ _ => exact entries

theorem Ordered.children {space : Namespace} (ordered : Ordered space) :
    Table.Ordered space.children := by
  cases ordered with
  | intro _ children _ => exact children

theorem Ordered.child {space child : Namespace} (ordered : Ordered space) {segment : String}
    (found : Table.get? segment space.children = some child) : Ordered child := by
  cases ordered with
  | intro _ _ below => exact below _ (Table.mem_of_get? found)

theorem Ordered.get? {space inner : Namespace} (ordered : space.Ordered) {path : List String}
    (found : space.get? path = some inner) : inner.Ordered := by
  induction path generalizing space with
  | nil =>
    obtain rfl : space = inner := by simpa [Namespace.get?] using found
    exact ordered
  | cons segment path ih =>
    obtain ⟨child, isChild, below⟩ := Option.bind_eq_some_iff.1 found
    exact ih (ordered.child isChild) below

theorem ordered_insertAll (placements : List Placement) : Ordered (insertAll placements empty) := by
  induction placements using List.reverseRecOn with
  | nil => exact ordered_empty
  | append_singleton rest placement ih =>
    rw [insertAll_append_singleton]
    exact ih.insert _ _ _

/-! ## Reading a place -/

/-- The entry that is stored under a leaf name in the namespace at a path. -/
def entryAt? (path : List String) (leaf : String) (space : Namespace) : Option Entry :=
  (space.get? path).bind fun found => Table.get? leaf found.entries

theorem entryAt?_cons (segment : String) (path : List String) (leaf : String) (space : Namespace) :
    entryAt? (segment :: path) leaf space =
      (Table.get? segment space.children).bind (entryAt? path leaf) := by
  rw [entryAt?, get?, Option.bind_assoc]
  rfl

theorem entryAt?_empty (path : List String) (leaf : String) : entryAt? path leaf empty = none := by
  cases path with
  | nil => rfl
  | cons segment path => rw [entryAt?_cons]; rfl

/-- A child that is missing reads like one that is empty. -/
theorem entryAt?_getD (path : List String) (leaf : String) (child : Option Namespace) :
    entryAt? path leaf (child.getD empty) = child.bind (entryAt? path leaf) := by
  cases child with
  | none => exact entryAt?_empty path leaf
  | some found => rfl

theorem children_update_cons (change : Namespace → Namespace) (segment : String)
    (path : List String) (space : Namespace) :
    (update change (segment :: path) space).children =
      Table.alter segment (fun child => update change path (child.getD empty))
        space.children := rfl

theorem entryAt?_insert_self {space : Namespace} (ordered : Ordered space) (path : List String)
    (leaf : String) (record : Record) :
    entryAt? path leaf (space.insert path leaf record) =
      some (((entryAt? path leaf space).map fun found => found.push record).getD
        (.single record)) := by
  induction path generalizing space with
  | nil => exact Table.get?_alter_self leaf _ space.entries ordered.entries
  | cons segment path ih =>
    rw [entryAt?_cons, insert, children_update_cons,
      Table.get?_alter_self segment _ space.children ordered.children, Option.bind_some,
      entryAt?_cons, ← entryAt?_getD]
    cases found : Table.get? segment space.children with
    | none => exact ih ordered_empty
    | some child => exact ih (ordered.child found)

/-- A change at a path is seen at a place only if the change itself is seen there. -/
theorem entryAt?_update_of_kept {change : Namespace → Namespace} {path place : List String}
    {leaf : String} {space : Namespace} (ordered : Ordered space)
    (kept : ∀ below, place = path ++ below → ∀ inner, Ordered inner →
      entryAt? below leaf (change inner) = entryAt? below leaf inner) :
    entryAt? place leaf (update change path space) = entryAt? place leaf space := by
  induction path generalizing place space with
  | nil => exact kept place rfl space ordered
  | cons segment path ih =>
    cases place with
    | nil =>
      -- Only the children change here, and the place is read from the entries.
      rfl
    | cons first place =>
      rw [entryAt?_cons, entryAt?_cons, children_update_cons]
      by_cases same : first = segment
      · subst same
        have deeper : ∀ below, place = path ++ below → ∀ inner, Ordered inner →
            entryAt? below leaf (change inner) = entryAt? below leaf inner := by
          rintro below rfl
          exact kept below rfl
        rw [Table.get?_alter_self _ _ _ ordered.children, Option.bind_some, ← entryAt?_getD]
        cases found : Table.get? first space.children with
        | none => exact ih ordered_empty deeper
        | some child => exact ih (ordered.child found) deeper
      · rw [Table.get?_alter_of_ne same]

theorem entryAt?_insert_of_ne {space : Namespace} (ordered : Ordered space)
    {path otherPath : List String} {leaf otherLeaf : String} (record : Record)
    (differs : ¬ (path = otherPath ∧ leaf = otherLeaf)) :
    entryAt? otherPath otherLeaf (space.insert path leaf record) =
      entryAt? otherPath otherLeaf space := by
  refine entryAt?_update_of_kept ordered ?_
  rintro below rfl inner -
  cases below with
  | nil =>
    have otherName : otherLeaf ≠ leaf := by
      rintro rfl
      exact differs ⟨by simp, rfl⟩
    exact Table.get?_alter_of_ne otherName _ inner.entries
  | cons segment below =>
    -- Only the entries change here, and the other place is read through the children.
    rfl

/-- One more insertion adds its record at its own place, after the records that are there. -/
theorem entryAt?_insert {space : Namespace} (ordered : Ordered space) {path : List String}
    {leaf : String} {placements : List Placement} (placement : Placement)
    (read : entryAt? path leaf space = Entry.ofRecords? (recordsAt path leaf placements)) :
    entryAt? path leaf (space.insert placement.path placement.leaf placement.record) =
      Entry.ofRecords? (recordsAt path leaf (placements ++ [placement])) := by
  by_cases here : placement.path = path ∧ placement.leaf = leaf
  · have grown : recordsAt path leaf (placements ++ [placement]) =
        recordsAt path leaf placements ++ [placement.record] := by
      simp [recordsAt, here]
    obtain ⟨rfl, rfl⟩ := here
    rw [entryAt?_insert_self ordered, read, grown, Entry.ofRecords?_append_singleton]
  · have kept : recordsAt path leaf (placements ++ [placement]) =
        recordsAt path leaf placements := by
      simp [recordsAt, here]
    rw [entryAt?_insert_of_ne ordered _ here, read, kept]

/-- A place holds the records that were inserted there, in their order. -/
theorem entryAt?_insertAll (placements : List Placement) (path : List String) (leaf : String) :
    entryAt? path leaf (insertAll placements empty) =
      Entry.ofRecords? (recordsAt path leaf placements) := by
  induction placements using List.reverseRecOn with
  | nil => exact entryAt?_empty path leaf
  | append_singleton rest placement ih =>
    rw [insertAll_append_singleton]
    exact entryAt?_insert (ordered_insertAll rest) placement ih

end Namespace

end DocCatalog
