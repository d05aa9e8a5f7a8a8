import DocCatalog.Proofs.Namespace.Conservation
import DocCatalog.Proofs.Namespace.Placement
import DocCatalog.Proofs.Text.Path

/-!
# Every record stands where it says it stands

A record carries its name and the dotted path of its namespace. A tree is filed when the place of
every record agrees with what the record says, when all names in the tree are segments, and when
nothing in it is empty. Storing a record at the place that it names keeps a tree filed, also along a
path of namespaces that are made on the way.

In a filed tree the qualified name of a record leads back to it, although names are written with
dots and read by cutting at dots.

Results:
1. `Filed.insert`: what one stored record preserves.
2. `Filed.isEmpty_iff`: a filed tree is empty exactly when it has no records.
3. `entry?_dotted`, `find?_dotted`: dotted look-up follows the literal path.
4. `Filed.finds`: every record of a filed tree is found by its qualified name and its namespace.
-/

namespace DocCatalog

/-- The record names itself as the one under a leaf name at a path. -/
structure Record.FiledAt (path : List String) (leaf : String) (record : Record) : Prop where
  name : record.name = some leaf
  scope : record.scope = Text.dotted path

/-- The entry has records, all of them belong where it stands, and a group has more than one. -/
structure Entry.FiledAt (path : List String) (leaf : String) (entry : Entry) : Prop where
  segment : Text.IsSegment leaf
  records : ∀ record ∈ entry.records, record.FiledAt path leaf
  present : entry.records ≠ []
  group : entry.isOverloaded = true → 2 ≤ entry.records.length

namespace Namespace

/-- The tree at a path: its entries are filed under their names, its children have segments for
names and records in them or below them, and they are filed themselves. -/
inductive Filed : List String → Namespace → Prop
  | intro {path : List String} {entries : List (String × Entry)}
      {children : List (String × Namespace)} :
      (∀ pair ∈ entries, pair.2.FiledAt path pair.1) →
      (∀ pair ∈ children, Text.IsSegment pair.1) →
      (∀ pair ∈ children, pair.2.records ≠ []) →
      (∀ pair ∈ children, Filed (path ++ [pair.1]) pair.2) →
      Filed path ⟨entries, children⟩

/-- The records that stand in this namespace and not below it. -/
def ownRecords (space : Namespace) : List Record :=
  space.entries.flatMap fun entry => entry.2.records

end Namespace

theorem Record.FiledAt.qualifiedName {path : List String} {leaf : String} {record : Record}
    (own : record.FiledAt path leaf) (names : ∀ segment ∈ path, Text.IsSegment segment) :
    record.qualifiedName = some (Text.dotted (path ++ [leaf])) := by
  rw [Record.qualifiedName, own.name, own.scope, Option.map_some]
  by_cases root : path = []
  · subst root
    simp [Text.dotted]
  · rw [if_neg (Text.dotted_ne_empty root names), Text.dotted_append_singleton root]

/-! ## Storing a record -/

theorem Entry.FiledAt.single {path : List String} {leaf : String} {record : Record}
    (segment : Text.IsSegment leaf) (filed : record.FiledAt path leaf) :
    (Entry.single record).FiledAt path leaf where
  segment := segment
  records := List.forall_mem_singleton.2 filed
  present := List.cons_ne_nil record []
  group overloaded := by cases overloaded

theorem Entry.FiledAt.push {path : List String} {leaf : String} {entry : Entry} {record : Record}
    (standing : entry.FiledAt path leaf) (filed : record.FiledAt path leaf) :
    (entry.push record).FiledAt path leaf where
  segment := standing.segment
  records := List.forall_mem_append.2 ⟨standing.records, List.forall_mem_singleton.2 filed⟩
  present := by simp
  group _ := by
    have one : 0 < entry.records.length := List.length_pos_iff.2 standing.present
    rw [records_push, List.length_append, List.length_singleton]
    omega

namespace Namespace

theorem filed_empty (path : List String) : Filed path empty :=
  .intro (fun _ member => absurd member List.not_mem_nil)
    (fun _ member => absurd member List.not_mem_nil)
    (fun _ member => absurd member List.not_mem_nil)
    (fun _ member => absurd member List.not_mem_nil)

variable {here path : List String} {leaf : String} {record : Record} {space : Namespace}

theorem Filed.put (filed : Filed here space) (segment : Text.IsSegment leaf)
    (own : record.FiledAt here leaf) : Filed here (put leaf record space) := by
  cases filed with
  | @intro _ table children entries names filled below =>
    have changed : ∀ pair ∈ (Namespace.put leaf record ⟨table, children⟩).entries,
        pair.2.FiledAt here pair.1 :=
      Table.forall_mem_alter entries (Entry.FiledAt.single segment own)
        fun _ inside => (entries _ inside).push own
    exact .intro changed names filled below

theorem records_insert_ne_nil (path : List String) (leaf : String) (record : Record)
    (space : Namespace) : (space.insert path leaf record).records ≠ [] := by
  intro none
  have stored := records_insert path leaf record space
  rw [none] at stored
  exact absurd stored.nil_eq (by simp)

/-- A record that is stored where it belongs leaves the tree filed. -/
theorem Filed.insert (filed : Filed here space) (names : ∀ segment ∈ path, Text.IsSegment segment)
    (last : Text.IsSegment leaf) (own : record.FiledAt (here ++ path) leaf) :
    Filed here (space.insert path leaf record) := by
  induction path generalizing here space with
  | nil => exact filed.put last (by simpa using own)
  | cons segment path ih =>
    obtain ⟨first, others⟩ := List.forall_mem_cons.1 names
    have inner : record.FiledAt ((here ++ [segment]) ++ path) leaf := by simpa using own
    cases filed with
    | intro entries segments filled below =>
      -- The child on the path is an old one or is made now, and it holds the record afterwards.
      refine .intro entries ?_ ?_ ?_
      · exact Table.forall_mem_alter segments first fun _ _ => first
      · exact Table.forall_mem_alter filled (records_insert_ne_nil path leaf record empty)
          fun child _ => records_insert_ne_nil path leaf record child
      · exact Table.forall_mem_alter below (ih (filed_empty _) others inner)
          fun child inside => ih (below _ inside) others inner

/-! ## Emptiness -/

/-- A filed tree counts as empty exactly when it has no records. -/
theorem Filed.isEmpty_iff (filed : Filed here space) :
    space.isEmpty = true ↔ space.records = [] := by
  induction filed with
  | @intro path entries children standing _ filled _ ih =>
    have noEntry : entries = [] ↔ entries.flatMap (fun entry => entry.2.records) = [] := by
      refine ⟨fun none => by rw [none]; rfl, fun none => ?_⟩
      refine List.eq_nil_iff_forall_not_mem.2 fun entry member => ?_
      exact (standing entry member).present (List.flatMap_eq_nil_iff.1 none entry member)
    rw [isEmpty, areEmpty_eq_all, records_eq]
    simp only [Bool.and_eq_true, List.isEmpty_iff, List.all_eq_true, List.append_eq_nil_iff,
      List.flatMap_eq_nil_iff]
    rw [noEntry, List.flatMap_eq_nil_iff]
    exact and_congr_right fun _ => forall₂_congr fun child member => ih child member

/-! ## Reading a place -/

theorem Filed.get? {found : Namespace} (filed : Filed here space)
    (reached : space.get? path = some found) :
    Filed (here ++ path) found ∧ ∀ segment ∈ path, Text.IsSegment segment := by
  induction path generalizing here space with
  | nil =>
    obtain rfl : space = found := by simpa [Namespace.get?] using reached
    exact ⟨by simpa using filed, by simp⟩
  | cons segment path ih =>
    obtain ⟨child, inside, deeper⟩ := Option.bind_eq_some_iff.1 reached
    have member := Table.mem_of_get? inside
    cases filed with
    | intro _ segments _ below =>
      obtain ⟨last, names⟩ := ih (below _ member) deeper
      exact ⟨by simpa using last, List.forall_mem_cons.2 ⟨segments _ member, names⟩⟩

theorem Filed.entry (filed : Filed here space) {pair : String × Entry}
    (member : pair ∈ space.entries) : pair.2.FiledAt here pair.1 := by
  cases filed with
  | intro entries _ _ _ => exact entries pair member

theorem Filed.own (filed : Filed here space) (member : record ∈ space.ownRecords) :
    record.scope = Text.dotted here := by
  obtain ⟨pair, inEntries, inside⟩ := List.mem_flatMap.1 member
  exact ((filed.entry inEntries).records record inside).scope

/-- Every record of a tree stands at some place of it. -/
theorem exists_place_of_mem_records (ordered : Ordered space) (member : record ∈ space.records) :
    ∃ path found leaf entry, space.get? path = some found ∧
      Table.get? leaf found.entries = some entry ∧ record ∈ entry.records := by
  induction ordered with
  | @intro entries children orderedEntries orderedChildren _ ih =>
    rw [records_eq] at member
    rcases List.mem_append.1 member with here | below
    · obtain ⟨pair, inEntries, inside⟩ := List.mem_flatMap.1 here
      exact ⟨[], ⟨entries, children⟩, pair.1, pair.2, rfl,
        Table.get?_of_mem orderedEntries inEntries, inside⟩
    · obtain ⟨pair, inChildren, inside⟩ := List.mem_flatMap.1 below
      obtain ⟨path, found, leaf, entry, reached, standing, held⟩ := ih pair inChildren inside
      refine ⟨pair.1 :: path, found, leaf, entry, ?_, standing, held⟩
      rw [Namespace.get?, Table.get?_of_mem orderedChildren inChildren]
      exact reached

/-! ## Dotted look-up -/

theorem find?_dotted (names : ∀ segment ∈ path, Text.IsSegment segment) (space : Namespace) :
    space.find? (Text.dotted path) = space.get? path := by
  rw [find?, Text.segments_dotted names]

/-- The qualified name of a place leads to it. -/
theorem entry?_dotted (names : ∀ segment ∈ path, Text.IsSegment segment)
    (last : Text.IsSegment leaf) (space : Namespace) :
    Namespace.entry? (Text.dotted (path ++ [leaf])) space = entryAt? path leaf space := by
  by_cases root : path = []
  · subst root
    have alone : Text.dotted ([] ++ [leaf]) = leaf := by simp [Text.dotted]
    rw [alone, entry?, Text.lastSplit?_eq_none last.dotless]
    rfl
  · have cut : (Text.dotted (path ++ [leaf])).toList =
        (Text.dotted path).toList ++ '.' :: leaf.toList := by
      rw [Text.dotted_append_singleton root]
      simp
    unfold entry?
    rw [cut, Text.lastSplit?_append last.dotless]
    simp only [String.ofList_toList]
    rw [find?_dotted names, entryAt?]

/-- What dotted look-up from a root says of a record. By its qualified name it finds the record,
with no record of another name beside it; by its namespace the one container that holds it. -/
structure Finds (root : Namespace) (record : Record) : Prop where
  byName : ∃ qualified entry, record.qualifiedName = some qualified ∧
    Namespace.entry? qualified root = some entry ∧ record ∈ entry.records ∧
    ∀ other ∈ entry.records, other.qualifiedName = some qualified
  byScope : ∃ space, root.find? record.scope = some space ∧ record ∈ space.ownRecords ∧
    ∀ path other, root.get? path = some other → record ∈ other.ownRecords → other = space

theorem Filed.finds {root : Namespace} (filed : Filed [] root) (ordered : Ordered root)
    (member : record ∈ root.records) : root.Finds record := by
  obtain ⟨path, space, leaf, entry, reached, inSpace, held⟩ :=
    exists_place_of_mem_records ordered member
  obtain ⟨there, names⟩ := filed.get? reached
  have standing : entry.FiledAt path leaf := there.entry (Table.mem_of_get? inSpace)
  have own : record.FiledAt path leaf := standing.records record held
  refine ⟨⟨Text.dotted (path ++ [leaf]), entry, own.qualifiedName names, ?_, held,
    fun other inEntry => (standing.records other inEntry).qualifiedName names⟩,
    ⟨space, ?_, ?_, fun otherPath other otherReached otherHeld => ?_⟩⟩
  · rw [entry?_dotted names standing.segment, entryAt?, reached]
    exact inSpace
  · rw [own.scope, find?_dotted names, reached]
  · exact List.mem_flatMap.2 ⟨(leaf, entry), Table.mem_of_get? inSpace, held⟩
  · -- The container of the other path would give the record another namespace.
    obtain ⟨otherFiled, otherNames⟩ := filed.get? otherReached
    have otherScope : record.scope = Text.dotted otherPath := otherFiled.own otherHeld
    have same : Text.dotted otherPath = Text.dotted path := otherScope.symm.trans own.scope
    rw [← find?_dotted otherNames, same, find?_dotted names, reached] at otherReached
    exact (Option.some.inj otherReached).symm

end Namespace

end DocCatalog
