import DocCatalog.Proofs.Namespace.Conservation
import DocCatalog.Proofs.Namespace.Placement

/-!
# Trees that are built by calls

A call makes the namespaces of a path that are missing, and may store a record in the last one. After
any run of calls the tree is the map that the calls describe: a place holds the records that were
stored there, and a namespace stands at the paths that were used and at what is in front of them.

Results:
1. `isSome_get?_update`: where namespaces stand after one call.
2. `entryAt?_descend`: making namespaces is not seen at any place.
3. `Ordered.isEmpty_iff`: a tree counts as empty exactly when no place holds a record.
4. `calls_make_map`: the tree after a run of calls.
-/

namespace DocCatalog

namespace Namespace

/-- What is asked of a tree that is being built. -/
inductive Call where
  /-- Makes the namespaces of a path that are missing. -/
  | descend (path : List String)
  /-- Stores a record; the namespaces of its path are made as well. -/
  | insert (placement : Placement)
deriving DecidableEq, Repr

namespace Call

def path : Call → List String
  | descend path => path
  | insert placement => placement.path

def placement? : Call → Option Placement
  | descend _ => none
  | insert placement => some placement

def apply : Call → Namespace → Namespace
  | descend path, space => space.descend path
  | insert placement, space => space.insert placement.path placement.leaf placement.record

/-- The call stores a record at the place. -/
def WritesTo (call : Call) (path : List String) (leaf : String) : Prop :=
  ∃ record, call = insert ⟨path, leaf, record⟩

end Call

/-- The tree after a run of calls. -/
def ofCalls (calls : List Call) : Namespace :=
  calls.foldl (fun space call => call.apply space) empty

/-- What a run of calls stores, in order. -/
def insertions (calls : List Call) : List Placement :=
  calls.filterMap Call.placement?

theorem ofCalls_append_singleton (calls : List Call) (call : Call) :
    ofCalls (calls ++ [call]) = call.apply (ofCalls calls) :=
  List.foldl_append

theorem insertions_append_singleton (calls : List Call) (call : Call) :
    insertions (calls ++ [call]) = insertions calls ++ call.placement?.toList := by
  unfold insertions
  rw [List.filterMap_append]
  cases call <;> rfl

/-! ## One call -/

theorem Ordered.apply {space : Namespace} (ordered : space.Ordered) (call : Call) :
    (call.apply space).Ordered := by
  cases call with
  | descend path => exact ordered.update (fun _ inner => inner) path
  | insert placement => exact ordered.insert _ _ _

theorem entryAt?_descend {space : Namespace} (ordered : space.Ordered) (made place : List String)
    (leaf : String) : (space.descend made).entryAt? place leaf = space.entryAt? place leaf :=
  entryAt?_update_of_kept ordered fun _ _ _ _ => rfl

theorem entryAt?_apply_of_not_writesTo {space : Namespace} (ordered : space.Ordered) {call : Call}
    {place : List String} {leaf : String} (elsewhere : ¬ call.WritesTo place leaf) :
    (call.apply space).entryAt? place leaf = space.entryAt? place leaf := by
  cases call with
  | descend made => exact entryAt?_descend ordered made place leaf
  | insert placement =>
    refine entryAt?_insert_of_ne ordered placement.record ?_
    rintro ⟨rfl, rfl⟩
    exact elsewhere ⟨placement.record, rfl⟩

theorem isSome_get?_empty {wanted : List String} : (empty.get? wanted).isSome ↔ wanted = [] := by
  cases wanted with
  | nil => exact iff_of_true rfl rfl
  | cons segment wanted => simp [get?, empty, Table.get?]

/-- A change at a path makes the namespaces up to it, if the change itself makes none. -/
theorem isSome_get?_update {change : Namespace → Namespace}
    (flat : ∀ inner, (change inner).children = inner.children) {space : Namespace}
    (ordered : space.Ordered) (path wanted : List String) :
    ((update change path space).get? wanted).isSome ↔
      (space.get? wanted).isSome ∨ wanted <+: path := by
  induction path generalizing space wanted with
  | nil =>
    cases wanted with
    | nil => simp [get?]
    | cons segment wanted => simp [update, get?, flat]
  | cons segment path ih =>
    cases wanted with
    | nil => simp [get?]
    | cons first wanted =>
      rw [get?, get?, children_update_cons]
      by_cases same : first = segment
      · subst same
        rw [Table.get?_alter_self _ _ _ ordered.children, Option.bind_some]
        cases found : Table.get? first space.children with
        | none =>
          have made := ih ordered_empty wanted
          rw [isSome_get?_empty] at made
          -- The namespaces from here on are new, so nothing but the path itself is reached.
          have front : wanted = [] ∨ wanted <+: path ↔ wanted <+: path :=
            or_iff_right_of_imp fun root => root ▸ List.nil_prefix
          simpa [front] using made
        | some child => simpa using ih (ordered.child found) wanted
      · rw [Table.get?_alter_of_ne same]
        simp [same]

theorem isSome_get?_apply {space : Namespace} (ordered : space.Ordered) (call : Call)
    (wanted : List String) :
    ((call.apply space).get? wanted).isSome ↔ (space.get? wanted).isSome ∨ wanted <+: call.path := by
  cases call with
  | descend path => exact isSome_get?_update (fun _ => rfl) ordered path wanted
  | insert placement =>
    have flat : ∀ inner, (put placement.leaf placement.record inner).children = inner.children :=
      fun _ => rfl
    exact isSome_get?_update flat ordered placement.path wanted

theorem records_apply (call : Call) (space : Namespace) :
    (call.apply space).records.Perm
      (space.records ++ call.placement?.toList.map Placement.record) := by
  cases call with
  | descend path =>
    have nothing : ∀ inner : Namespace, (id inner).records.Perm (inner.records ++ []) := by
      intro inner
      rw [List.append_nil]
      exact List.Perm.refl inner.records
    exact records_update nothing path space
  | insert placement => exact records_insert _ _ _ space

/-! ## Emptiness -/

/-- A tree counts as empty exactly when no place holds a record, whatever namespaces it has. -/
theorem Ordered.isEmpty_iff {space : Namespace} (ordered : space.Ordered) :
    space.isEmpty = true ↔ ∀ path leaf, space.entryAt? path leaf = none := by
  induction ordered with
  | @intro entries children orderedEntries orderedChildren _ ih =>
    rw [isEmpty, areEmpty_eq_all, Bool.and_eq_true, List.isEmpty_iff, List.all_eq_true]
    constructor
    · rintro ⟨rfl, empty⟩ path leaf
      cases path with
      | nil => rfl
      | cons segment path =>
        rw [entryAt?_cons]
        cases found : Table.get? segment children with
        | none => rfl
        | some child =>
          have member := Table.mem_of_get? found
          exact (ih _ member).1 (empty _ member) path leaf
    · intro nowhere
      refine ⟨?_, fun pair member => (ih pair member).2 fun path leaf => ?_⟩
      · cases entries with
        | nil => rfl
        | cons pair rest =>
          have here : entryAt? [] pair.1 ⟨pair :: rest, children⟩ = some pair.2 :=
            Table.get?_of_mem orderedEntries List.mem_cons_self
          rw [nowhere] at here
          cases here
      · have below := nowhere (pair.1 :: path) leaf
        rw [entryAt?_cons] at below
        have found : Table.get? pair.1 children = some pair.2 :=
          Table.get?_of_mem orderedChildren member
        simpa [found] using below

/-! ## A run of calls -/

theorem ordered_ofCalls (calls : List Call) : (ofCalls calls).Ordered := by
  induction calls using List.reverseRecOn with
  | nil => exact ordered_empty
  | append_singleton rest call ih =>
    rw [ofCalls_append_singleton]
    exact ih.apply call

theorem entryAt?_ofCalls (calls : List Call) (path : List String) (leaf : String) :
    (ofCalls calls).entryAt? path leaf =
      Entry.ofRecords? (recordsAt path leaf (insertions calls)) := by
  induction calls using List.reverseRecOn with
  | nil => exact entryAt?_empty path leaf
  | append_singleton rest call ih =>
    have ordered := ordered_ofCalls rest
    rw [ofCalls_append_singleton, insertions_append_singleton]
    cases call with
    | descend made =>
      have none : (Call.descend made).placement?.toList = [] := rfl
      rw [none, List.append_nil, ← ih]
      exact entryAt?_descend ordered made path leaf
    | insert placement => exact entryAt?_insert ordered placement ih

theorem isSome_get?_ofCalls (calls : List Call) (wanted : List String) :
    ((ofCalls calls).get? wanted).isSome ↔
      wanted = [] ∨ ∃ call ∈ calls, wanted <+: call.path := by
  induction calls using List.reverseRecOn with
  | nil =>
    have start : ofCalls [] = empty := rfl
    simpa [start] using isSome_get?_empty
  | append_singleton rest call ih =>
    rw [ofCalls_append_singleton, isSome_get?_apply (ordered_ofCalls rest), ih, or_assoc]
    simp [or_and_right, exists_or]

theorem records_ofCalls (calls : List Call) :
    (ofCalls calls).records.Perm ((insertions calls).map Placement.record) := by
  induction calls using List.reverseRecOn with
  | nil => exact List.Perm.of_eq records_empty
  | append_singleton rest call ih =>
    rw [ofCalls_append_singleton, insertions_append_singleton, List.map_append]
    exact (records_apply call _).trans (ih.append_right _)

theorem isEmpty_ofCalls_iff (calls : List Call) :
    (ofCalls calls).isEmpty = true ↔ insertions calls = [] := by
  rw [(ordered_ofCalls calls).isEmpty_iff]
  constructor
  · intro nowhere
    refine List.eq_nil_iff_forall_not_mem.2 fun placement stored => ?_
    have none := nowhere placement.path placement.leaf
    rw [entryAt?_ofCalls, Entry.ofRecords?_eq_none_iff] at none
    have held : placement.record ∈
        recordsAt placement.path placement.leaf (insertions calls) := by
      refine List.mem_map_of_mem (List.mem_filter.2 ⟨stored, ?_⟩)
      simp
    rw [none] at held
    cases held
  · intro none path leaf
    rw [entryAt?_ofCalls, none]
    rfl

/-- After any run of calls a place holds the records that were stored there, in their order: nothing
if there are none, a single record if there is one, and else an overload group. A further call is not
seen at any place but its own. A namespace stands at the root, at the path of every call and at all
paths in front of it, and nowhere else. The tree has all records that were stored, and counts as
empty exactly when there are none. -/
theorem calls_make_map (calls : List Call) :
    (∀ path leaf, (ofCalls calls).entryAt? path leaf =
      Entry.ofRecords? (recordsAt path leaf (insertions calls))) ∧
    (∀ (call : Call) path leaf, ¬ call.WritesTo path leaf →
      (call.apply (ofCalls calls)).entryAt? path leaf = (ofCalls calls).entryAt? path leaf) ∧
    (∀ path, ((ofCalls calls).get? path).isSome ↔
      path = [] ∨ ∃ call ∈ calls, path <+: call.path) ∧
    (ofCalls calls).records.Perm ((insertions calls).map Placement.record) ∧
    ((ofCalls calls).isEmpty = true ↔ insertions calls = []) :=
  ⟨entryAt?_ofCalls calls,
    fun _ _ _ elsewhere => entryAt?_apply_of_not_writesTo (ordered_ofCalls calls) elsewhere,
    isSome_get?_ofCalls calls, records_ofCalls calls, isEmpty_ofCalls_iff calls⟩

def classRecord : Record where
  isClass := true

/-- One name is a namespace and an entry, one segment is empty, one leaf has a dot, and the namespaces
that are made first hold nothing. -/
def sharedCalls : List Call :=
  [.descend ["a", "b"], .insert ⟨[], "a", {}⟩, .insert ⟨[""], "a.b", {}⟩,
    .insert ⟨[""], "a.b", classRecord⟩]

/-- A record inside the namespace of the shared name leaves the entry of that name alone. -/
theorem calls_make_map_shared_name :
    (ofCalls sharedCalls).entryAt? [] "a" = some (.single {}) ∧
    (ofCalls sharedCalls).entryAt? [""] "a.b" = some (.overloads [{}, classRecord]) ∧
    (ofCalls sharedCalls).entryAt? ["a"] "b" = none ∧
    ((ofCalls sharedCalls).get? ["a", "b"]).isSome ∧
    (ofCalls sharedCalls).isEmpty = false ∧
    ¬ (Call.insert ⟨["a"], "a", classRecord⟩).WritesTo [] "a" ∧
    ((Call.insert ⟨["a"], "a", classRecord⟩).apply (ofCalls sharedCalls)).entryAt? [] "a" =
      some (.single {}) := by
  obtain ⟨stands, elsewhere, reached, -, empty⟩ := calls_make_map sharedCalls
  have single := (stands [] "a").trans (by decide : _ = some (Entry.single {}))
  have group := (stands [""] "a.b").trans
    (by decide : _ = some (Entry.overloads [{}, classRecord]))
  have nothing := (stands ["a"] "b").trans (by decide : _ = none)
  have made : ((ofCalls sharedCalls).get? ["a", "b"]).isSome :=
    (reached ["a", "b"]).2 (Or.inr ⟨_, List.mem_cons_self, List.prefix_refl _⟩)
  have filled : (ofCalls sharedCalls).isEmpty = false := by
    rw [Bool.eq_false_iff, ne_eq, empty]
    decide
  have apart : ¬ (Call.insert ⟨["a"], "a", classRecord⟩).WritesTo [] "a" := by
    rintro ⟨record, equal⟩
    cases equal
  exact ⟨single, group, nothing, made, filled, apart, (elsewhere _ _ _ apart).trans single⟩

end Namespace

end DocCatalog
