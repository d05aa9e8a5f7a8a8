import DocCatalog.Proofs.Builder.Transition
import DocCatalog.Proofs.Namespace.Conservation

/-!
# The tree and the list tell the same

A tree builder files every record at its place when the record is committed. A flat builder appends
the record and sorts once, at the end, by a key that forgets case. Given the same events both hold
the same records, and what the tree stores at a place is what the list holds under that namespace
and name, in the same order.

Results:
1. `stableSort_mergeSort`: the sort of the list is stable.
2. `finish_tree`, `catalog_flat`: both catalogs as functions of the placements of the run.
3. `filter_map_record`: the records of a namespace and name are those of one place.
4. `layouts_agree`: the agreement of the two catalogs.
-/

namespace DocCatalog

/-! ## Stable sorting -/

/-- The items of a list in ascending order of their keys; items with one key keep their order. -/
structure StableSort {α : Type} (key : α → String) (sorted original : List α) : Prop where
  perm : sorted.Perm original
  ascending : sorted.Pairwise fun first second => key first ≤ key second
  stable : ∀ wanted : String,
    (sorted.filter fun item => key item = wanted) = original.filter fun item => key item = wanted

theorem stableSort_mergeSort {α : Type} (key : α → String) (items : List α) :
    StableSort key (items.mergeSort fun first second => decide (key first ≤ key second)) items := by
  let le (first second : α) : Bool := decide (key first ≤ key second)
  have trans (first second third : α) (low : le first second = true)
      (high : le second third = true) : le first third = true := by
    simp only [le, decide_eq_true_eq] at *
    exact String.le_trans low high
  have total (first second : α) : (le first second || le second first) = true := by
    simp only [le, Bool.or_eq_true, decide_eq_true_eq]
    exact String.le_total (key first) (key second)
  have perm : (items.mergeSort le).Perm items := List.mergeSort_perm items le
  refine ⟨perm, ?_, fun wanted => ?_⟩
  · have ascending := List.pairwise_mergeSort trans total items
    exact ascending.imp fun low => of_decide_eq_true low
  · -- The items with one key are in order already, so sorting leaves them as a sublist.
    let chosen : List α := items.filter fun item => key item = wanted
    have level : chosen.Pairwise fun first second => le first second = true := by
      refine List.pairwise_of_forall_mem_list fun first inFirst second inSecond => ?_
      have firstKey : key first = wanted := by simpa using (List.mem_filter.1 inFirst).2
      have secondKey : key second = wanted := by simpa using (List.mem_filter.1 inSecond).2
      simp [le, firstKey, secondKey]
    have inside : chosen.Sublist (items.mergeSort le) :=
      List.sublist_mergeSort trans total level List.filter_sublist
    have within : chosen.Sublist
        ((items.mergeSort le).filter fun item => key item = wanted) := by
      have kept := inside.filter fun item => decide (key item = wanted)
      simpa [chosen, List.filter_filter] using kept
    exact (within.eq_of_length (perm.filter _).length_eq.symm).symm

/-- A choice that settles the key is not touched by a stable sort. -/
theorem StableSort.filter_eq {α : Type} {key : α → String} {sorted original : List α}
    (sort : StableSort key sorted original) {choice : α → Bool} {wanted : String}
    (settled : ∀ item, choice item = true → key item = wanted) :
    sorted.filter choice = original.filter choice := by
  have narrowed (items : List α) : items.filter choice =
      (items.filter fun item => key item = wanted).filter choice := by
    rw [List.filter_filter]
    refine List.filter_congr fun item _ => ?_
    cases chosen : choice item with
    | false => rfl
    | true => simp [settled item chosen]
  rw [narrowed sorted, narrowed original, sort.stable wanted]

/-! ## Records by namespace and name -/

/-- Whether a record has exactly this namespace and name. -/
def Record.isNamedIn (scope name : String) (record : Record) : Bool :=
  record.scope = scope ∧ record.name = some name

theorem Record.sortKey_of_isNamedIn {scope name : String} {record : Record}
    (named : record.isNamedIn scope name = true) :
    record.sortKey = Text.lowerCase (scope ++ "." ++ name) := by
  simp only [isNamedIn, decide_eq_true_eq] at named
  simp [sortKey, named]

theorem Placement.Resolved.isNamedIn_iff {placement : Placement} (resolved : placement.Resolved)
    (scope name : String) :
    placement.record.isNamedIn scope name = true ↔
      placement.path = Text.literalPath scope ∧ placement.leaf = name := by
  simp only [Record.isNamedIn, decide_eq_true_eq, resolved.name, resolved.scope,
    Text.dotted_eq_iff resolved.path, Option.some.injEq]

theorem filter_map_record {placements : List Placement}
    (resolved : ∀ placement ∈ placements, placement.Resolved) (scope name : String) :
    (placements.map Placement.record).filter (Record.isNamedIn scope name) =
      recordsAt (Text.literalPath scope) name placements := by
  rw [List.filter_map, recordsAt]
  refine congrArg _ (List.filter_congr fun placement member => ?_)
  rw [Bool.eq_iff_iff, decide_eq_true_eq]
  exact (resolved placement member).isNamedIn_iff scope name

/-! ## The two catalogs -/

namespace Catalog

theorem foldl_place_tree (placements : List Placement) (root : Namespace) :
    placements.foldl place (tree root) = tree (root.insertAll placements) := by
  induction placements generalizing root with
  | nil => rfl
  | cons placement rest ih => exact ih _

theorem foldl_place_flat (placements : List Placement) (records : List Record) :
    placements.foldl place (flat records) = flat (records ++ placements.map Placement.record) := by
  induction placements generalizing records with
  | nil => simp
  | cons placement rest ih =>
    rw [List.foldl_cons, List.map_cons, List.append_cons]
    exact ih _

theorem records_foldl_place (placements : List Placement) (catalog : Catalog) :
    (placements.foldl place catalog).records.Perm
      (catalog.records ++ placements.map Placement.record) := by
  induction placements generalizing catalog with
  | nil => simp
  | cons placement rest ih =>
    rw [List.foldl_cons, List.map_cons, List.append_cons]
    exact (ih _).trans ((records_add _ _ _ _).append_right _)

end Catalog

namespace Builder

theorem finish_tree (events : List Event) :
    ((start .tree).run events).finish =
      .tree (Namespace.empty.insertAll ((start .tree).placements events)) := by
  rw [finish, catalog_run]
  exact congrArg Catalog.sorted (Catalog.foldl_place_tree _ _)

theorem catalog_flat (events : List Event) :
    ((start .flat).run events).catalog =
      .flat (((start .flat).placements events).map Placement.record) := by
  rw [catalog_run]
  exact Catalog.foldl_place_flat _ _

theorem finish_flat (events : List Event) :
    ((start .flat).run events).finish =
      .flat ((((start .flat).placements events).map Placement.record).mergeSort
        fun first second => decide (first.sortKey ≤ second.sortKey)) := by
  rw [finish, catalog_flat]
  rfl

/-- Given the same events, the list of a flat builder is a permutation of the records of the tree
and the stable sort of the records in the order in which either builder commits them. For every
namespace and name its records are, in order, those of the entry that the tree stores literally
there; there is such an entry exactly when there are such records, and it is an overload group
exactly when there are at least two. -/
theorem layouts_agree (events : List Event) :
    ∃ root committed list,
      ((start .tree).run events).finish = .tree root ∧
      ((start .flat).run events).catalog = .flat committed ∧
      ((start .flat).run events).finish = .flat list ∧
      (∀ layout, ((start layout).placements events).map Placement.record = committed) ∧
      list.Perm root.records ∧
      StableSort Record.sortKey list committed ∧
      ∀ scope name,
        let group := list.filter (Record.isNamedIn scope name)
        match root.entryAt? (Text.literalPath scope) name with
        | none => group = []
        | some entry =>
          group ≠ [] ∧ entry.records = group ∧
            (entry.isOverloaded = true ↔ 2 ≤ group.length) := by
  let placements := (start .tree).placements events
  let committed := placements.map Placement.record
  have same (layout : Layout) :
      ((start layout).placements events).map Placement.record = committed := by
    rw [placements_start layout .tree]
  let sorted := committed.mergeSort fun first second => decide (first.sortKey ≤ second.sortKey)
  have sort : StableSort Record.sortKey sorted committed :=
    stableSort_mergeSort Record.sortKey committed
  have unsorted : ((start .flat).run events).catalog = .flat committed := by
    rw [catalog_flat, same .flat]
  have flat : ((start .flat).run events).finish = .flat sorted := by
    rw [finish_flat, same .flat]
  have stored : (Namespace.empty.insertAll placements).records.Perm committed := by
    have kept := Catalog.records_foldl_place placements (.tree Namespace.empty)
    rw [Catalog.foldl_place_tree] at kept
    simpa [Catalog.records] using kept
  refine ⟨Namespace.empty.insertAll placements, committed, sorted, finish_tree events, unsorted,
    flat, same, sort.perm.trans stored.symm, sort, fun scope name => ?_⟩
  -- One namespace and one name have one key, so the sort keeps their records in order.
  have resolved : ∀ placement ∈ placements, placement.Resolved :=
    fun _ member => resolved_of_mem_placements member
  have group : sorted.filter (Record.isNamedIn scope name) =
      recordsAt (Text.literalPath scope) name placements := by
    rw [sort.filter_eq fun _ => Record.sortKey_of_isNamedIn, filter_map_record resolved]
  simp only [group]
  have read := Namespace.entryAt?_insertAll placements (Text.literalPath scope) name
  split
  case h_1 absent =>
    rw [read] at absent
    exact Entry.ofRecords?_eq_none_iff.1 absent
  case h_2 entry found =>
    rw [read] at found
    refine ⟨fun none => ?_, Entry.records_of_ofRecords? found,
      Entry.isOverloaded_of_ofRecords? found⟩
    rw [Entry.ofRecords?_eq_none_iff.2 none] at found
    cases found

end Builder

end DocCatalog
