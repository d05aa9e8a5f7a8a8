import DocCatalog.Proofs.Namespace.Filing
import DocCatalog.Proofs.Namespace.Spaces
import DocCatalog.Proofs.Outline.Items

/-!
# Where an item of the outline stands

The outline of a filed tree is cut into parts, one for each namespace: the header with the path of
the namespace, which the root does not have, and the items of its entries. The parts follow the list
of all namespaces. So the last header before a record or an overload group names the namespace of
that record or group, its depth is the number of segments of that path, and a record of a group
stands one level deeper, directly below the header of the group.

Results:
1. `items_eq_parts`: the outline of a filed tree as the parts of its namespaces.
2. `count_header`: every namespace below the root has one header.
3. `stands_of_split`: what stands before and after any item of the outline.
-/

namespace DocCatalog

/-- An element of two lists after each other stands in the second one or in the first one. -/
theorem cases_of_append_eq {α : Type} {first second before after : List α} {item : α}
    (split : first ++ second = before ++ item :: after) :
    (∃ more, before = first ++ more ∧ second = more ++ item :: after) ∨
      ∃ more, first = before ++ item :: more ∧ after = more ++ second := by
  rcases List.append_eq_append_iff.1 split with inSecond | ⟨more, rfl, found⟩
  · exact .inl inSecond
  · cases more with
    | nil => exact .inl ⟨[], by simp, found.symm⟩
    | cons c more =>
      obtain ⟨rfl, rfl⟩ := List.cons.inj found
      exact .inr ⟨more, rfl, rfl⟩

/-- An element of many lists after each other stands in one of them. -/
theorem exists_split_of_flatMap_eq {α β : Type} {f : α → List β} {items : List α}
    {before after : List β} {item : β} (split : items.flatMap f = before ++ item :: after) :
    ∃ left part right inBefore inAfter, items = left ++ part :: right ∧
      f part = inBefore ++ item :: inAfter ∧
      before = left.flatMap f ++ inBefore ∧ after = inAfter ++ right.flatMap f := by
  induction items generalizing before with
  | nil => simp at split
  | cons first rest ih =>
    rw [List.flatMap_cons] at split
    rcases cases_of_append_eq split with ⟨more, rfl, found⟩ | ⟨more, inFirst, rfl⟩
    · obtain ⟨left, part, right, inBefore, inAfter, rfl, inPart, rfl, rfl⟩ := ih found
      exact ⟨first :: left, part, right, inBefore, inAfter, rfl, inPart, by simp, rfl⟩
    · exact ⟨[], first, rest, before, more, rfl, inFirst, by simp, rfl⟩

namespace Outline

open Namespace (Filed spaces)
open Text (dotted IsSegment)

variable {root : Namespace}

/-! ## Headers -/

/-- The path that a header shows. -/
def Item.header? : Item → Option String
  | scope _ path => some path
  | overloads .. | record .. => none

/-- The path of the last header; before the first header it is the path of the root. -/
def headed (before : List Item) : String :=
  (before.filterMap Item.header?).getLast?.getD ""

/-- The header of the namespace at a path. The root has none. -/
def heading (path : List String) : List Item :=
  if path = [] then [] else [.scope (path.length - 1) (dotted path)]

theorem heading_append_singleton (path : List String) (segment : String) :
    heading (path ++ [segment]) = [.scope path.length (dotted (path ++ [segment]))] := by
  simp [heading]

theorem headed_append_of_none {before more : List Item}
    (none : ∀ item ∈ more, item.header? = none) : headed (before ++ more) = headed before := by
  rw [headed, List.filterMap_append, List.filterMap_eq_nil_iff.2 none, List.append_nil, ← headed]

theorem headed_append_heading (before : List Item) {path : List String} (below : path ≠ []) :
    headed (before ++ heading path) = dotted path := by
  simp [headed, heading, below, Item.header?]

theorem header?_of_mem_entryItems {depth : Nat} {name : String} {entry : Entry} {item : Item}
    (member : item ∈ entryItems depth name entry) : item.header? = none := by
  cases entry with
  | single record => rw [List.mem_singleton.1 member, Item.header?]
  | overloads records =>
    rcases List.mem_cons.1 member with rfl | inGroup
    · rfl
    · obtain ⟨record, -, rfl⟩ := List.mem_map.1 inGroup
      rfl

/-! ## Parts -/

/-- The items of the entries of a namespace, without those of its children. -/
def ownItems (path : List String) (space : Namespace) : List Item :=
  space.entries.flatMap fun entry => entryItems path.length entry.1 entry.2

/-- The part of the outline that one namespace has. -/
def part (place : List String × Namespace) : List Item :=
  heading place.1 ++ ownItems place.1 place.2

theorem header?_of_mem_ownItems {path : List String} {space : Namespace} {item : Item}
    (member : item ∈ ownItems path space) : item.header? = none := by
  obtain ⟨entry, -, inEntry⟩ := List.mem_flatMap.1 member
  exact header?_of_mem_entryItems inEntry

theorem childPath_dotted {path : List String} (names : ∀ segment ∈ path, IsSegment segment)
    (segment : String) : childPath (dotted path) segment = dotted (path ++ [segment]) := by
  unfold childPath
  by_cases atRoot : path = []
  · subst atRoot
    simp [dotted]
  · rw [if_neg (Text.dotted_ne_empty atRoot names), Text.dotted_append_singleton atRoot]

theorem heading_append_spaceItems {here : List String} {space : Namespace}
    (filed : Filed here space) (names : ∀ segment ∈ here, IsSegment segment) :
    heading here ++ spaceItems here.length (dotted here) space =
      (space.spaces here).flatMap part := by
  induction filed with
  | @intro here entries children _ segments _ _ ih =>
    rw [spaceItems_eq, Namespace.spaces_eq, List.flatMap_cons, List.flatMap_assoc, part, ownItems,
      List.append_assoc]
    congr 2
    refine List.flatMap_congr fun child member => ?_
    have longer : ∀ segment ∈ here ++ [child.1], IsSegment segment :=
      List.forall_mem_append.2 ⟨names, List.forall_mem_singleton.2 (segments child member)⟩
    rw [← ih child member longer, heading_append_singleton, childPath_dotted names,
      List.length_append, List.length_singleton, List.singleton_append]

theorem items_eq_parts (filed : Filed [] root) :
    items (.tree root) = (root.spaces []).flatMap part := by
  have parts := heading_append_spaceItems filed (List.forall_mem_nil _)
  exact parts

/-- The headers of the outline are the paths of the namespaces below the root. -/
theorem headers_eq (filed : Filed [] root) :
    (items (.tree root)).filterMap Item.header? =
      (((root.spaces []).map Prod.fst).filter fun path => path ≠ []).map dotted := by
  rw [items_eq_parts filed, List.filterMap_flatMap]
  induction root.spaces [] with
  | nil => rfl
  | cons place rest ih =>
    have own : (ownItems place.1 place.2).filterMap Item.header? = [] :=
      List.filterMap_eq_nil_iff.2 fun _ => header?_of_mem_ownItems
    rw [List.flatMap_cons, ih, part, List.filterMap_append, own, List.append_nil, List.map_cons,
      List.filter_cons]
    by_cases atRoot : place.1 = []
    · simp [heading, atRoot]
    · simp [heading, atRoot, Item.header?]

theorem names_of_mem_spaces (filed : Filed [] root) (ordered : root.Ordered) {path : List String}
    (member : path ∈ (root.spaces []).map Prod.fst) : ∀ segment ∈ path, IsSegment segment := by
  obtain ⟨⟨_, space⟩, inSpaces, rfl⟩ := List.mem_map.1 member
  exact (filed.get? ((Namespace.mem_spaces_iff ordered).1 inSpaces)).2

/-- Every namespace below the root has one header, since different paths are written differently. -/
theorem count_header (filed : Filed [] root) (ordered : root.Ordered) {path : List String}
    (below : path ≠ []) (exists_ : (root.get? path).isSome = true) :
    ((items (.tree root)).filterMap Item.header?).count (dotted path) = 1 := by
  obtain ⟨space, reached⟩ := Option.isSome_iff_exists.1 exists_
  have listed : path ∈ (root.spaces []).map Prod.fst :=
    List.mem_map.2 ⟨(path, space), (Namespace.mem_spaces_iff ordered).2 reached, rfl⟩
  rw [headers_eq filed]
  refine List.count_eq_one_of_mem (List.Nodup.map_on ?_ ?_) ?_
  · intro first inFirst second inSecond same
    have firstNames := names_of_mem_spaces filed ordered (List.mem_filter.1 inFirst).1
    have secondNames := names_of_mem_spaces filed ordered (List.mem_filter.1 inSecond).1
    rw [← Text.segments_dotted firstNames, same, Text.segments_dotted secondNames]
  · exact (Namespace.nodup_paths ordered []).filter _
  · exact List.mem_map_of_mem (List.mem_filter.2 ⟨listed, decide_eq_true below⟩)

/-! ## Places -/

/-- What an item is, and what stands before it and after it. -/
inductive Stands (root : Namespace) (before after : List Item) : Item → Prop
  /-- The header of a namespace that is there shows its full path. -/
  | scope {path : List String} {segment : String} :
      (root.get? (path ++ [segment])).isSome = true →
      Stands root before after (.scope path.length (dotted (path ++ [segment])))
  /-- A record that stands alone under its name. -/
  | single {path : List String} {leaf : String} {record : Record} :
      root.entryAt? path leaf = some (.single record) → headed before = dotted path →
      Stands root before after (.record path.length leaf record)
  /-- The header of a group tells its size and is followed by its records. -/
  | overloads {path : List String} {leaf : String} {records : List Record} :
      root.entryAt? path leaf = some (.overloads records) → headed before = dotted path →
      records.map (.record (path.length + 1) leaf) <+: after →
      Stands root before after (.overloads path.length leaf records.length)
  /-- A record of a group stands below the header of the group and the records before it. -/
  | member {path : List String} {leaf : String} {earlier later : List Record} {record : Record} :
      root.entryAt? path leaf = some (.overloads (earlier ++ record :: later)) →
      headed before = dotted path →
      .overloads path.length leaf (earlier ++ record :: later).length ::
        earlier.map (.record (path.length + 1) leaf) <:+ before →
      Stands root before after (.record (path.length + 1) leaf record)

theorem entryItems_eq {path : List String} {leaf : String} {entry : Entry}
    (own : entry.FiledAt path leaf) (depth : Nat) :
    entryItems depth leaf entry =
      match entry with
      | .single record => [.record depth leaf record]
      | .overloads records =>
        .overloads depth leaf records.length :: records.map (.record (depth + 1) leaf) := by
  have titled : ∀ record ∈ entry.records, record.name.getD "" = leaf := fun record member => by
    rw [(own.records record member).name, Option.getD_some]
  cases entry with
  | single record => rw [entryItems, titled record List.mem_cons_self]
  | overloads records =>
    rw [entryItems]
    refine congrArg _ (List.map_congr_left fun record member => ?_)
    rw [titled record member]

theorem stands_of_entryItems {path : List String} {leaf : String} {entry : Entry}
    (found : root.entryAt? path leaf = some entry) (own : entry.FiledAt path leaf)
    {before inBefore inAfter : List Item} {item : Item} (here : headed before = dotted path)
    (split : entryItems path.length leaf entry = inBefore ++ item :: inAfter) (after : List Item) :
    Stands root (before ++ inBefore) (inAfter ++ after) item := by
  have stays : headed (before ++ inBefore) = dotted path := by
    rw [headed_append_of_none fun item member => header?_of_mem_entryItems
      (split ▸ List.mem_append_left _ member), here]
  rw [entryItems_eq own] at split
  cases entry with
  | single record =>
    cases inBefore with
    | nil =>
      obtain ⟨rfl, rfl⟩ := List.cons.inj split
      exact .single found stays
    | cons first more => simp at split
  | overloads records =>
    cases inBefore with
    | nil =>
      obtain ⟨rfl, rfl⟩ := List.cons.inj split
      exact .overloads found stays (List.prefix_append _ after)
    | cons first inBefore =>
      obtain ⟨rfl, inGroup⟩ := List.cons.inj split
      obtain ⟨earlier, others, rfl, rfl, later⟩ := List.map_eq_append_iff.1 inGroup
      obtain ⟨record, later, rfl, rfl, rfl⟩ := List.map_eq_cons_iff.1 later
      exact .member found stays (List.suffix_append before _)

/-- A part that starts with the root is the first one. -/
theorem left_eq_nil {left right : List (List String × Namespace)} {space : Namespace}
    (ordered : root.Ordered) (cut : root.spaces [] = left ++ ([], space) :: right) :
    left = [] := by
  have distinct := Namespace.nodup_paths ordered []
  cases left with
  | nil => rfl
  | cons first more =>
    obtain ⟨entries, children⟩ := root
    rw [cut, List.map_append, List.map_cons] at distinct
    rw [Namespace.spaces_eq] at cut
    obtain ⟨rfl, -⟩ := List.cons.inj cut
    simp at distinct

/-- The last header before the entries of a namespace is that of the namespace. -/
theorem headed_before_ownItems {left right : List (List String × Namespace)} {path : List String}
    {space : Namespace} (ordered : root.Ordered)
    (cut : root.spaces [] = left ++ (path, space) :: right) :
    headed (left.flatMap part ++ heading path) = dotted path := by
  by_cases atRoot : path = []
  · subst atRoot
    rw [left_eq_nil ordered cut]
    rfl
  · exact headed_append_heading _ atRoot

theorem stands_of_split (filed : Filed [] root) (ordered : root.Ordered)
    {before after : List Item} {item : Item}
    (split : items (.tree root) = before ++ item :: after) : Stands root before after item := by
  rw [items_eq_parts filed] at split
  obtain ⟨left, ⟨path, space⟩, right, inBefore, inAfter, cut, inPart, rfl, rfl⟩ :=
    exists_split_of_flatMap_eq split
  have member : (path, space) ∈ root.spaces [] := by simp [cut]
  have reached : root.get? path = some space := (Namespace.mem_spaces_iff ordered).1 member
  obtain ⟨there, -⟩ := filed.get? reached
  have here := headed_before_ownItems ordered cut
  have inPart : heading path ++ ownItems path space = inBefore ++ item :: inAfter := inPart
  rcases cases_of_append_eq inPart with ⟨more, rfl, found⟩ | ⟨more, inHeading, -⟩
  · obtain ⟨first, ⟨leaf, entry⟩, others, inBefore, inAfter, entries, inEntry, rfl, rfl⟩ :=
      exists_split_of_flatMap_eq found
    have inEntries : (leaf, entry) ∈ space.entries := by simp [entries]
    have standing : root.entryAt? path leaf = some entry := by
      rw [Namespace.entryAt?, reached]
      exact Table.get?_of_mem (ordered.get? reached).entries inEntries
    have stays : headed (left.flatMap part ++ heading path ++
        first.flatMap fun entry => entryItems path.length entry.1 entry.2) = dotted path := by
      rw [headed_append_of_none fun item member => ?_, here]
      obtain ⟨entry, -, inside⟩ := List.mem_flatMap.1 member
      exact header?_of_mem_entryItems inside
    have stands := stands_of_entryItems standing (there.entry inEntries) stays inEntry
      ((others.flatMap fun entry => entryItems path.length entry.1 entry.2) ++ right.flatMap part)
    simpa only [List.append_assoc] using stands
  · -- The item is the header of a namespace below the root.
    rcases List.eq_nil_or_concat path with rfl | ⟨outer, segment, rfl⟩
    · simp [heading] at inHeading
    · rw [List.concat_eq_append] at *
      rw [heading_append_singleton] at inHeading
      cases inBefore with
      | nil =>
        obtain ⟨rfl, -⟩ := List.cons.inj inHeading
        exact .scope (Option.isSome_iff_exists.2 ⟨space, reached⟩)
      | cons first others => simp at inHeading

end Outline

end DocCatalog
