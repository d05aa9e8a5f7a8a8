import DocCatalog.Proofs.Catalog.Reload
import DocCatalog.Proofs.Json.Grammar
import DocCatalog.Proofs.Namespace.Written

/-!
# The JSON of a catalog is well formed

Both JSON formats write one value, and what they write is JSON. Keys come from many sides: from the
fields of a record, from its custom tags, from the names of entries and from those of namespaces. Still
no key stands twice in one object, also where a record and a namespace share an object.

A namespace is written as an object of its own when no entry on its path hides it and none has its
name. Its names then stand in ascending order, also inside an object that is shared further out, where
everything is sorted once more.

Results:
1. `Catalog.plain_toJson`: the value of every catalog of named tags is plain.
2. `Namespace.follow?_alone`: the object of a namespace lists its names in order.
3. `json_formats_agree`: both texts are JSON and say the same value, with its keys once and in order.
-/

namespace DocCatalog

/-! ## Namespaces with an object of their own -/

namespace Namespace

/-- The members are those of the namespace by name, in ascending order. -/
structure Lists (space : Namespace) (members : List (String × Json)) : Prop where
  ascending : Table.Ordered members
  names : ∀ key, key ∈ Table.keys members ↔ space.Holds key

theorem lists_members (space : Namespace) : space.Lists space.members where
  ascending := space.ordered_members
  names := space.mem_keys_members

theorem Lists.sortMembers {space : Namespace} {members : List (String × Json)}
    (lists : space.Lists members) : space.Lists (Json.sortMembers members) where
  ascending := Json.ordered_sortMembers members
  names key := by rw [Json.mem_keys_sortMembers lists.ascending.nodup_keys, lists.names]

/-- Nothing hides the namespace at a path, and no entry has its name. -/
def Alone (root : Namespace) (path : List String) : Prop :=
  ∀ before last, path = before ++ [last] →
    root.Shown before last ∧ root.entryAt? before last = none

theorem alone_append_singleton {root : Namespace} {path : List String} {last : String} :
    root.Alone (path ++ [last]) ↔ root.Shown path last ∧ root.entryAt? path last = none := by
  constructor
  · intro alone
    exact alone path last rfl
  · intro both before name equal
    obtain ⟨rfl, isLast⟩ := List.append_inj' equal rfl
    obtain rfl := List.singleton_inj.1 isLast
    exact both

theorem slot_of_child {space child : Namespace} {key : String}
    (noEntry : Table.get? key space.entries = none)
    (isChild : Table.get? key space.children = some child) :
    space.slot key = .object child.members := by
  rw [slot, noEntry, isChild]
  rfl

/-- A namespace with an object of its own is reached along its path, and its names stand in order. -/
theorem follow?_alone {root space : Namespace} (ordered : root.Ordered)
    (apart : ∀ record ∈ root.records, record.KeysApart) {path : List String}
    (found : root.get? path = some space) (alone : root.Alone path) :
    ∃ members, root.toJson.follow? path = some (.object members) ∧ space.Lists members := by
  rcases List.eq_nil_or_concat path with rfl | ⟨before, last, rfl⟩
  · obtain rfl : root = space := by simpa [get?] using found
    exact ⟨root.members, rfl, lists_members root⟩
  · rw [List.concat_eq_append] at found alone ⊢
    obtain ⟨shown, noEntry⟩ := alone_append_singleton.1 alone
    rw [get?_append_singleton] at found
    obtain ⟨inner, isInner, isChild⟩ := Option.bind_eq_some_iff.1 found
    rw [entryAt?, isInner, Option.bind_some] at noEntry
    obtain ⟨value, follows, kept⟩ :=
      follow?_slot ordered apart isInner (holds_of_child isChild) shown
    rw [slot_of_child noEntry isChild] at kept
    rcases kept with rfl | rfl
    · exact ⟨space.members, follows, lists_members space⟩
    · exact ⟨Json.sortMembers space.members, follows, (lists_members space).sortMembers⟩

end Namespace

/-! ## Catalogs -/

namespace Catalog

theorem plain_toJson {layout : Layout} {events : List Event}
    (named : ∀ event ∈ events, event.Named) :
    ((Builder.start layout).run events).finish.toJson.Plain := by
  have apart : ∀ record ∈ ((Builder.start layout).run events).finish.records, record.KeysApart :=
    Builder.keysApart_of_mem_records named
  cases layout with
  | tree =>
    rw [Builder.finish_tree] at apart ⊢
    exact Namespace.plain_toJson (Namespace.ordered_insertAll _) apart
  | flat =>
    rw [Builder.finish_flat] at apart ⊢
    exact .array (List.forall_mem_map.2 fun record member =>
      ((apart record member).plainWithin_toJson 0).plain)

theorem ordered_of_finish {layout : Layout} {events : List Event} {root : Namespace}
    (isTree : ((Builder.start layout).run events).finish = .tree root) : root.Ordered := by
  cases layout with
  | tree =>
    rw [Builder.finish_tree] at isTree
    obtain rfl := tree.inj isTree
    exact Namespace.ordered_insertAll _
  | flat =>
    rw [Builder.finish_flat] at isTree
    cases isTree

/-- The compact and the pretty text of a catalog of named tags are both JSON and are read as one
value. In no object of that value does a key stand twice, at any depth. In a tree catalog every
namespace with an object of its own is reached by its path there, and the keys of that object are its
names in ascending order. -/
theorem json_formats_agree (layout : Layout) (events : List Event)
    (named : ∀ event ∈ events, event.Named) :
    let catalog := ((Builder.start layout).run events).finish
    ∃ value,
      (∀ format ∈ jsonFormats, ∀ coloured,
        Json.Grammatical (catalog.render format coloured).toList ∧
          Json.read? (catalog.render format coloured) = some value) ∧
      (∀ members, (Json.object members).Inside value → (members.map Prod.fst).Nodup) ∧
      ∀ root, catalog = .tree root → ∀ path space, root.get? path = some space → root.Alone path →
        ∃ members, value.follow? path = some (.object members) ∧ space.Lists members := by
  intro catalog
  have plain : catalog.toJson.Plain := plain_toJson named
  refine ⟨catalog.toJson, fun format json coloured => ?_, fun members inside => ?_, ?_⟩
  · obtain ⟨spacing, rendered⟩ := exists_spacing json
    have accepted : Json.read? (catalog.render format coloured) = some catalog.toJson := by
      rw [rendered]
      exact Json.read_render plain spacing
    exact ⟨Json.grammatical_of_read? accepted, accepted⟩
  · exact plain.nodup_of_inside inside
  · intro root isTree path space found alone
    have apart : ∀ record ∈ catalog.records, record.KeysApart :=
      Builder.keysApart_of_mem_records named
    have ordered : root.Ordered := ordered_of_finish isTree
    rw [isTree] at apart ⊢
    exact Namespace.follow?_alone ordered apart found alone

/-- A record and a namespace share the name `m`, and below it stands a namespace of its own. -/
def sharingEvents : List Event :=
  ([⟨"", [("name", "m"), ("namespace", "n")]⟩,
    ⟨"", [("class", "g"), ("namespace", "n.m.k"), ("since", "1")]⟩] : List Comment).flatMap
    Comment.events

def sharingRecord : Record where
  name := some "m"
  scope := "n"

/-- The namespace below the shared object is reached through it. -/
theorem json_formats_agree_below_shared :
    (∀ event ∈ sharingEvents, event.Named) ∧
    ∃ value root space members,
      ((Builder.start .tree).run sharingEvents).finish = .tree root ∧
      Json.read? ((tree root).render .json false) = some value ∧
      Json.read? ((tree root).render .jsonPretty false) = some value ∧
      (∀ keys, (Json.object keys).Inside value → (keys.map Prod.fst).Nodup) ∧
      root.entryAt? ["n"] "m" = some (.single sharingRecord) ∧
      root.get? ["n", "m", "k"] = some space ∧ root.Alone ["n", "m", "k"] ∧
      value.follow? ["n", "m", "k"] = some (.object members) ∧ space.Lists members := by
  have named : ∀ event ∈ sharingEvents, event.Named := fun _ => Comment.named_of_mem_flatMap
  obtain ⟨value, read, nodup, namespaces⟩ := json_formats_agree .tree sharingEvents named
  rw [Builder.finish_tree] at read namespaces
  let root := Namespace.empty.insertAll ((Builder.start .tree).placements sharingEvents)
  have stands (path : List String) (leaf : String) : root.entryAt? path leaf =
      Entry.ofRecords? (recordsAt path leaf ((Builder.start .tree).placements sharingEvents)) :=
    Namespace.entryAt?_insertAll _ path leaf
  have shared := (stands ["n"] "m").trans (by decide : _ = some (Entry.single sharingRecord))
  have noOuter := (stands [] "n").trans (by decide : _ = none)
  have noInner := (stands ["n", "m"] "k").trans (by decide : _ = none)
  have below : (root.get? ["n", "m", "k"]).isSome := by decide +kernel
  obtain ⟨space, isSpace⟩ := Option.isSome_iff_exists.1 below
  have shownShared : root.Shown ["n"] "m" := (Namespace.shown_nil "n" root).concat
    fun _ found => by cases noOuter.symm.trans found
  have shownBelow : root.Shown ["n", "m"] "k" := shownShared.concat
    fun _ found => ⟨sharingRecord, Option.some.inj (found.symm.trans shared), rfl⟩
  have alone : root.Alone (["n", "m"] ++ ["k"]) :=
    Namespace.alone_append_singleton.2 ⟨shownBelow, noInner⟩
  obtain ⟨members, follows, lists⟩ := namespaces root rfl _ space isSpace alone
  exact ⟨named, value, root, space, members, Builder.finish_tree _, (read .json (by decide) false).2,
    (read .jsonPretty (by decide) false).2, nodup, shared, isSpace, alone, follows, lists⟩

end Catalog

end DocCatalog
