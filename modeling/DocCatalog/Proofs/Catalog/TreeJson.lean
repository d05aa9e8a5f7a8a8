import DocCatalog.Proofs.Catalog.Reload
import DocCatalog.Proofs.Namespace.Written

/-!
# What the text of a tree catalog keeps

In the JSON of a tree, names lead from object to object. Entries, namespaces and record fields share
the keys there, so not everything that the tree holds can be written. Whatever is not hidden by an
entry on its path is written, and following its path leads to it.

`tree_json_keeps_entries` says so for every entry that no other one hides.
-/

namespace DocCatalog

namespace Catalog

/-- The tree catalog of named tags is an object in which no key stands twice, and its text is read
back as that object. Every entry of the tree is reached by following the names of its path and its
own name, unless an entry on the path hides the next name: an overload group, or a record whose
object has that name as a key. What is reached is the value of the entry, but for the order of
members: an array for an overload group and an object for a record. Where a record is a namespace
too, it is an object that agrees with the record on the keys of the record and whose other keys are
the remaining names of the namespace. -/
theorem tree_json_keeps_entries (events : List Event) (named : ∀ event ∈ events, event.Named) :
    ∃ root, ((Builder.start .tree).run events).finish = .tree root ∧
      root.toJson.Plain ∧
      (∀ format ∈ jsonFormats, ∀ coloured,
        Json.read? ((tree root).render format coloured) = some root.toJson) ∧
      ∀ path leaf entry, root.entryAt? path leaf = some entry → root.Shown path leaf →
        ∃ reached, root.toJson.follow? (path ++ [leaf]) = some reached ∧
          Namespace.WrittenAs reached entry (root.get? (path ++ [leaf])) := by
  let root := Namespace.empty.insertAll ((Builder.start .tree).placements events)
  have finished : ((Builder.start .tree).run events).finish = .tree root :=
    Builder.finish_tree events
  have ordered : root.Ordered := Namespace.ordered_insertAll _
  have apart : ∀ record ∈ root.records, record.KeysApart := by
    have kept : ∀ record ∈ ((Builder.start .tree).run events).finish.records, record.KeysApart :=
      Builder.keysApart_of_mem_records named
    rwa [finished] at kept
  have plain : root.toJson.Plain := Namespace.plain_toJson ordered apart
  refine ⟨root, finished, plain, fun format json coloured => ?_,
    fun path leaf entry found shown => ?_⟩
  · obtain ⟨spacing, rendered⟩ := exists_spacing json
    rw [rendered]
    exact Json.read_render plain spacing
  · obtain ⟨reached, follows, same⟩ := Namespace.follow?_toJson ordered apart found shown
    have entryApart : entry.KeysApart := by
      obtain ⟨space, isSpace, stands⟩ := Option.bind_eq_some_iff.1 found
      exact fun record member =>
        apart record (Namespace.mem_records_of_get? isSpace
          (Namespace.mem_records_of_entry stands member))
    have spacePlain : ∀ space ∈ root.get? (path ++ [leaf]), space.toJson.Plain :=
      fun space isSpace => Namespace.plain_toJson (ordered.get? isSpace)
        fun record member => apart record (Namespace.mem_records_of_get? isSpace member)
    exact ⟨reached, follows,
      Namespace.writtenAs_of_same entryApart spacePlain (plain.follow? follows) same⟩

/-- A class within a class. The inner one has an overload group and a function with the name of a
field. -/
def nestedEvents : List Event :=
  ([⟨"", [("class", "A")]⟩, ⟨"", [("class", "B"), ("namespace", "A")]⟩,
    ⟨"", [("function", "f"), ("namespace", "A.B")]⟩, ⟨"", [("function", "f")]⟩,
    ⟨"", [("function", "name")]⟩] : List Comment).flatMap Comment.events

def outerRecord : Record where
  name := some "A"
  isClass := true

def innerRecord : Record where
  name := some "B"
  scope := "A"
  isClass := true

def memberRecord : Record where
  name := some "f"
  scope := "A.B"
  isFunction := true

/-- The overload group is reached through both classes, and the inner class with its members. -/
theorem tree_json_keeps_entries_nested :
    (∀ event ∈ nestedEvents, event.Named) ∧
    ∃ root, ((Builder.start .tree).run nestedEvents).finish = .tree root ∧
      root.entryAt? ["A", "B"] "f" = some (.overloads [memberRecord, memberRecord]) ∧
      root.Shown ["A", "B"] "f" ∧
      (∃ reached items, root.toJson.follow? ["A", "B", "f"] = some reached ∧
        reached = .array items ∧
        reached.Same (.array [memberRecord.toJson, memberRecord.toJson])) ∧
      root.entryAt? ["A"] "B" = some (.single innerRecord) ∧
      root.Shown ["A"] "B" ∧
      ∃ reached space, root.toJson.follow? ["A", "B"] = some reached ∧
        root.get? ["A", "B"] = some space ∧ Namespace.Merges innerRecord space reached := by
  have named : ∀ event ∈ nestedEvents, event.Named := fun _ => Comment.named_of_mem_flatMap
  obtain ⟨root, finished, -, -, keeps⟩ := tree_json_keeps_entries nestedEvents named
  have built : Namespace.empty.insertAll ((Builder.start .tree).placements nestedEvents) = root := by
    rw [Builder.finish_tree] at finished
    exact tree.inj finished
  have stands (path : List String) (leaf : String) : root.entryAt? path leaf =
      Entry.ofRecords? (recordsAt path leaf ((Builder.start .tree).placements nestedEvents)) := by
    rw [← built, Namespace.entryAt?_insertAll]
  have outer := (stands [] "A").trans (by decide : _ = some (Entry.single outerRecord))
  have inner := (stands ["A"] "B").trans (by decide : _ = some (Entry.single innerRecord))
  have group := (stands ["A", "B"] "f").trans
    (by decide : _ = some (Entry.overloads [memberRecord, memberRecord]))
  have below : (root.get? ["A", "B"]).isSome := by
    rw [← built]
    decide +kernel
  have shownInner : root.Shown ["A"] "B" := (Namespace.shown_nil "A" root).concat
    fun _ found => ⟨outerRecord, Option.some.inj (found.symm.trans outer), rfl⟩
  have shownGroup : root.Shown ["A", "B"] "f" := shownInner.concat
    fun _ found => ⟨innerRecord, Option.some.inj (found.symm.trans inner), rfl⟩
  obtain ⟨array, followsArray, ⟨items, isArray⟩, sameArray⟩ := keeps _ _ _ group shownGroup
  obtain ⟨object, followsObject, written⟩ := keeps _ _ _ inner shownInner
  obtain ⟨space, isSpace⟩ := Option.isSome_iff_exists.1 below
  rw [List.singleton_append, isSpace] at written
  exact ⟨named, root, finished, group, shownGroup, ⟨array, items, followsArray, isArray, sameArray⟩,
    inner, shownInner, object, space, followsObject, isSpace, written⟩

end Catalog

end DocCatalog
