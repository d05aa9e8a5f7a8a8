import DocCatalog.Proofs.Router.Registry

/-!
# A router answers like one list of subscriptions

A router spreads its subscriptions over one list for every tag and a list for the subscribers of
every event. The tables of the tags have no order of their own: they may be walked in another order
every time, so before each call they are put in any order here. Tables that have become empty stay.

A router represents a registry when every list of handles is the one that the registry filters out.
That no handle stands in two lists is a fact about the registry, and it makes the search for a
handle independent of the order of the tables.

Results:
1. `dropTagged?_eq`, `Represents.off_eq`: searching the tables one after the other ends the same
   subscription as searching all of them.
2. `Represents.call`: one call on a router that represents a registry gets the reply of the registry
   and leaves a router that represents what the registry becomes.
3. `Represents.replies`: so do all calls of a run, whatever the walks are.
4. `router_refines_registry`: this for the empty router, and what the replies say about handles.
-/

namespace DocCatalog.Router

/-! ## Runs -/

/-- An order in which the tables of the tags are walked. -/
structure Walk where
  order : List (Tag × List Handle) → List (Tag × List Handle)
  perm : ∀ tables, (order tables).Perm tables

def walked (router : Router) (walk : Walk) : Router :=
  { router with tagged := walk.order router.tagged }

def call (router : Router) : Call → Reply × Router
  | .on tag => (router.on tag).map .subscribed id
  | .onAny => router.onAny.map .subscribed id
  | .off handle => (router.off handle).map .ended id
  | .offTag tag => (router.offTag tag).map .endedMany id
  | .offAny => router.offAny.map .endedMany id
  | .dispatch events => (.delivered (router.deliveries events), router)
  | .isEmpty => (.isEmpty router.isEmpty, router)
  | .summary => (.summary router.summary, router)

/-- The replies to calls that are made one after the other, each with its own walk. -/
def replies (router : Router) : List (Walk × Call) → List Reply
  | [] => []
  | (walk, asked) :: rest =>
    ((router.walked walk).call asked).1 :: replies ((router.walked walk).call asked).2 rest

/-! ## Tables -/

section Tables

variable {tag : Tag} {handle : Handle} {tables : List (Tag × List Handle)}

theorem tags_addTagged (tag : Tag) (handle : Handle) (tables : List (Tag × List Handle)) :
    (addTagged tag handle tables).map Prod.fst =
      if tag ∈ tables.map Prod.fst then tables.map Prod.fst else tables.map Prod.fst ++ [tag] := by
  induction tables with
  | nil => rfl
  | cons entry rest ih =>
    obtain ⟨other, handles⟩ := entry
    rw [addTagged]
    by_cases same : other = tag
    · simp [same]
    · rw [if_neg same, List.map_cons, ih]
      by_cases inRest : tag ∈ rest.map Prod.fst <;> simp [inRest, Ne.symm same]

/-- What holds of every table, and of the grown one, holds of every table afterwards. -/
theorem forall_mem_addTagged {holds : Tag × List Handle → Prop}
    (nodup : (tables.map Prod.fst).Nodup)
    (kept : ∀ entry ∈ tables, entry.1 ≠ tag → holds entry)
    (fresh : tag ∉ tables.map Prod.fst → holds (tag, [handle]))
    (grown : ∀ handles, (tag, handles) ∈ tables → holds (tag, handles ++ [handle])) :
    ∀ entry ∈ addTagged tag handle tables, holds entry := by
  induction tables with
  | nil => exact List.forall_mem_singleton.2 (fresh List.not_mem_nil)
  | cons entry rest ih =>
    obtain ⟨other, handles⟩ := entry
    obtain ⟨away, nodupRest⟩ := List.nodup_cons.1 nodup
    obtain ⟨first, others⟩ := List.forall_mem_cons.1 kept
    rw [addTagged]
    split
    case isTrue same =>
      subst same
      refine List.forall_mem_cons.2 ⟨grown handles List.mem_cons_self, fun entry member => ?_⟩
      -- The tag stands once, so the tables behind the grown one are for other tags.
      refine others entry member fun equal => away ?_
      exact List.mem_map.2 ⟨entry, member, equal⟩
    case isFalse differs =>
      refine List.forall_mem_cons.2 ⟨first differs, ih nodupRest others ?_ ?_⟩
      · exact fun notInRest => fresh fun inAll =>
          (List.mem_cons.1 inAll).elim (fun equal => differs equal.symm) notInRest
      · exact fun handles member => grown handles (List.mem_cons_of_mem _ member)

theorem map_erase_eq_self (absent : ∀ entry ∈ tables, handle ∉ entry.2) :
    (tables.map fun entry => (entry.1, entry.2.erase handle)) = tables := by
  refine (List.map_congr_left fun entry member => ?_).trans (List.map_id tables)
  rw [List.erase_of_not_mem (absent entry member)]
  rfl

/-- When a handle stands in one table at most, it does not matter where the search ends. -/
theorem dropTagged?_eq (unique : tables.Pairwise fun first second =>
      handle ∈ first.2 → handle ∉ second.2) :
    dropTagged? handle tables =
      if ∃ entry ∈ tables, handle ∈ entry.2 then
        some (tables.map fun entry => (entry.1, entry.2.erase handle))
      else none := by
  induction tables with
  | nil => simp [dropTagged?]
  | cons entry rest ih =>
    obtain ⟨tag, handles⟩ := entry
    obtain ⟨apart, uniqueRest⟩ := List.pairwise_cons.1 unique
    rw [dropTagged?]
    by_cases here : handle ∈ handles
    · have absent : ∀ entry ∈ rest, handle ∉ entry.2 := fun entry member => apart entry member here
      simp [here, map_erase_eq_self absent]
    · rw [if_neg here, ih uniqueRest]
      by_cases there : ∃ entry ∈ rest, handle ∈ entry.2
      · simp [here, there, List.erase_of_not_mem]
      · simp [here, there]

end Tables

/-! ## The representation -/

/-- Every list of handles is the one that the registry filters out, and no tag has two tables. -/
structure Represents (router : Router) (registry : Registry) : Prop where
  next : router.next = registry.made
  tags : (router.tagged.map Prod.fst).Nodup
  handles : ∀ entry ∈ router.tagged, entry.2 = registry.handlesOf (some entry.1)
  covered : ∀ tag, tag ∉ router.tagged.map Prod.fst → registry.handlesOf (some tag) = []
  wildcard : router.wildcard = registry.handlesOf none

theorem represents_empty : empty.Represents .empty where
  next := rfl
  tags := List.nodup_nil
  handles _ member := absurd member List.not_mem_nil
  covered _ _ := rfl
  wildcard := rfl

variable {router : Router} {registry : Registry}

theorem Represents.walked (represents : router.Represents registry) (walk : Walk) :
    (router.walked walk).Represents registry := by
  have perm := walk.perm router.tagged
  have tags := perm.map Prod.fst
  exact {
    next := represents.next
    tags := tags.nodup_iff.2 represents.tags
    handles := fun entry member => represents.handles entry (perm.mem_iff.1 member)
    covered := fun tag away => represents.covered tag fun inside => away (tags.mem_iff.2 inside)
    wildcard := represents.wildcard }

theorem Represents.subscribers (represents : router.Represents registry) (tag : Tag) :
    router.subscribers tag = registry.handlesOf (some tag) := by
  unfold Router.subscribers
  cases found : router.tagged.lookup tag with
  | none =>
    refine (represents.covered tag fun inside => ?_).symm
    obtain ⟨entry, member, same⟩ := List.mem_map.1 inside
    have differs := List.lookup_eq_none_iff.1 found entry member
    simp [same] at differs
  | some handles =>
    obtain ⟨before, after, split, -⟩ := List.lookup_eq_some_iff.1 found
    have member : (tag, handles) ∈ router.tagged := by simp [split]
    exact represents.handles (tag, handles) member

theorem Represents.mem_tables_iff (represents : router.Represents registry) {handle : Handle} :
    (∃ entry ∈ router.tagged, handle ∈ entry.2) ↔
      ∃ tag, handle ∈ registry.handlesOf (some tag) := by
  constructor
  · rintro ⟨entry, member, inside⟩
    exact ⟨entry.1, represents.handles entry member ▸ inside⟩
  · rintro ⟨tag, member⟩
    have inTags : tag ∈ router.tagged.map Prod.fst := by
      refine Classical.byContradiction fun away => ?_
      rw [represents.covered tag away] at member
      exact List.not_mem_nil member
    obtain ⟨entry, inTables, rfl⟩ := List.mem_map.1 inTags
    exact ⟨entry, inTables, represents.handles entry inTables ▸ member⟩

theorem Represents.isLive_iff (represents : router.Represents registry) {handle : Handle} :
    registry.isLive handle = true ↔
      handle ∈ router.wildcard ∨ ∃ entry ∈ router.tagged, handle ∈ entry.2 := by
  rw [Registry.isLive_iff, represents.mem_tables_iff, represents.wildcard]
  constructor
  · rintro ⟨tag, member⟩
    cases tag with
    | none => exact .inl member
    | some tag => exact .inr ⟨tag, member⟩
  · rintro (member | ⟨tag, member⟩)
    · exact ⟨none, member⟩
    · exact ⟨some tag, member⟩

/-- No handle stands in two tables. -/
theorem Represents.pairwise_apart (represents : router.Represents registry)
    (numbered : registry.WellNumbered) :
    router.tagged.Pairwise fun first second => ∀ handle ∈ first.2, handle ∉ second.2 := by
  refine (List.pairwise_map.1 represents.tags).imp_of_mem ?_
  intro first second firstMember secondMember differs handle here there
  rw [represents.handles first firstMember] at here
  rw [represents.handles second secondMember] at there
  exact differs (Option.some.inj (numbered.tag_unique here there))

/-! ## Calls that change the subscriptions -/

theorem Represents.on (represents : router.Represents registry) (tag : Tag) :
    (router.on tag).1 = (registry.subscribe (some tag)).1 ∧
      (router.on tag).2.Represents (registry.subscribe (some tag)).2 := by
  have handle : (router.on tag).1 = ⟨registry.made⟩ := congrArg Handle.mk represents.next
  have tables : (router.on tag).2.tagged = addTagged tag ⟨registry.made⟩ router.tagged := by
    rw [← represents.next]
    rfl
  refine ⟨handle, congrArg (· + 1) represents.next, ?_, ?_, fun other away => ?_, ?_⟩
  · rw [tables, tags_addTagged]
    split
    case isTrue => exact represents.tags
    case isFalse away =>
      refine represents.tags.append (List.nodup_singleton tag) fun other old new => ?_
      exact away (List.mem_singleton.1 new ▸ old)
  · rw [tables]
    refine forall_mem_addTagged represents.tags (fun entry member differs => ?_) (fun away => ?_)
      (fun handles member => ?_)
    · have other : ¬ some tag = some entry.1 := by simpa using Ne.symm differs
      rw [Registry.handlesOf_subscribe, if_neg other, List.append_nil]
      exact represents.handles entry member
    · rw [Registry.handlesOf_subscribe, if_pos rfl, represents.covered tag away]
      rfl
    · rw [Registry.handlesOf_subscribe, if_pos rfl, ← represents.handles _ member]
  · rw [tables, tags_addTagged] at away
    have outside : other ∉ router.tagged.map Prod.fst ∧ tag ≠ other := by
      split at away
      case isTrue inside => exact ⟨away, fun equal => away (equal ▸ inside)⟩
      case isFalse => simpa [eq_comm] using away
    have differs : ¬ some tag = some other := by simpa using outside.2
    rw [Registry.handlesOf_subscribe, if_neg differs, represents.covered other outside.1]
    rfl
  · rw [Registry.handlesOf_subscribe, if_neg (by simp), List.append_nil]
    exact represents.wildcard

theorem Represents.onAny (represents : router.Represents registry) :
    router.onAny.1 = (registry.subscribe none).1 ∧
      router.onAny.2.Represents (registry.subscribe none).2 := by
  have same (tag : Tag) :
      (registry.subscribe none).2.handlesOf (some tag) = registry.handlesOf (some tag) := by
    rw [Registry.handlesOf_subscribe, if_neg (by simp), List.append_nil]
  refine ⟨congrArg Handle.mk represents.next, congrArg (· + 1) represents.next, represents.tags,
    fun entry member => ?_, fun tag away => ?_, ?_⟩
  · rw [same]
    exact represents.handles entry member
  · rw [same]
    exact represents.covered tag away
  · rw [Registry.handlesOf_subscribe, if_pos rfl, ← represents.wildcard, ← represents.next]
    rfl

/-- The search for a handle ends the subscription wherever it stands. -/
theorem Represents.off_eq (represents : router.Represents registry)
    (numbered : registry.WellNumbered) (handle : Handle) :
    router.off handle =
      (registry.isLive handle,
        { router with
          wildcard := router.wildcard.erase handle
          tagged := router.tagged.map fun entry => (entry.1, entry.2.erase handle) }) := by
  have live_iff : registry.isLive handle = true ↔ _ := represents.isLive_iff
  unfold Router.off
  split
  case isTrue wild =>
    have absent : ∀ entry ∈ router.tagged, handle ∉ entry.2 := by
      intro entry member there
      rw [represents.handles entry member] at there
      rw [represents.wildcard] at wild
      exact absurd (numbered.tag_unique wild there) (by simp)
    rw [live_iff.2 (.inl wild), map_erase_eq_self absent]
  case isFalse notWild =>
    have unique := (represents.pairwise_apart numbered).imp fun {_ _} apart => apart handle
    rw [List.erase_of_not_mem notWild, dropTagged?_eq unique]
    by_cases found : ∃ entry ∈ router.tagged, handle ∈ entry.2
    · rw [live_iff.2 (.inr found), if_pos found]
    · have dead : registry.isLive handle = false :=
        Bool.eq_false_iff.2 fun live => (live_iff.1 live).elim notWild found
      have absent : ∀ entry ∈ router.tagged, handle ∉ entry.2 :=
        fun entry member inside => found ⟨entry, member, inside⟩
      rw [dead, if_neg found, map_erase_eq_self absent]

theorem Represents.endHandle (represents : router.Represents registry)
    (numbered : registry.WellNumbered) (handle : Handle) :
    Represents
      { router with
        wildcard := router.wildcard.erase handle
        tagged := router.tagged.map fun entry => (entry.1, entry.2.erase handle) }
      (registry.endHandle handle) where
  next := represents.next
  tags := by simpa [Function.comp_def] using represents.tags
  handles := by
    refine List.forall_mem_map.2 fun entry member => ?_
    rw [numbered.handlesOf_endHandle, represents.handles entry member]
  covered tag away := by
    rw [numbered.handlesOf_endHandle, represents.covered tag (by simpa using away)]
    rfl
  wildcard := by rw [numbered.handlesOf_endHandle, represents.wildcard]

theorem Represents.offTag (represents : router.Represents registry) (tag : Tag) :
    (router.offTag tag).2.Represents (registry.endTag (some tag)) where
  next := represents.next
  tags := represents.tags.sublist (List.filter_sublist.map _)
  handles entry member := by
    obtain ⟨old, differs⟩ := List.mem_filter.1 member
    have other : ¬ some entry.1 = some tag := by simpa using differs
    rw [Registry.handlesOf_endTag, if_neg other]
    exact represents.handles entry old
  covered other away := by
    rw [Registry.handlesOf_endTag]
    split
    case isTrue => rfl
    case isFalse differs =>
      refine represents.covered other fun inside => away ?_
      obtain ⟨entry, member, rfl⟩ := List.mem_map.1 inside
      have kept : entry ∈ (router.offTag tag).2.tagged :=
        List.mem_filter.2 ⟨member, by simpa using differs⟩
      exact List.mem_map_of_mem kept
  wildcard := by
    rw [Registry.handlesOf_endTag, if_neg (by simp)]
    exact represents.wildcard

theorem Represents.offAny (represents : router.Represents registry) :
    router.offAny.2.Represents (registry.endTag none) where
  next := represents.next
  tags := represents.tags
  handles entry member := by
    rw [Registry.handlesOf_endTag, if_neg (by simp)]
    exact represents.handles entry member
  covered tag away := by
    rw [Registry.handlesOf_endTag, if_neg (by simp)]
    exact represents.covered tag away
  wildcard := by
    rw [Registry.handlesOf_endTag, if_pos rfl]
    rfl

/-! ## Calls that only ask -/

theorem Represents.deliveries (represents : router.Represents registry) (events : List Event) :
    router.deliveries events = events.flatMap fun event =>
      (registry.turns event).map fun handle => (handle, event) := by
  have turns (event : Event) : router.receivers event = registry.turns event := by
    rw [receivers, represents.subscribers, represents.wildcard, Registry.turns]
  simp only [Router.deliveries, turns]

theorem Represents.isEmpty (represents : router.Represents registry) :
    router.isEmpty = registry.live.isEmpty := by
  rw [Bool.eq_iff_iff, List.isEmpty_iff, Registry.live_eq_nil_iff]
  simp only [Router.isEmpty, Bool.and_eq_true, List.isEmpty_iff, List.all_eq_true]
  constructor
  · rintro ⟨wild, tables⟩ tag
    cases tag with
    | none => rw [← represents.wildcard, wild]
    | some tag =>
      by_cases inside : tag ∈ router.tagged.map Prod.fst
      · obtain ⟨entry, member, rfl⟩ := List.mem_map.1 inside
        rw [← represents.handles entry member, tables entry member]
      · exact represents.covered tag inside
  · intro none
    refine ⟨represents.wildcard.trans (none _), fun entry member => ?_⟩
    exact (represents.handles entry member).trans (none _)

/-- The tables together hold every subscription to a tag once. -/
theorem Represents.taggedCount (represents : router.Represents registry)
    (numbered : registry.WellNumbered) :
    router.taggedCount = registry.live.countP fun entry => entry.tag.isSome := by
  let tagged := registry.live.filter fun entry => entry.tag.isSome
  have nodup : (router.tagged.flatMap Prod.snd).Nodup := by
    refine List.nodup_flatMap.2 ⟨fun entry member => ?_, ?_⟩
    · rw [represents.handles entry member]
      exact numbered.nodup_handlesOf _
    · exact (represents.pairwise_apart numbered).imp fun apart handle here => apart handle here
  have nodupTagged : (tagged.map Subscription.handle).Nodup :=
    numbered.nodup_handles.sublist (List.filter_sublist.map _)
  have perm : (router.tagged.flatMap Prod.snd).Perm (tagged.map Subscription.handle) := by
    refine (List.perm_ext_iff_of_nodup nodup nodupTagged).2 fun handle => ?_
    rw [List.mem_flatMap, represents.mem_tables_iff]
    simp only [Registry.mem_handlesOf, tagged, List.mem_map, List.mem_filter]
    constructor
    · rintro ⟨tag, member⟩
      exact ⟨_, ⟨member, rfl⟩, rfl⟩
    · rintro ⟨⟨_, tag⟩, ⟨member, isTagged⟩, rfl⟩
      obtain ⟨tag, rfl⟩ := Option.isSome_iff_exists.1 isTagged
      exact ⟨tag, member⟩
  rw [Router.taggedCount, perm.length_eq, List.length_map, List.countP_eq_length_filter]

theorem Represents.summary (represents : router.Represents registry)
    (numbered : registry.WellNumbered) : router.summary = registry.summary := by
  unfold Router.summary Registry.summary
  rw [represents.taggedCount numbered, represents.wildcard, Registry.length_handlesOf]

/-! ## Runs -/

/-- One call gets the reply of the registry, and the router goes on representing it. -/
theorem Represents.call (represents : router.Represents registry)
    (numbered : registry.WellNumbered) (asked : Call) :
    (router.call asked).1 = (registry.call asked).1 ∧
      (router.call asked).2.Represents (registry.call asked).2 := by
  cases asked with
  | on tag =>
    obtain ⟨handle, kept⟩ := represents.on tag
    exact ⟨congrArg Reply.subscribed handle, kept⟩
  | onAny =>
    obtain ⟨handle, kept⟩ := represents.onAny
    exact ⟨congrArg Reply.subscribed handle, kept⟩
  | off handle =>
    simp only [Router.call, Registry.call, represents.off_eq numbered]
    exact ⟨rfl, represents.endHandle numbered handle⟩
  | offTag tag =>
    have count : (router.offTag tag).1 = registry.live.countP fun entry => entry.tag = some tag := by
      rw [← Registry.length_handlesOf, ← represents.subscribers]
      rfl
    exact ⟨congrArg Reply.endedMany count, represents.offTag tag⟩
  | offAny =>
    have count : router.offAny.1 = registry.live.countP fun entry => entry.tag = none := by
      rw [← Registry.length_handlesOf, ← represents.wildcard]
      rfl
    exact ⟨congrArg Reply.endedMany count, represents.offAny⟩
  | dispatch events => exact ⟨congrArg Reply.delivered (represents.deliveries events), represents⟩
  | isEmpty => exact ⟨congrArg Reply.isEmpty represents.isEmpty, represents⟩
  | summary => exact ⟨congrArg Reply.summary (represents.summary numbered), represents⟩

/-- The calls of a run get the replies of the registry, however the tables are walked. -/
theorem Represents.replies (represents : router.Represents registry)
    (numbered : registry.WellNumbered) (calls : List (Walk × Call)) :
    router.replies calls = registry.replies (calls.map Prod.snd) := by
  induction calls generalizing router registry with
  | nil => rfl
  | cons first rest ih =>
    obtain ⟨walk, asked⟩ := first
    obtain ⟨reply, kept⟩ := (represents.walked walk).call numbered asked
    rw [List.map_cons, Registry.replies, Router.replies, reply, ih kept (numbered.call asked)]

/-- From the empty router on, every run of calls is answered like one list of subscriptions, in
whatever order the tables of the tags are walked at each call. The handles that it gives out are the
numbers from zero on, so no two are equal and each has one live subscription at most. A handle that
was ended once is not live at any later call. -/
theorem router_refines_registry (calls : List (Walk × Call)) :
    let asked := calls.map Prod.snd
    let replies := empty.replies calls
    let given := replies.filterMap Reply.handle?
    replies = Registry.empty.replies asked ∧
      (given.map Handle.number = List.range given.length ∧ given.Nodup) ∧
      (Registry.empty.after asked).WellNumbered ∧
      ∀ (handle : Handle) (i j : Nat), i < j →
        asked[i]? = some (.off handle) → asked[j]? = some (.off handle) →
        replies[i]? = some (.ended true) → replies[j]? = some (.ended false) := by
  intro asked replies given
  have start := Registry.wellNumbered_empty
  have same : replies = Registry.empty.replies asked := represents_empty.replies start calls
  have numbers : given.map Handle.number = List.range given.length := by
    obtain ⟨count, numbers, -⟩ := Registry.handles_replies .empty asked
    rw [← same] at numbers
    have length := congrArg List.length numbers
    rw [List.length_map, List.length_range'] at length
    rw [numbers, length, List.range_eq_range']
    rfl
  have nodup : given.Nodup := by
    have distinct : (given.map Handle.number).Nodup := numbers ▸ List.nodup_range
    exact distinct.of_map _
  refine ⟨same, ⟨numbers, nodup⟩, start.after asked, fun handle i j before first second => ?_⟩
  rw [same]
  exact start.ended_once before first second

/-- The tables are walked from behind, one of them has become empty, and a handle is ended twice with
a subscription to the same tag in between. -/
theorem router_refines_registry_twice_ended :
    let behind : Walk := ⟨List.reverse, List.reverse_perm⟩
    let asked : List Call :=
      [.on .param, .onAny, .on .name, .off ⟨0⟩, .on .param, .off ⟨0⟩, .offTag .name,
        .dispatch [⟨.param, "x"⟩]]
    let replies := empty.replies (asked.map fun call => (behind, call))
    asked[3]? = some (.off ⟨0⟩) ∧ asked[5]? = some (.off ⟨0⟩) ∧ replies[3]? = some (.ended true) ∧
      replies[5]? = some (.ended false) ∧
      replies =
        [.subscribed ⟨0⟩, .subscribed ⟨1⟩, .subscribed ⟨2⟩, .ended true, .subscribed ⟨3⟩,
          .ended false, .endedMany 1, .delivered [(⟨3⟩, ⟨.param, "x"⟩), (⟨1⟩, ⟨.param, "x"⟩)]] := by
  intro behind asked replies
  obtain ⟨same, -, -, endedOnce⟩ :=
    router_refines_registry (asked.map fun call => (behind, call))
  have first : asked[3]? = some (.off ⟨0⟩) := by decide
  have second : asked[5]? = some (.off ⟨0⟩) := by decide
  have ended : replies[3]? = some (.ended true) := by decide
  refine ⟨first, second, ended, ?_, ?_⟩
  · exact endedOnce ⟨0⟩ 3 5 (by decide) first second ended
  · exact same.trans (by decide)

end DocCatalog.Router
