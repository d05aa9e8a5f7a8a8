import Mathlib.Data.List.Nodup
import DocCatalog.Router

/-!
# Subscriptions as one list

A registry is the plain reading of what is asked of a router. It keeps the live subscriptions in one
list, in the order in which they were made, and every call is a filter of this list. A subscription
gets the number of those made before it as its handle.

Results:
1. `WellNumbered.call`: the handles of the live subscriptions ascend, and the next one is larger.
   So a handle has one subscription at most (`WellNumbered.tag_unique`).
2. `handles_replies`: the handles that a run gives out are the numbers from zero on.
3. `Spent.call`: a handle that was given out and ended is never live again.
-/

namespace DocCatalog

/-! ## Calls -/

/-- What can be asked of a router. -/
inductive Router.Call where
  | on (tag : Tag)
  | onAny
  | off (handle : Handle)
  | offTag (tag : Tag)
  | offAny
  /-- Sends a run of events, one after the other. -/
  | dispatch (events : List Event)
  | isEmpty
  | summary
deriving DecidableEq, Repr

/-- What is answered. -/
inductive Router.Reply where
  | subscribed (handle : Handle)
  | ended (wasLive : Bool)
  | endedMany (count : Nat)
  | delivered (turns : List (Handle × Event))
  | isEmpty (empty : Bool)
  | summary (text : String)
deriving DecidableEq, Repr

/-- The handle of the subscription that a reply reports. -/
def Router.Reply.handle? : Reply → Option Handle
  | subscribed handle => some handle
  | ended _ | endedMany _ | delivered _ | isEmpty _ | summary _ => none

/-! ## The plain reading -/

/-- A live subscription, to one tag or to every event. -/
structure Subscription where
  handle : Handle
  tag : Option Tag
deriving DecidableEq, Repr

structure Registry where
  /-- How many subscriptions were ever made. -/
  made : Nat
  /-- The live subscriptions in the order in which they were made. -/
  live : List Subscription
deriving DecidableEq, Repr

namespace Registry

def empty : Registry := ⟨0, []⟩

/-- The handles of the live subscriptions to a tag, or of those to every event. -/
def handlesOf (registry : Registry) (tag : Option Tag) : List Handle :=
  (registry.live.filter fun entry => entry.tag = tag).map Subscription.handle

def subscribe (registry : Registry) (tag : Option Tag) : Handle × Registry :=
  (⟨registry.made⟩, ⟨registry.made + 1, registry.live ++ [⟨⟨registry.made⟩, tag⟩]⟩)

def isLive (registry : Registry) (handle : Handle) : Bool :=
  registry.live.any fun entry => entry.handle = handle

/-- Ends the subscription with a handle. -/
def endHandle (registry : Registry) (handle : Handle) : Registry :=
  { registry with live := registry.live.filter fun entry => entry.handle ≠ handle }

/-- Ends the subscriptions to a tag, or those to every event. -/
def endTag (registry : Registry) (tag : Option Tag) : Registry :=
  { registry with live := registry.live.filter fun entry => entry.tag ≠ tag }

/-- The subscriptions to the tag of an event have their turns first, then those to every event. -/
def turns (registry : Registry) (event : Event) : List Handle :=
  registry.handlesOf (some event.tag) ++ registry.handlesOf none

def summary (registry : Registry) : String :=
  let tagged := registry.live.countP fun entry => entry.tag.isSome
  let wildcard := registry.live.countP fun entry => entry.tag = none
  s!"Dispatcher \x7b tagged_handlers: {tagged}, wildcard_handlers: {wildcard} \x7d"

def call (registry : Registry) : Router.Call → Router.Reply × Registry
  | .on tag => (registry.subscribe (some tag)).map .subscribed id
  | .onAny => (registry.subscribe none).map .subscribed id
  | .off handle => (.ended (registry.isLive handle), registry.endHandle handle)
  | .offTag tag =>
    (.endedMany (registry.live.countP fun entry => entry.tag = some tag),
      registry.endTag (some tag))
  | .offAny =>
    (.endedMany (registry.live.countP fun entry => entry.tag = none), registry.endTag none)
  | .dispatch events =>
    (.delivered (events.flatMap fun event =>
      (registry.turns event).map fun handle => (handle, event)), registry)
  | .isEmpty => (.isEmpty registry.live.isEmpty, registry)
  | .summary => (.summary registry.summary, registry)

/-- What calls that are made one after the other leave. -/
def after (registry : Registry) (calls : List Router.Call) : Registry :=
  calls.foldl (fun registry call => (registry.call call).2) registry

def replies (registry : Registry) : List Router.Call → List Router.Reply
  | [] => []
  | call :: rest => (registry.call call).1 :: replies (registry.call call).2 rest

/-! ## Handles -/

/-- The handles ascend with the order of the subscriptions, and the next handle is free. -/
structure WellNumbered (registry : Registry) : Prop where
  ascending : registry.live.Pairwise fun first second =>
    first.handle.number < second.handle.number
  below : ∀ entry ∈ registry.live, entry.handle.number < registry.made

theorem wellNumbered_empty : empty.WellNumbered where
  ascending := List.Pairwise.nil
  below _ member := absurd member List.not_mem_nil

variable {registry : Registry}

theorem WellNumbered.filter (numbered : registry.WellNumbered) (keep : Subscription → Bool) :
    WellNumbered { registry with live := registry.live.filter keep } where
  ascending := numbered.ascending.filter keep
  below entry member := numbered.below entry (List.mem_of_mem_filter member)

theorem WellNumbered.subscribe (numbered : registry.WellNumbered) (tag : Option Tag) :
    (registry.subscribe tag).2.WellNumbered where
  ascending := by
    refine List.pairwise_append.2 ⟨numbered.ascending, List.pairwise_singleton _ _, ?_⟩
    intro first member second isNew
    rw [List.mem_singleton.1 isNew]
    exact numbered.below first member
  below entry member := by
    rcases List.mem_append.1 member with old | new
    · exact Nat.lt_succ_of_lt (numbered.below entry old)
    · rw [List.mem_singleton.1 new]
      exact Nat.lt_succ_self _

theorem WellNumbered.call (numbered : registry.WellNumbered) (call : Router.Call) :
    (registry.call call).2.WellNumbered := by
  cases call with
  | on tag => exact numbered.subscribe (some tag)
  | onAny => exact numbered.subscribe none
  | off handle => exact numbered.filter _
  | offTag tag => exact numbered.filter _
  | offAny => exact numbered.filter _
  | dispatch _ | isEmpty | summary => exact numbered

theorem WellNumbered.nodup_handles (numbered : registry.WellNumbered) :
    (registry.live.map Subscription.handle).Nodup := by
  refine List.pairwise_map.2 (numbered.ascending.imp fun {first second} less equal => ?_)
  rw [equal] at less
  exact Nat.lt_irrefl _ less

theorem WellNumbered.nodup_handlesOf (numbered : registry.WellNumbered) (tag : Option Tag) :
    (registry.handlesOf tag).Nodup :=
  numbered.nodup_handles.sublist (List.filter_sublist.map _)

theorem mem_handlesOf {handle : Handle} {tag : Option Tag} :
    handle ∈ registry.handlesOf tag ↔ ⟨handle, tag⟩ ∈ registry.live := by
  simp only [handlesOf, List.mem_map, List.mem_filter, decide_eq_true_eq]
  constructor
  · rintro ⟨⟨_, _⟩, ⟨member, rfl⟩, rfl⟩
    exact member
  · intro member
    exact ⟨_, ⟨member, rfl⟩, rfl⟩

/-- A handle has one subscription, so it is for one tag. -/
theorem WellNumbered.tag_unique (numbered : registry.WellNumbered) {handle : Handle}
    {tag other : Option Tag} (here : handle ∈ registry.handlesOf tag)
    (there : handle ∈ registry.handlesOf other) : tag = other := by
  have same : (⟨handle, tag⟩ : Subscription) = ⟨handle, other⟩ :=
    List.inj_on_of_nodup_map numbered.nodup_handles (mem_handlesOf.1 here) (mem_handlesOf.1 there)
      rfl
  exact congrArg Subscription.tag same

theorem isLive_iff {handle : Handle} :
    registry.isLive handle = true ↔ ∃ tag, handle ∈ registry.handlesOf tag := by
  simp only [isLive, List.any_eq_true, decide_eq_true_eq, mem_handlesOf]
  constructor
  · rintro ⟨⟨_, tag⟩, member, rfl⟩
    exact ⟨tag, member⟩
  · rintro ⟨tag, member⟩
    exact ⟨_, member, rfl⟩

/-! ## What is live for a tag -/

theorem length_handlesOf (registry : Registry) (tag : Option Tag) :
    (registry.handlesOf tag).length = registry.live.countP fun entry => entry.tag = tag := by
  rw [handlesOf, List.length_map, List.countP_eq_length_filter]

theorem handlesOf_subscribe (registry : Registry) (tag other : Option Tag) :
    (registry.subscribe tag).2.handlesOf other =
      registry.handlesOf other ++ if tag = other then [⟨registry.made⟩] else [] := by
  by_cases same : tag = other <;> simp [handlesOf, subscribe, same]

theorem WellNumbered.handlesOf_endHandle (numbered : registry.WellNumbered) (handle : Handle)
    (tag : Option Tag) :
    (registry.endHandle handle).handlesOf tag = (registry.handlesOf tag).erase handle := by
  rw [(numbered.nodup_handlesOf tag).erase_eq_filter, handlesOf, handlesOf, List.filter_map,
    endHandle, List.filter_filter, List.filter_filter]
  refine congrArg _ (List.filter_congr fun entry _ => ?_)
  rw [Bool.eq_iff_iff]
  simp [and_comm]

theorem handlesOf_endTag (registry : Registry) (tag other : Option Tag) :
    (registry.endTag tag).handlesOf other = if other = tag then [] else registry.handlesOf other := by
  rw [handlesOf, endTag, List.filter_filter]
  by_cases same : other = tag
  · subst same
    simp
  · rw [if_neg same, handlesOf]
    refine congrArg _ (List.filter_congr fun entry _ => ?_)
    by_cases found : entry.tag = other <;> simp [found, same]

theorem live_eq_nil_iff : registry.live = [] ↔ ∀ tag, registry.handlesOf tag = [] := by
  constructor
  · intro none tag
    rw [handlesOf, none]
    rfl
  · intro none
    refine List.eq_nil_iff_forall_not_mem.2 fun entry member => ?_
    have here : entry.handle ∈ registry.handlesOf entry.tag := mem_handlesOf.2 member
    rw [none entry.tag] at here
    exact List.not_mem_nil here

/-! ## Runs -/

theorem WellNumbered.after (numbered : registry.WellNumbered) (calls : List Router.Call) :
    (registry.after calls).WellNumbered := by
  induction calls generalizing registry with
  | nil => exact numbered
  | cons call rest ih => exact ih (numbered.call call)

/-- A reply is that of the registry which the calls before it have left. -/
theorem getElem?_replies (registry : Registry) (calls : List Router.Call) (i : Nat) :
    (registry.replies calls)[i]? =
      calls[i]?.map fun call => ((registry.after (calls.take i)).call call).1 := by
  induction calls generalizing registry i with
  | nil => rfl
  | cons call rest ih =>
    cases i with
    | zero => rfl
    | succ i => exact ih (registry.call call).2 i

/-- A subscription takes the next number, and no other call takes one. -/
theorem handle?_call (registry : Registry) (call : Router.Call) :
    ∃ count, (registry.call call).1.handle?.toList.map Handle.number =
        List.range' registry.made count ∧
      (registry.call call).2.made = registry.made + count := by
  cases call with
  | on tag => exact ⟨1, rfl, rfl⟩
  | onAny => exact ⟨1, rfl, rfl⟩
  | off _ | offTag _ | offAny | dispatch _ | isEmpty | summary => exact ⟨0, rfl, rfl⟩

/-- The handles that a run gives out are the next numbers in their order. -/
theorem handles_replies (registry : Registry) (calls : List Router.Call) :
    ∃ count, ((registry.replies calls).filterMap Router.Reply.handle?).map Handle.number =
        List.range' registry.made count ∧
      (registry.after calls).made = registry.made + count := by
  induction calls generalizing registry with
  | nil => exact ⟨0, rfl, rfl⟩
  | cons call rest ih =>
    obtain ⟨first, given, grown⟩ := handle?_call registry call
    obtain ⟨others, givenLater, grownLater⟩ := ih (registry.call call).2
    refine ⟨first + others, ?_, ?_⟩
    · rw [grown] at givenLater
      rw [List.filterMap_eq_flatMap_toList] at givenLater ⊢
      rw [replies, List.flatMap_cons, List.map_append, given, givenLater, List.range'_append_1]
    · have last : (registry.after (call :: rest)).made =
          ((registry.call call).2.after rest).made := rfl
      rw [last, grownLater, grown, Nat.add_assoc]

/-- A handle that was given out and has no live subscription. -/
structure Spent (handle : Handle) (registry : Registry) : Prop where
  given : handle.number < registry.made
  ended : ∀ entry ∈ registry.live, entry.handle ≠ handle

section Spent

variable {handle : Handle}

theorem Spent.filter (spent : registry.Spent handle) (keep : Subscription → Bool) :
    Spent handle { registry with live := registry.live.filter keep } where
  given := spent.given
  ended entry member := spent.ended entry (List.mem_of_mem_filter member)

theorem Spent.subscribe (spent : registry.Spent handle) (tag : Option Tag) :
    Spent handle (registry.subscribe tag).2 where
  given := Nat.lt_succ_of_lt spent.given
  ended entry member := by
    rcases List.mem_append.1 member with old | new
    · exact spent.ended entry old
    · rw [List.mem_singleton.1 new]
      intro equal
      have number : registry.made = handle.number := congrArg Handle.number equal
      exact Nat.ne_of_gt spent.given number

theorem Spent.call (spent : registry.Spent handle) (call : Router.Call) :
    Spent handle (registry.call call).2 := by
  cases call with
  | on tag => exact spent.subscribe (some tag)
  | onAny => exact spent.subscribe none
  | off _ | offTag _ | offAny => exact spent.filter _
  | dispatch _ | isEmpty | summary => exact spent

theorem Spent.after (spent : registry.Spent handle) (calls : List Router.Call) :
    Spent handle (registry.after calls) := by
  induction calls generalizing registry with
  | nil => exact spent
  | cons call rest ih => exact ih (spent.call call)

theorem Spent.isLive_eq_false (spent : registry.Spent handle) :
    registry.isLive handle = false := by
  refine List.any_eq_false.2 fun entry member => ?_
  simpa using spent.ended entry member

/-- Ending a live subscription spends its handle. -/
theorem WellNumbered.spent_endHandle (numbered : registry.WellNumbered)
    (live : registry.isLive handle = true) : Spent handle (registry.endHandle handle) := by
  obtain ⟨tag, member⟩ := isLive_iff.1 live
  refine ⟨numbered.below _ (mem_handlesOf.1 member), fun entry kept => ?_⟩
  simpa using (List.mem_filter.1 kept).2

/-- A handle that was ended once is not live at any later call. -/
theorem WellNumbered.ended_once (numbered : registry.WellNumbered) {calls : List Router.Call}
    {i j : Nat} (before : i < j) (first : calls[i]? = some (.off handle))
    (second : calls[j]? = some (.off handle))
    (ended : (registry.replies calls)[i]? = some (.ended true)) :
    (registry.replies calls)[j]? = some (.ended false) := by
  rw [getElem?_replies, first] at ended
  have live : (registry.after (calls.take i)).isLive handle = true := by
    simpa [Registry.call] using ended
  have spent := (numbered.after (calls.take i)).spent_endHandle live
  obtain ⟨inside, isFirst⟩ := List.getElem?_eq_some_iff.1 first
  obtain ⟨k, rfl⟩ := Nat.exists_eq_add_of_lt before
  have between : calls.take (i + k + 1) =
      calls.take i ++ .off handle :: (calls.drop (i + 1)).take k := by
    rw [Nat.add_assoc, List.take_add, List.drop_eq_getElem_cons inside, isFirst,
      List.take_succ_cons]
  have later : registry.after (calls.take (i + k + 1)) =
      ((registry.after (calls.take i)).endHandle handle).after ((calls.drop (i + 1)).take k) := by
    rw [between, Registry.after, List.foldl_append]
    rfl
  rw [getElem?_replies, second, later, Option.map_some, Registry.call,
    (spent.after _).isLive_eq_false]

end Spent

end Registry

end DocCatalog
