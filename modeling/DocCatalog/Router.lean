import DocCatalog.Event

/-!
# Routing events to subscribers

A router keeps subscriptions to one tag or to every event, in the order in which they were made. An
event goes to the subscribers of its tag first and then to those of every event. A subscriber is a
handle; what it does with an event is up to whoever made the subscription, so `receivers` only tells
whose turn it is.
-/

namespace DocCatalog

/-- Names one subscription; no two subscriptions of a router share a handle. -/
structure Handle where
  number : Nat
deriving DecidableEq, Repr

/-- The handle as it is shown. -/
def Handle.text (handle : Handle) : String :=
  s!"HandlerId({handle.number})"

structure Router where
  /-- The handle of the next subscription. -/
  next : Nat
  /-- The subscribers of each tag. -/
  tagged : List (Tag × List Handle)
  /-- The subscribers of every event. -/
  wildcard : List Handle
deriving Repr

namespace Router

def empty : Router := ⟨0, [], []⟩

/-- The subscribers of a tag. -/
def subscribers (router : Router) (tag : Tag) : List Handle :=
  (router.tagged.lookup tag).getD []

/-- Adds a handle to the subscribers of a tag. -/
def addTagged (tag : Tag) (handle : Handle) : List (Tag × List Handle) → List (Tag × List Handle)
  | [] => [(tag, [handle])]
  | (other, handles) :: rest =>
    if other = tag then (other, handles ++ [handle]) :: rest
    else (other, handles) :: addTagged tag handle rest

/-- Subscribes to one tag. -/
def on (tag : Tag) (router : Router) : Handle × Router :=
  let handle := ⟨router.next⟩
  (handle, { router with next := router.next + 1, tagged := addTagged tag handle router.tagged })

/-- Subscribes to every event. -/
def onAny (router : Router) : Handle × Router :=
  let handle := ⟨router.next⟩
  (handle, { router with next := router.next + 1, wildcard := router.wildcard ++ [handle] })

/-- Removes a handle from the first list that holds it; there is no result when none does. -/
def dropTagged? (handle : Handle) :
    List (Tag × List Handle) → Option (List (Tag × List Handle))
  | [] => none
  | (tag, handles) :: rest =>
    if handle ∈ handles then some ((tag, handles.erase handle) :: rest)
    else (dropTagged? handle rest).map ((tag, handles) :: ·)

/-- Ends one subscription and tells whether it was live. The subscribers of every event are searched
first, then those of the tags until the handle is found. -/
def off (handle : Handle) (router : Router) : Bool × Router :=
  if handle ∈ router.wildcard then
    (true, { router with wildcard := router.wildcard.erase handle })
  else
    match dropTagged? handle router.tagged with
    | some tagged => (true, { router with tagged })
    | none => (false, router)

/-- Ends the subscriptions to a tag and tells how many there were. -/
def offTag (tag : Tag) (router : Router) : Nat × Router :=
  ((router.subscribers tag).length,
    { router with tagged := router.tagged.filter fun entry => entry.1 ≠ tag })

/-- Ends the subscriptions to every event and tells how many there were. -/
def offAny (router : Router) : Nat × Router :=
  (router.wildcard.length, { router with wildcard := [] })

/-- Whether no subscription is live. -/
def isEmpty (router : Router) : Bool :=
  router.wildcard.isEmpty && router.tagged.all fun entry => entry.2.isEmpty

/-- Who gets an event, in the order of their turns. -/
def receivers (router : Router) (event : Event) : List Handle :=
  router.subscribers event.tag ++ router.wildcard

/-- Who gets which event of a run, in the order of the turns. -/
def deliveries (router : Router) (events : List Event) : List (Handle × Event) :=
  events.flatMap fun event => (router.receivers event).map fun handle => (handle, event)

/-- The number of subscriptions to single tags. -/
def taggedCount (router : Router) : Nat :=
  (router.tagged.flatMap Prod.snd).length

/-- The numbers of live subscriptions, as they are shown. -/
def summary (router : Router) : String :=
  let tagged := router.taggedCount
  let wildcard := router.wildcard.length
  s!"Dispatcher \x7b tagged_handlers: {tagged}, wildcard_handlers: {wildcard} \x7d"

end Router

end DocCatalog
