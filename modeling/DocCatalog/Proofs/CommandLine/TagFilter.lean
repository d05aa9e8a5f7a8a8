import Mathlib.Data.List.Dedup
import Mathlib.Data.List.Flatten
import DocCatalog.CommandLine.Run
import DocCatalog.Proofs.Router.Refinement
import DocCatalog.Proofs.Source.Lexer

/-!
# The events of some tags

A listing of events makes one subscription for each tag name of the command line and prints an event
at every turn that a subscriber has with it. So a name that stands twice prints its events twice: the
listing is the filter by the names exactly when every event has one turn at most.

Results:
1. `Registry.length_turns_subscribeAll`: each subscription to the tag of an event is one more turn.
2. `Router.Represents.map_snd_deliveries`: a router hands out an event once for each of its turns.
3. `selectEvents_eq_shown`: the subscriptions of a listing show every event as often as it is asked
   for.
4. `listing_shown_eq_iff`: the text of a listing tells how often its events are shown.
5. `run_events_eq_shown`: all of this for a run of the command.
-/

namespace DocCatalog

/-! ## Turns -/

namespace Registry

/-- Subscribes to one tag after the other. -/
def subscribeAll (registry : Registry) (tags : List Tag) : Registry :=
  tags.foldl (fun registry tag => (registry.subscribe (some tag)).2) registry

theorem length_turns_subscribe (registry : Registry) (tag : Tag) (event : Event) :
    ((registry.subscribe (some tag)).2.turns event).length =
      (registry.turns event).length + if tag = event.tag then 1 else 0 := by
  rw [turns, turns, handlesOf_subscribe, handlesOf_subscribe]
  by_cases same : tag = event.tag
  · simp only [same, if_true, List.length_append, List.length_singleton, reduceCtorEq, if_false,
      List.append_nil]
    omega
  · simp [same]

theorem length_turns_subscribeAll (registry : Registry) (tags : List Tag) (event : Event) :
    ((registry.subscribeAll tags).turns event).length =
      (registry.turns event).length + tags.count event.tag := by
  induction tags generalizing registry with
  | nil => rfl
  | cons tag rest ih =>
    have first := registry.length_turns_subscribe tag event
    have others := ih (registry.subscribe (some tag)).2
    rw [subscribeAll, List.foldl_cons, ← subscribeAll, others, first, List.count_cons]
    simp only [beq_iff_eq]
    omega

end Registry

namespace Router

variable {router : Router} {registry : Registry}

theorem Represents.onAll (represents : router.Represents registry) (names : List String) :
    (names.foldl (fun router name => (router.on (Tag.ofName name)).2) router).Represents
      (registry.subscribeAll (names.map Tag.ofName)) := by
  induction names generalizing router registry with
  | nil => exact represents
  | cons name rest ih => exact ih (represents.on (Tag.ofName name)).2

/-- An event is handed out once for each of its turns. -/
theorem Represents.map_snd_deliveries (represents : router.Represents registry)
    (events : List Event) :
    (router.deliveries events).map Prod.snd =
      events.flatMap fun event => List.replicate (registry.turns event).length event := by
  rw [represents.deliveries, List.map_flatMap]
  refine congrArg (events.flatMap ·) (funext fun event => ?_)
  rw [List.map_map]
  exact List.map_const'

end Router

namespace CommandLine

/-! ## How often an event is asked for -/

/-- Whether a listing is asked for an event: its tag is named, or no tag is. -/
def Asked (names : List String) (event : Event) : Prop :=
  names = [] ∨ event.tag ∈ names.map Tag.ofName

instance (names : List String) (event : Event) : Decidable (Asked names event) :=
  inferInstanceAs (Decidable (_ ∨ _))

/-- How often a listing is asked for an event. -/
def timesAsked (names : List String) (event : Event) : Nat :=
  if names = [] then 1 else (names.map Tag.ofName).count event.tag

/-- Every event as often as a listing is asked for it, in the order of the events. -/
def shown (names : List String) (events : List Event) : List Event :=
  events.flatMap fun event => List.replicate (timesAsked names event) event

theorem timesAsked_pos_iff {names : List String} {event : Event} :
    0 < timesAsked names event ↔ Asked names event := by
  unfold timesAsked Asked
  by_cases all : names = []
  · simp [all]
  · simp only [all, if_false, false_or]
    exact List.count_pos_iff

/-- Different names are different tags, so a list without repetition asks for an event once. -/
theorem timesAsked_le_one {names : List String} (nodup : names.Nodup) (event : Event) :
    timesAsked names event ≤ 1 := by
  unfold timesAsked
  split
  case isTrue => exact Nat.le_refl 1
  case isFalse =>
    have distinct : (names.map Tag.ofName).Nodup := nodup.map fun _ _ => Tag.ofName_injective
    exact List.nodup_iff_count_le_one.1 distinct event.tag

theorem asked_dedup (names : List String) (event : Event) :
    Asked names.dedup event ↔ Asked names event := by
  simp only [Asked, List.dedup_eq_nil, List.mem_map, List.mem_dedup]

theorem shown_cons (names : List String) (event : Event) (events : List Event) :
    shown names (event :: events) =
      List.replicate (timesAsked names event) event ++ shown names events :=
  List.flatMap_cons

/-- The filter, when no event is asked for twice. -/
theorem shown_eq_filter {names : List String} {events : List Event}
    (once : ∀ event ∈ events, timesAsked names event ≤ 1) :
    shown names events = events.filter fun event => Asked names event := by
  induction events with
  | nil => rfl
  | cons event rest ih =>
    obtain ⟨first, others⟩ := List.forall_mem_cons.1 once
    rw [shown_cons, ih others]
    by_cases asked : Asked names event
    · have times : timesAsked names event = 1 :=
        Nat.le_antisymm first (timesAsked_pos_iff.2 asked)
      simp [asked, times]
    · have times : timesAsked names event = 0 :=
        Nat.eq_zero_of_not_pos fun positive => asked (timesAsked_pos_iff.1 positive)
      simp [asked, times]

theorem shown_nil (events : List Event) : shown [] events = events := by
  rw [shown_eq_filter fun event _ => timesAsked_le_one List.nodup_nil event]
  exact List.filter_eq_self.2 fun event _ => decide_eq_true (.inl rfl)

/-! ## What the subscriptions show -/

theorem represents_subscriptions_nil :
    (subscriptions []).Represents (Registry.empty.subscribe none).2 :=
  Router.represents_empty.onAny.2

theorem represents_subscriptions_cons (name : String) (names : List String) :
    (subscriptions (name :: names)).Represents
      (Registry.empty.subscribeAll ((name :: names).map Tag.ofName)) :=
  Router.represents_empty.onAll (name :: names)

theorem selectEvents_eq_shown (names : List String) (events : List Event) :
    selectEvents names events = shown names events := by
  unfold selectEvents shown
  cases names with
  | nil => exact represents_subscriptions_nil.map_snd_deliveries events
  | cons name rest =>
    rw [(represents_subscriptions_cons name rest).map_snd_deliveries]
    refine congrArg (events.flatMap ·) (funext fun event => ?_)
    rw [Registry.length_turns_subscribeAll, timesAsked, if_neg (List.cons_ne_nil name rest)]
    exact congrArg (List.replicate · event) (Nat.zero_add _)

theorem eventsText_eq_shown (config : Config) (names : List String) :
    eventsText config names = fun source =>
      Event.listing (shown names (Source.events config.marker source)) :=
  funext fun _ => congrArg Event.listing (selectEvents_eq_shown names _)

/-! ## What the text tells -/

theorem length_line_pos (event : Event) : 0 < event.line.length := by
  rw [Event.line, List.length_append]
  exact Nat.lt_add_left _ Nat.zero_lt_one

/-- No event has an empty line, so a listing with events left out is shorter. -/
theorem eq_of_listing_eq {part whole : List Event} (within : part.Sublist whole)
    (same : Event.listing part = Event.listing whole) : part = whole := by
  have lines : part.flatMap Event.line = whole.flatMap Event.line := String.ofList_injective same
  clear same
  induction within with
  | slnil => rfl
  | @cons part whole event within _ =>
    have shorter := (within.flatMap Event.line).length_le
    have longer := congrArg List.length lines
    rw [List.flatMap_cons, List.length_append] at longer
    have := length_line_pos event
    omega
  | cons_cons event _ ih =>
    rw [List.flatMap_cons, List.flatMap_cons] at lines
    rw [ih (List.append_cancel_left lines)]

theorem filter_sublist_shown (names : List String) (events : List Event) :
    (events.filter fun event => Asked names event).Sublist (shown names events) := by
  induction events with
  | nil => exact List.Sublist.slnil
  | cons event rest ih =>
    rw [shown_cons, List.filter_cons]
    split
    case isTrue asked =>
      have positive := timesAsked_pos_iff.2 (of_decide_eq_true asked)
      have first : event ∈ List.replicate (timesAsked names event) event :=
        List.mem_replicate.2 ⟨Nat.pos_iff_ne_zero.1 positive, rfl⟩
      exact (List.singleton_sublist.2 first).append ih
    case isFalse => exact ih.trans (List.sublist_append_right _ _)

theorem count_shown (names : List String) (events : List Event) (event : Event) :
    (shown names events).count event = timesAsked names event * events.count event := by
  induction events with
  | nil => rfl
  | cons first rest ih =>
    rw [shown_cons, List.count_append, ih, List.count_replicate, List.count_cons]
    by_cases same : first = event
    · simp only [same, beq_self_eq_true, if_true, Nat.mul_succ, Nat.add_comm]
    · simp [same]

theorem listing_shown_eq_iff (names : List String) (events : List Event) :
    Event.listing (shown names events) =
        Event.listing (events.filter fun event => Asked names event) ↔
      ∀ event ∈ events, timesAsked names event ≤ 1 := by
  constructor
  · intro same event member
    have filtered := eq_of_listing_eq (filter_sublist_shown names events) same.symm
    have copies : timesAsked names event * events.count event ≤ 1 * events.count event := by
      rw [← count_shown, ← filtered, Nat.one_mul]
      exact List.filter_sublist.count_le event
    exact Nat.le_of_mul_le_mul_right copies (List.count_pos_iff.2 member)
  · exact fun once => congrArg Event.listing (shown_eq_filter once)

/-! ## Runs of the command -/

variable {m : Type → Type} [Monad m]

/-- A run prints the events of the sources in their order, each as often as its tag is named, or once
when no tag is. This is the filter by the names exactly when no event is asked for twice, so always
when the repetitions of names are left out. -/
theorem run_events_eq_shown (host : Host m) (coloured : Bool) (paths names : List String)
    (marker : Option Char) (path : Option String) :
    (Command.events paths names marker path).run host coloured = (do
        printSources host (← settings host path marker) paths fun config source =>
          Event.listing (shown names (Source.events config.marker source))) ∧
      ∀ events,
        (Event.listing (shown names events) =
            Event.listing (events.filter fun event => Asked names event) ↔
          ∀ event ∈ events, timesAsked names event ≤ 1) ∧
        shown names.dedup events = events.filter (fun event => Asked names event) ∧
        shown [] events = events := by
  refine ⟨?_, fun events => ⟨listing_shown_eq_iff names events, ?_, shown_nil events⟩⟩
  · simp only [Command.run, eventsText_eq_shown]
  · rw [shown_eq_filter fun event _ => timesAsked_le_one names.nodup_dedup event]
    simp only [asked_dedup]

/-- A name that is given twice prints its event twice. -/
theorem eventsText_name_twice :
    eventsText {} ["name", "name"] "/** @name a */" ≠
      Event.listing ((Source.events '@' "/** @name a */").filter fun event =>
        Asked ["name", "name"] event) := by
  intro same
  rw [eventsText_eq_shown] at same
  have once := (listing_shown_eq_iff _ _).1 same ⟨.name, "a"⟩
  have member : (⟨.name, "a"⟩ : Event) ∈ Source.events '@' "/** @name a */" := by
    rw [Source.events, Source.comments, Source.bodies_eq_read]
    decide
  exact absurd (once member) (by decide)

end CommandLine

end DocCatalog
