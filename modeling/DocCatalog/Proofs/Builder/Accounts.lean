import Mathlib.Data.List.Induction
import DocCatalog.Proofs.Builder.Transition
import DocCatalog.Proofs.Namespace.Conservation
import DocCatalog.Proofs.Source.Brackets

/-!
# No record is lost, doubled or half stored

A closing event that finds an open record either commits it or discards it, and counts it once. The
catalog holds the committed ones.

Results:
1. `isOpen_iff`, `endings`: when a record is open, and how many closing events found one, said by
   the events alone.
2. `settlement_step`: what one event does to the counters and to the catalog.
3. `Accounts.step`, `accounts_run`: the counters and the size of the catalog after every run.
4. `endings_events`: in the events of a source text every comment ends one record.
5. `accounts_balance`: the counters and the catalog, after every run and for every source text.
-/

namespace DocCatalog

/-! ## Runs of events -/

/-- Whether an opening event came since the last closing one. -/
def isOpen (events : List Event) : Bool :=
  (events.reverse.takeWhile fun event => !isClosing event).any isOpening

/-- How many closing events came while a record was open. -/
def endings (events : List Event) : Nat :=
  (List.range events.length).countP fun i =>
    isOpen (events.take i) && events[i]?.any isClosing

theorem isOpen_append_singleton (events : List Event) (event : Event) :
    isOpen (events ++ [event]) = (!isClosing event && (isOpening event || isOpen events)) := by
  cases closing : isClosing event <;> simp [isOpen, closing]

theorem endings_append_singleton (events : List Event) (event : Event) :
    endings (events ++ [event]) =
      endings events + if isOpen events && isClosing event then 1 else 0 := by
  have before : (List.range events.length).countP (fun i =>
        isOpen ((events ++ [event]).take i) && (events ++ [event])[i]?.any isClosing) =
      endings events := by
    refine List.countP_congr fun i member => ?_
    have inside : i < events.length := List.mem_range.1 member
    rw [List.take_append_of_le_length (Nat.le_of_lt inside), List.getElem?_append_left inside]
  rw [endings, List.length_append, List.length_singleton, List.range_succ, List.countP_append,
    before]
  simp [List.countP_singleton]

theorem not_closing_of_opening {event : Event} (opens : isOpening event = true) :
    isClosing event = false := by
  simp only [isOpening, decide_eq_true_eq] at opens
  simp [isClosing, opens]

theorem endings_append_of_ends {events : List Event} {event : Event}
    (ends : event.tag = .closing ∧ isOpen events = true) :
    endings (events ++ [event]) = endings events + 1 := by
  rw [endings_append_singleton]
  simp [isClosing, ends]

theorem endings_append_of_not_ends {events : List Event} {event : Event}
    (notEnds : ¬ (event.tag = .closing ∧ isOpen events = true)) :
    endings (events ++ [event]) = endings events := by
  have none : (isOpen events && isClosing event) = false := by
    rw [Bool.eq_false_iff]
    intro both
    simp only [isClosing, Bool.and_eq_true, decide_eq_true_eq] at both
    exact notEnds both.symm
  rw [endings_append_singleton, none]
  rfl

theorem isOpen_append {first second : List Event} {opening : Event}
    (opens : isOpening opening = true) (plain : ∀ event ∈ second, isClosing event = false) :
    isOpen (first ++ opening :: second) = true := by
  induction second using List.reverseRecOn with
  | nil => simp [isOpen_append_singleton, opens, not_closing_of_opening opens]
  | append_singleton rest event ih =>
    obtain ⟨restPlain, lastPlain⟩ := List.forall_mem_append.1 plain
    have last : isClosing event = false := lastPlain event List.mem_cons_self
    rw [← List.cons_append, ← List.append_assoc, isOpen_append_singleton, ih restPlain, last]
    simp

theorem isOpen_iff {events : List Event} :
    isOpen events = true ↔
      ∃ before opening after, events = before ++ opening :: after ∧ isOpening opening = true ∧
        ∀ later ∈ after, isClosing later = false := by
  constructor
  · induction events using List.reverseRecOn with
    | nil => simp [isOpen]
    | append_singleton rest event ih =>
      intro found
      simp only [isOpen_append_singleton, Bool.and_eq_true, Bool.not_eq_true', Bool.or_eq_true]
        at found
      obtain ⟨notClosing, opens | before⟩ := found
      · exact ⟨rest, event, [], rfl, opens, by simp⟩
      · obtain ⟨first, opening, second, rfl, opens, plain⟩ := ih before
        have last : ∀ later ∈ [event], isClosing later = false :=
          List.forall_mem_singleton.2 notClosing
        exact ⟨first, opening, second ++ [event], by simp, opens,
          List.forall_mem_append.2 ⟨plain, last⟩⟩
  · rintro ⟨first, opening, second, rfl, opens, plain⟩
    exact isOpen_append opens plain

theorem endings_append {first second : List Event}
    (plain : ∀ event ∈ second, isClosing event = false) :
    endings (first ++ second) = endings first := by
  induction second using List.reverseRecOn with
  | nil => simp
  | append_singleton rest event ih =>
    obtain ⟨restPlain, lastPlain⟩ := List.forall_mem_append.1 plain
    have last : isClosing event = false := lastPlain event List.mem_cons_self
    rw [← List.append_assoc, endings_append_singleton, ih restPlain, last]
    simp

/-! ## The counters of a run -/

namespace Builder

theorem isSome_current_step (builder : Builder) (event : Event) :
    (builder.step event).current.isSome =
      (!isClosing event && (isOpening event || builder.current.isSome)) := by
  rw [current_step]
  split
  case h_1 opening => simp [isClosing, isOpening, opening]
  case h_2 closing => simp [isClosing, closing]
  case h_3 scope => simp [isClosing, isOpening, scope]
  case h_4 tag notOpening notClosing _ =>
    have plainOpening : isOpening event = false := decide_eq_false notOpening
    have plainClosing : isClosing event = false := decide_eq_false notClosing
    rw [Option.isSome_map, plainOpening, plainClosing]
    rfl

/-- What one more event does to the counters and to the catalog; `ends` tells whether it is a
closing event that finds an open record. -/
inductive Settlement (ends : Prop) (builder next : Builder) : Prop
  | commits (record : Record) :
      ends → next.committed = builder.committed + 1 → next.discarded = builder.discarded →
      next.catalog.records.Perm (builder.catalog.records ++ [record]) →
      Settlement ends builder next
  | discards :
      ends → next.committed = builder.committed → next.discarded = builder.discarded + 1 →
      next.catalog = builder.catalog → Settlement ends builder next
  | keeps :
      ¬ ends → next.committed = builder.committed → next.discarded = builder.discarded →
      next.catalog = builder.catalog → Settlement ends builder next

theorem settlement_step (builder : Builder) (event : Event) :
    Settlement (event.tag = .closing ∧ builder.current.isSome = true) builder
      (builder.step event) := by
  have moved := transition_step builder event
  generalize builder.step event = next at moved
  cases moved with
  | opens opening => exact .keeps (by simp [opening]) rfl rfl rfl
  | idles closing idle => exact .keeps (by simp [idle]) rfl rfl rfl
  | discards closing found _ => exact .discards ⟨closing, by simp [found]⟩ rfl rfl rfl
  | @commits _ placement closing found _ =>
    exact .commits placement.record ⟨closing, by simp [found]⟩ rfl rfl
      (Catalog.records_add _ _ _ _)
  | rescopes scope => exact .keeps (by simp [scope]) rfl rfl rfl
  | fills _ notClosing _ => exact .keeps (by simp [notClosing]) rfl rfl rfl

/-- What the counters and the catalog of a builder say about the events that it took. -/
structure Accounts (events : List Event) (builder : Builder) : Prop where
  current : builder.current.isSome = isOpen events
  stored : builder.catalog.size = builder.committed
  ended : builder.committed + builder.discarded = endings events

theorem Accounts.start (layout : Layout) : Accounts [] (start layout) where
  current := rfl
  stored := Catalog.size_empty layout
  ended := rfl

theorem Accounts.settles {events : List Event} {builder : Builder}
    (accounts : Accounts events builder) (event : Event) :
    Settlement (event.tag = .closing ∧ isOpen events = true) builder (builder.step event) := by
  rw [← accounts.current]
  exact settlement_step builder event

theorem Accounts.step {events : List Event} {builder : Builder} (accounts : Accounts events builder)
    (event : Event) : Accounts (events ++ [event]) (builder.step event) := by
  have current : (builder.step event).current.isSome = isOpen (events ++ [event]) := by
    rw [isSome_current_step, isOpen_append_singleton, accounts.current]
  have settled := accounts.settles event
  obtain ⟨-, stored, ended⟩ := accounts
  cases settled with
  | commits record ends committed discarded added =>
    have larger : (builder.step event).catalog.size = builder.catalog.size + 1 := by
      simpa [Catalog.size] using added.length_eq
    refine ⟨current, ?_, ?_⟩
    · rw [larger, stored, committed]
    · rw [endings_append_of_ends ends, committed, discarded, ← ended]
      omega
  | discards ends committed discarded kept =>
    refine ⟨current, ?_, ?_⟩
    · rw [kept, stored, committed]
    · rw [endings_append_of_ends ends, committed, discarded, ← ended]
      omega
  | keeps notEnds committed discarded kept =>
    refine ⟨current, ?_, ?_⟩
    · rw [kept, stored, committed]
    · rw [endings_append_of_not_ends notEnds, committed, discarded, ended]

theorem accounts_run (layout : Layout) (events : List Event) :
    Accounts events ((start layout).run events) := by
  -- The events are counted from the front, so the run is extended at its end.
  induction events using List.reverseRecOn with
  | nil => exact Accounts.start layout
  | append_singleton rest event ih =>
    rw [run_append]
    exact ih.step event

theorem size_finish (builder : Builder) : builder.finish.size = builder.catalog.size :=
  Catalog.size_sorted builder.catalog

end Builder

/-! ## The events of a source text -/

/-- A comment ends one record, whatever came before it and whatever its tags open. -/
theorem Comment.Scanned.endings_append {comment : Comment} (scanned : comment.Scanned)
    (before : List Event) : endings (before ++ comment.events) = endings before + 1 := by
  have plain : ∀ event ∈ comment.statements, isClosing event = false :=
    fun event member => decide_eq_false (scanned.ne_closing_of_mem_statements member)
  have opens : isOpening Event.opening = true := rfl
  have closes : isClosing Event.closing = true := rfl
  have plainOpening : ∀ event ∈ Event.opening :: comment.statements, isClosing event = false :=
    List.forall_mem_cons.2 ⟨rfl, plain⟩
  have block : before ++ comment.events =
      (before ++ Event.opening :: comment.statements) ++ [Event.closing] := by
    simp [events_eq]
  rw [block, endings_append_singleton, isOpen_append opens plain,
    DocCatalog.endings_append plainOpening, closes]
  rfl

theorem endings_append_flatMap {told : List Comment}
    (scanned : ∀ comment ∈ told, comment.Scanned) (before : List Event) :
    endings (before ++ told.flatMap Comment.events) = endings before + told.length := by
  induction told generalizing before with
  | nil => simp
  | cons comment rest ih =>
    obtain ⟨first, others⟩ := List.forall_mem_cons.1 scanned
    rw [List.flatMap_cons, ← List.append_assoc, ih others, first.endings_append, List.length_cons]
    omega

theorem endings_events (marker : Char) (source : String) :
    endings (Source.events marker source) = (Source.comments marker source).length := by
  have counted := endings_append_flatMap
    (fun _ => Source.scanned_of_mem_comments : ∀ comment ∈ Source.comments marker source,
      comment.Scanned) []
  have none : endings [] = 0 := rfl
  rw [none, Nat.zero_add] at counted
  exact counted

namespace Builder

/-- After every run the catalog holds exactly the committed records, and the two counters together
count the closing events that found an open record. One more event commits one record and leaves the
others as they are, or it leaves the catalog alone. For a source text the counters add up to the
number of its comments. -/
theorem accounts_balance (layout : Layout) :
    (∀ events : List Event,
      let builder := (start layout).run events
      builder.catalog.size = builder.committed ∧ builder.finish.size = builder.committed ∧
      builder.committed + builder.discarded = endings events ∧
      ∀ event, Settlement (event.tag = .closing ∧ isOpen events = true) builder
        (builder.step event)) ∧
    ∀ (marker : Char) (source : String),
      let builder := (start layout).scan marker source
      builder.committed + builder.discarded = (Source.comments marker source).length ∧
      builder.finish.size = builder.committed := by
  refine ⟨fun events => ?_, fun marker source => ?_⟩
  · have accounts := accounts_run layout events
    refine ⟨accounts.stored, ?_, accounts.ended, accounts.settles⟩
    rw [size_finish, accounts.stored]
  · have accounts := accounts_run layout (Source.events marker source)
    refine ⟨?_, ?_⟩
    · rw [← endings_events]
      exact accounts.ended
    · rw [size_finish]
      exact accounts.stored

end Builder

end DocCatalog
