import DocCatalog.Builder
import DocCatalog.Proofs.Namespace.Placement
import DocCatalog.Proofs.Text.Path

/-!
# What one event does to a builder

Every event moves a builder in one of six ways, and only one of them touches the catalog: a closing
event commits the open record at the place that is resolved for it.

Results:
1. `transition_step`: the six ways.
2. `catalog_run`: the catalog of a run is the catalog before, with the placements of the run added
   in order.
3. `placements_start`: what is placed does not depend on the layout.
4. `resolved_of_mem_placements`: a placed record is named by its leaf and carries its path, and both
   are made of segments.
-/

namespace DocCatalog

namespace Builder

/-- What the open record would be stored as. -/
def pending? (builder : Builder) : Option Placement :=
  builder.current.bind fun record =>
    (placeOf? builder.scope record).map fun (path, leaf) =>
      ⟨path, leaf, { record with name := some leaf, scope := Text.dotted path }⟩

/-- What an event stores. -/
def placement? (builder : Builder) (event : Event) : Option Placement :=
  if event.tag = .closing then builder.pending? else none

/-- What a run stores, in the order of the closing events. -/
def placements : Builder → List Event → List Placement
  | _, [] => []
  | builder, event :: rest =>
    (builder.placement? event).toList ++ placements (builder.step event) rest

/-- The six ways in which an event moves a builder. -/
inductive Transition (builder : Builder) (event : Event) : Builder → Prop
  | opens : event.tag = .opening → Transition builder event { builder with current := some {} }
  | idles : event.tag = .closing → builder.current = none → Transition builder event builder
  | discards {record : Record} :
      event.tag = .closing → builder.current = some record → builder.pending? = none →
      Transition builder event
        { builder with current := none, discarded := builder.discarded + 1 }
  | commits {record : Record} {placement : Placement} :
      event.tag = .closing → builder.current = some record →
      builder.pending? = some placement →
      Transition builder event
        { builder with
          current := none
          catalog := builder.catalog.place placement
          committed := builder.committed + 1 }
  | rescopes : event.tag = .scope → Transition builder event { builder with scope := event.value }
  | fills :
      event.tag ≠ .opening → event.tag ≠ .closing → event.tag ≠ .scope →
      Transition builder event
        { builder with
          current := builder.current.map fun record => record.apply event.tag event.value }

/-- Whether the open record is committed depends on its place only. -/
theorem commit_eq (builder : Builder) :
    builder.commit =
      match builder.current, builder.pending? with
      | none, _ => builder
      | some _, none => { builder with current := none, discarded := builder.discarded + 1 }
      | some _, some placement =>
        { builder with
          current := none
          catalog := builder.catalog.place placement
          committed := builder.committed + 1 } := by
  obtain ⟨scope, current, catalog, committed, discarded⟩ := builder
  cases current with
  | none => rfl
  | some record =>
    simp only [commit, pending?, Option.bind_some]
    cases placeOf? scope record with
    | none => rfl
    | some found => rfl

theorem transition_commit {builder : Builder} {event : Event} (closing : event.tag = .closing) :
    Transition builder event builder.commit := by
  rw [commit_eq]
  split
  case h_1 idle => exact .idles closing idle
  case h_2 current nowhere => exact .discards closing current nowhere
  case h_3 current placed => exact .commits closing current placed

theorem transition_step (builder : Builder) (event : Event) :
    Transition builder event (builder.step event) := by
  unfold step
  split
  case h_1 opening => exact .opens opening
  case h_2 closing => exact transition_commit closing
  case h_3 scope => exact .rescopes scope
  case h_4 notOpening notClosing notScope => exact .fills notOpening notClosing notScope

/-- An event adds what it stores to the catalog and to the count of what was committed. -/
theorem stored_step (builder : Builder) (event : Event) :
    (builder.step event).catalog =
        (builder.placement? event).toList.foldl Catalog.place builder.catalog ∧
      (builder.step event).committed =
        builder.committed + (builder.placement? event).toList.length := by
  have moved := transition_step builder event
  generalize builder.step event = next at moved
  cases moved with
  | opens opening => simp [placement?, opening]
  | idles closing idle => simp [placement?, closing, pending?, idle]
  | discards closing _ nowhere => simp [placement?, closing, nowhere]
  | commits closing _ placed => simp [placement?, closing, placed]
  | rescopes scope => simp [placement?, scope]
  | fills _ notClosing _ => simp [placement?, notClosing]

theorem run_append (builder : Builder) (first second : List Event) :
    builder.run (first ++ second) = (builder.run first).run second :=
  List.foldl_append

/-- A run adds its placements to the catalog, and does nothing else to it. -/
theorem catalog_run (builder : Builder) (events : List Event) :
    (builder.run events).catalog =
      (builder.placements events).foldl Catalog.place builder.catalog := by
  induction events generalizing builder with
  | nil => rfl
  | cons event rest ih =>
    have first : builder.run (event :: rest) = (builder.step event).run rest := rfl
    rw [first, ih, (stored_step builder event).1, placements, List.foldl_append]

/-- A run counts what it stores. -/
theorem committed_run (builder : Builder) (events : List Event) :
    (builder.run events).committed =
      builder.committed + (builder.placements events).length := by
  induction events generalizing builder with
  | nil => rfl
  | cons event rest ih =>
    have first : builder.run (event :: rest) = (builder.step event).run rest := rfl
    rw [first, ih, (stored_step builder event).2, placements, List.length_append, Nat.add_assoc]

theorem placements_append (builder : Builder) (first second : List Event) :
    builder.placements (first ++ second) =
      builder.placements first ++ (builder.run first).placements second := by
  induction first generalizing builder with
  | nil => rfl
  | cons event rest ih =>
    rw [List.cons_append, placements, placements, ih, List.append_assoc]
    rfl

/-- Nothing is stored before a closing event. -/
theorem placements_eq_nil (builder : Builder) {events : List Event}
    (plain : ∀ event ∈ events, event.tag ≠ .closing) : builder.placements events = [] := by
  induction events generalizing builder with
  | nil => rfl
  | cons event rest ih =>
    obtain ⟨first, others⟩ := List.forall_mem_cons.1 plain
    rw [placements, ih _ others, placement?, if_neg first]
    rfl

/-! ## The layout does not matter -/

/-- Two builders that will place the same records. -/
structure Alike (builder other : Builder) : Prop where
  scope : builder.scope = other.scope
  current : builder.current = other.current

theorem Alike.pending {builder other : Builder} (alike : Alike builder other) :
    builder.pending? = other.pending? := by
  rw [pending?, pending?, alike.scope, alike.current]

theorem scope_step (builder : Builder) (event : Event) :
    (builder.step event).scope =
      if event.tag = .scope then event.value else builder.scope := by
  have moved := transition_step builder event
  generalize builder.step event = next at moved
  cases moved with
  | opens opening => simp [opening]
  | idles closing _ | discards closing _ _ | commits closing _ _ => simp [closing]
  | rescopes scope => simp [scope]
  | fills _ _ notScope => simp [notScope]

theorem current_step (builder : Builder) (event : Event) :
    (builder.step event).current =
      match event.tag with
      | .opening => some {}
      | .closing => none
      | .scope => builder.current
      | tag => builder.current.map fun record => record.apply tag event.value := by
  have moved := transition_step builder event
  generalize builder.step event = next at moved
  cases moved with
  | opens opening => simp [opening]
  | idles closing idle => simp [closing, idle]
  | discards closing _ _ | commits closing _ _ => simp [closing]
  | rescopes scope => simp [scope]
  | fills notOpening notClosing notScope =>
    split
    · contradiction
    · contradiction
    · contradiction
    · rfl

theorem Alike.step {builder other : Builder} (alike : Alike builder other) (event : Event) :
    Alike (builder.step event) (other.step event) where
  scope := by rw [scope_step, scope_step, alike.scope]
  current := by rw [current_step, current_step, alike.current]

theorem Alike.placements {builder other : Builder} (alike : Alike builder other)
    (events : List Event) : builder.placements events = other.placements events := by
  induction events generalizing builder other with
  | nil => rfl
  | cons event rest ih =>
    rw [Builder.placements, Builder.placements, ih (alike.step event), placement?, placement?,
      alike.pending]

theorem placements_start (layout other : Layout) (events : List Event) :
    (start layout).placements events = (start other).placements events := by
  have alike : Alike (start layout) (start other) := ⟨rfl, rfl⟩
  exact alike.placements events

/-! ## Where records are placed -/

end Builder

/-- A record that is stored under its own name and namespace, at a place made of segments. -/
structure Placement.Resolved (placement : Placement) : Prop where
  name : placement.record.name = some placement.leaf
  scope : placement.record.scope = Text.dotted placement.path
  path : ∀ segment ∈ placement.path, Text.IsSegment segment
  leaf : Text.IsSegment placement.leaf

namespace Builder

theorem isSegment_of_place? {scope name leaf : String} {path : List String}
    (found : place? scope name = some (path, leaf)) :
    (∀ segment ∈ path, Text.IsSegment segment) ∧ Text.IsSegment leaf := by
  obtain ⟨last, isLast, equal⟩ := Option.map_eq_some_iff.1 found
  simp only [Prod.mk.injEq] at equal
  obtain ⟨rfl, rfl⟩ := equal
  refine ⟨fun segment member => ?_, ?_⟩
  · exact Text.isSegment_of_mem_segments ((List.dropLast_subset _ member))
  · exact Text.isSegment_of_mem_segments (List.mem_of_getLast? isLast)

theorem resolved_of_pending? {builder : Builder} {placement : Placement}
    (found : builder.pending? = some placement) : placement.Resolved := by
  obtain ⟨record, -, inner⟩ := Option.bind_eq_some_iff.1 found
  obtain ⟨⟨path, leaf⟩, place, rfl⟩ := Option.map_eq_some_iff.1 inner
  unfold placeOf? at place
  split at place
  · obtain ⟨segments, last⟩ := isSegment_of_place? place
    exact ⟨rfl, rfl, segments, last⟩
  · simp at place

theorem resolved_of_mem_placements {builder : Builder} {events : List Event}
    {placement : Placement} (member : placement ∈ builder.placements events) :
    placement.Resolved := by
  induction events generalizing builder with
  | nil => exact absurd member List.not_mem_nil
  | cons event rest ih =>
    rcases List.mem_append.1 member with now | later
    · rw [placement?] at now
      split at now
      · exact resolved_of_pending? (by simpa using now)
      · exact absurd now (by simp)
    · exact ih later

end Builder

end DocCatalog
