import DocCatalog.Proofs.Builder.Accounts
import DocCatalog.Proofs.Builder.Resolution

/-!
# A comment is resolved by the last tags before its end

A builder remembers the namespace in force and the name of the open record, and overwrites both as
tags arrive. Read as a whole, a text says the same without a memory: the namespace of a comment is
the value of the last `namespace` tag up to the end of that comment, wherever it stands, and its
name is the value of the last of its own naming tags.

Results:
1. `scope_run`: the namespace after a run is the last one that the run set.
2. `name_run`: the name of a record that stays open is the last one that the run gave it.
3. `lastValue?_events`: what the events of comments say last is what their tags say last.
4. `committed_comment_iff`, `row_of_mem_placements_comment`: when the events of one comment commit a
   record, and where, after any run.
5. `resolved_by_last_tags`: the same for a comment of a source text.
-/

namespace DocCatalog

/-! ## What is said last -/

/-- The value of the last event with one of some tags. -/
def lastValue? (sort : List Tag) (events : List Event) : Option String :=
  (events.filter fun event => event.tag ∈ sort).getLast?.map Event.value

/-- The trimmed value of the last tag with one of some names. -/
def lastTagged? (names : List String) (tags : List (String × String)) : Option String :=
  (tags.filter fun tag => tag.1 ∈ names).getLast?.map fun tag => Text.trimmed tag.2

/-- The tags that name an entity. -/
def Tag.naming : List Tag :=
  [.name, .kind .function, .kind .klass, .kind .object, .kind .field]

theorem lastValue?_append (sort : List Tag) (first second : List Event) :
    lastValue? sort (first ++ second) = (lastValue? sort second).or (lastValue? sort first) := by
  rw [lastValue?, List.filter_append, List.getLast?_append, Option.map_or]
  rfl

theorem lastValue?_append_singleton (sort : List Tag) (events : List Event) (event : Event) :
    lastValue? sort (events ++ [event]) =
      if event.tag ∈ sort then some event.value else lastValue? sort events := by
  rw [lastValue?_append]
  by_cases member : event.tag ∈ sort <;> simp [lastValue?, member]

theorem lastValue?_eq_none {sort : List Tag} {events : List Event}
    (away : ∀ event ∈ events, event.tag ∉ sort) : lastValue? sort events = none := by
  have none : (events.filter fun event => event.tag ∈ sort) = [] :=
    List.filter_eq_nil_iff.2 fun event member => by simpa using away event member
  rw [lastValue?, none]
  rfl

/-! ## The memory of a builder -/

theorem Record.name_apply (record : Record) (tag : Tag) (value : String) :
    (record.apply tag value).name = if tag ∈ Tag.naming then some value else record.name := by
  cases tag with
  | kind kind => cases kind <;> rfl
  | custom name =>
    simp only [apply]
    split <;> rfl
  | opening | closing | description | name | param | result | hidden | deprecated | scope => rfl

namespace Builder

/-- The namespace after a run is the last one that the run set. -/
theorem scope_run (builder : Builder) (events : List Event) :
    (builder.run events).scope = (lastValue? [.scope] events).getD builder.scope := by
  induction events using List.reverseRecOn with
  | nil => rfl
  | append_singleton rest event ih =>
    have last : (builder.run (rest ++ [event])).scope = ((builder.run rest).step event).scope := by
      rw [run_append]
      rfl
    rw [last, scope_step, lastValue?_append_singleton, ih]
    by_cases scope : event.tag = .scope <;> simp [scope]

/-- Between the delimiters an event goes to the open record; a namespace changes nothing in it. -/
theorem current_step_of_current {builder : Builder} {record : Record}
    (current : builder.current = some record) {event : Event}
    (plain : event.tag ≠ .opening ∧ event.tag ≠ .closing) :
    (builder.step event).current = some (record.apply event.tag event.value) := by
  have moved := transition_step builder event
  generalize builder.step event = next at moved
  cases moved with
  | opens opening => exact absurd opening plain.1
  | idles closing _ | discards closing _ _ | commits closing _ _ => exact absurd closing plain.2
  | rescopes scope => simp [current, scope, Record.apply]
  | fills _ _ _ => simp [current]

/-- Without a delimiter a record stays open, and its name is the last one that it was given. -/
theorem name_run {builder : Builder} {record : Record} (current : builder.current = some record)
    {events : List Event}
    (plain : ∀ event ∈ events, event.tag ≠ .opening ∧ event.tag ≠ .closing) :
    ∃ filled, (builder.run events).current = some filled ∧
      filled.name = (lastValue? Tag.naming events).or record.name := by
  induction events using List.reverseRecOn with
  | nil => exact ⟨record, current, rfl⟩
  | append_singleton rest event ih =>
    obtain ⟨before, last⟩ := List.forall_mem_append.1 plain
    obtain ⟨filled, isFilled, name⟩ := ih before
    have next : (builder.run (rest ++ [event])).current =
        some (filled.apply event.tag event.value) := by
      rw [run_append]
      exact current_step_of_current isFilled (last event List.mem_cons_self)
    refine ⟨_, next, ?_⟩
    rw [Record.name_apply, name, lastValue?_append_singleton]
    by_cases naming : event.tag ∈ Tag.naming <;> simp [naming]

end Builder

/-! ## From events to tags -/

/-- Tags that come from their own spelling in a comment, and from nothing else. -/
structure Tag.Spelled (sort : List Tag) : Prop where
  own : ∀ tag ∈ sort, Tag.ofName tag.text = tag
  apart : ∀ tag ∈ [Tag.opening, .description, .closing], tag ∉ sort

theorem Tag.spelled_scope : Spelled [.scope] := ⟨by decide, by decide⟩

theorem Tag.spelled_naming : Spelled naming := ⟨by decide, by decide⟩

theorem Tag.Spelled.mem_iff {sort : List Tag} (spelled : Spelled sort) (written : String) :
    Tag.ofName written ∈ sort ↔ written ∈ sort.map Tag.text := by
  constructor
  · intro member
    exact List.mem_map.2 ⟨Tag.ofName written, member, Tag.text_ofName written⟩
  · intro member
    obtain ⟨tag, inSort, rfl⟩ := List.mem_map.1 member
    rw [spelled.own tag inSort]
    exact inSort

namespace Comment

variable {comment : Comment} {sort : List Tag}

theorem Scanned.filter_tagEvents (scanned : comment.Scanned) (spelled : Tag.Spelled sort) :
    (comment.tagEvents.filter fun event => event.tag ∈ sort) =
      (comment.tags.filter fun tag => tag.1 ∈ sort.map Tag.text).map fun tag =>
        Event.ofRaw tag.1 tag.2 := by
  have same : (comment.tags.filter fun tag => (Event.ofRaw tag.1 tag.2).tag ∈ sort) =
      comment.tags.filter fun tag => tag.1 ∈ sort.map Tag.text := by
    refine List.filter_congr fun tag member => ?_
    rw [scanned.tag_ofRaw member, decide_eq_decide]
    exact spelled.mem_iff tag.1
  rw [← same, tagEvents, List.filter_map]
  rfl

theorem Scanned.lastValue?_statements (scanned : comment.Scanned) (spelled : Tag.Spelled sort) :
    lastValue? sort comment.statements = lastTagged? (sort.map Tag.text) comment.tags := by
  have description : lastValue? sort [Event.make .description comment.description] = none :=
    lastValue?_eq_none (List.forall_mem_singleton.2 (spelled.apart .description (by decide)))
  rw [statements, lastValue?_append, description, Option.none_or, lastValue?,
    scanned.filter_tagEvents spelled, List.getLast?_map, Option.map_map]
  rfl

theorem Scanned.plain_of_mem_statements (scanned : comment.Scanned)
    (noOpener : ∀ tag ∈ comment.tags, tag.1 ≠ "/**") {event : Event}
    (member : event ∈ comment.statements) : event.tag ≠ .opening ∧ event.tag ≠ .closing := by
  refine ⟨?_, scanned.ne_closing_of_mem_statements member⟩
  rcases List.mem_append.1 member with tagged | last
  · exact scanned.ne_opening_of_mem_tagEvents noOpener tagged
  · obtain rfl := List.mem_singleton.1 last
    simp [Event.make]

theorem lastValue?_events (spelled : Tag.Spelled sort) :
    lastValue? sort comment.events = lastValue? sort comment.statements := by
  have opening : lastValue? sort [Event.opening] = none :=
    lastValue?_eq_none (List.forall_mem_singleton.2 (spelled.apart .opening (by decide)))
  have closing : lastValue? sort [Event.closing] = none :=
    lastValue?_eq_none (List.forall_mem_singleton.2 (spelled.apart .closing (by decide)))
  rw [events_eq, lastValue?_append, lastValue?_append, opening, closing, Option.or_none,
    Option.none_or]

end Comment

theorem lastTagged?_append (names : List String) (first second : List (String × String)) :
    lastTagged? names (first ++ second) =
      (lastTagged? names second).or (lastTagged? names first) := by
  rw [lastTagged?, List.filter_append, List.getLast?_append, Option.map_or]
  rfl

/-- What the events of comments say last is what their tags say last. -/
theorem lastValue?_flatMap_events {told : List Comment} {sort : List Tag}
    (scanned : ∀ comment ∈ told, comment.Scanned) (spelled : Tag.Spelled sort) :
    lastValue? sort (told.flatMap Comment.events) =
      lastTagged? (sort.map Tag.text) (told.flatMap Comment.tags) := by
  induction told with
  | nil => rfl
  | cons comment rest ih =>
    obtain ⟨first, others⟩ := List.forall_mem_cons.1 scanned
    rw [List.flatMap_cons, List.flatMap_cons, lastValue?_append, lastTagged?_append, ih others,
      Comment.lastValue?_events spelled, first.lastValue?_statements spelled]

/-! ## One comment -/

namespace Builder

/-- A comment that opens no second record stores what its last naming tag resolves to, in the
namespace that is in force at its end. -/
theorem placements_comment (builder : Builder) {comment : Comment} (scanned : comment.Scanned)
    (noOpener : ∀ tag ∈ comment.tags, tag.1 ≠ "/**") :
    ∃ (last : Builder) (record : Record),
      builder.placements comment.events = last.pending?.toList ∧
      last.scope = (builder.run comment.events).scope ∧ last.current = some record ∧
      record.name = lastTagged? (Tag.naming.map Tag.text) comment.tags := by
  have plain : ∀ event ∈ comment.statements, event.tag ≠ .opening ∧ event.tag ≠ .closing :=
    fun _ member => scanned.plain_of_mem_statements noOpener member
  let opened := builder.run [Event.opening]
  let last := opened.run comment.statements
  have whole : builder.run ([Event.opening] ++ comment.statements) = last := run_append _ _ _
  have isOpened : opened.current = some {} := rfl
  obtain ⟨record, current, name⟩ := name_run isOpened plain
  refine ⟨last, record, ?_, ?_, current, ?_⟩
  · -- Nothing is stored until the closing event, which finds the record of the comment.
    have before : builder.placements ([Event.opening] ++ comment.statements) = [] := by
      refine placements_eq_nil builder (List.forall_mem_append.2 ⟨?_, fun event member => ?_⟩)
      · simp [Event.opening]
      · exact (plain event member).2
    rw [Comment.events_eq, placements_append, before, whole]
    simp [placements, placement?, Event.closing]
  · rw [Comment.events_eq, run_append, whole]
    exact (scope_step last Event.closing).symm
  · rw [name, scanned.lastValue?_statements Tag.spelled_naming, Option.or_none]

/-- A comment is committed when its last naming tag has a value, and that value a place. -/
theorem committed_comment_iff (builder : Builder) {comment : Comment} (scanned : comment.Scanned)
    (noOpener : ∀ tag ∈ comment.tags, tag.1 ≠ "/**") :
    (builder.run comment.events).committed = builder.committed + 1 ↔
      ∃ name, lastTagged? (Tag.naming.map Tag.text) comment.tags = some name ∧ name ≠ "" ∧
        Text.segments ((builder.run comment.events).scope ++ "." ++ name) ≠ [] := by
  obtain ⟨last, record, told, sameScope, current, isNamed⟩ :=
    placements_comment builder scanned noOpener
  have once : (builder.run comment.events).committed = builder.committed + 1 ↔
      last.pending? ≠ none := by
    rw [committed_run, told, Nat.add_left_cancel_iff]
    cases last.pending? <;> simp
  rw [once, pending?_ne_none_iff current, isNamed, sameScope]

/-- What a comment stores lies at the segments of the namespace and of its last naming tag. -/
theorem row_of_mem_placements_comment (builder : Builder) {comment : Comment}
    (scanned : comment.Scanned) (noOpener : ∀ tag ∈ comment.tags, tag.1 ≠ "/**")
    {placement : Placement} (member : placement ∈ builder.placements comment.events) :
    ∃ name leaf, lastTagged? (Tag.naming.map Tag.text) comment.tags = some name ∧
      placement.record.name = some leaf ∧
      Text.segments placement.record.scope ++ [leaf] =
        Text.segments (builder.run comment.events).scope ++ Text.segments name := by
  obtain ⟨last, record, told, sameScope, current, isNamed⟩ :=
    placements_comment builder scanned noOpener
  have found : last.pending? = some placement := by
    rw [told] at member
    simpa using member
  have resolved : placement.Resolved := resolved_of_pending? found
  obtain ⟨other, name, isCurrent, isName, -, row⟩ := exists_name_of_pending? found
  obtain rfl : record = other := Option.some.inj (current.symm.trans isCurrent)
  refine ⟨name, placement.leaf, isNamed.symm.trans isName, resolved.name, ?_⟩
  rw [resolved.scope, Text.segments_dotted resolved.path, ← row, sameScope]

/-- A comment is committed or discarded, and only one of them. -/
theorem ended_comment (layout : Layout) (events : List Event) {comment : Comment}
    (scanned : comment.Scanned) :
    let builder := (start layout).run events
    let next := builder.run comment.events
    next.committed + next.discarded = builder.committed + builder.discarded + 1 := by
  intro builder next
  have before := (accounts_run layout events).ended
  have after := (accounts_run layout (events ++ comment.events)).ended
  rw [scanned.endings_append, run_append] at after
  rw [after, before]

/-- In the scan of a source text, the namespace after a comment is the value of the last `namespace`
tag up to the end of that comment. A comment without a tag that is spelled like the opener is
committed exactly when it has a naming tag, the last one has a value, and that value and the
namespace have a segment between them; its record then lies at the segments of the namespace
followed by those of the name. Otherwise it is discarded. -/
theorem resolved_by_last_tags (layout : Layout) (marker : Char) (source : String)
    {before after : List Comment} {comment : Comment}
    (split : Source.comments marker source = before ++ comment :: after) :
    let builder := (start layout).run (before.flatMap Comment.events)
    let next := builder.run comment.events
    let scope := (lastTagged? ["namespace"] ((before ++ [comment]).flatMap Comment.tags)).getD ""
    (start layout).scan marker source = next.run (after.flatMap Comment.events) ∧
    next.scope = scope ∧
    ((∀ tag ∈ comment.tags, tag.1 ≠ "/**") →
      let named := lastTagged? ["name", "function", "class", "object", "field"] comment.tags
      let stored := builder.placements comment.events
      next.catalog = stored.foldl Catalog.place builder.catalog ∧
      next.committed = builder.committed + stored.length ∧
      next.committed + next.discarded = builder.committed + builder.discarded + 1 ∧
      (next.committed = builder.committed + 1 ↔
        ∃ name, named = some name ∧ name ≠ "" ∧ Text.segments (scope ++ "." ++ name) ≠ []) ∧
      ∀ placement ∈ stored, ∃ name leaf,
        named = some name ∧ placement.record.name = some leaf ∧
        Text.segments placement.record.scope ++ [leaf] =
          Text.segments scope ++ Text.segments name) := by
  intro builder next scope
  have scanned : ∀ other ∈ before ++ comment :: after, other.Scanned :=
    fun _ member => Source.scanned_of_mem_comments (split ▸ member)
  obtain ⟨beforeScanned, restScanned⟩ := List.forall_mem_append.1 scanned
  obtain ⟨ownScanned, -⟩ := List.forall_mem_cons.1 restScanned
  have upTo : ∀ other ∈ before ++ [comment], other.Scanned :=
    List.forall_mem_append.2 ⟨beforeScanned, List.forall_mem_singleton.2 ownScanned⟩
  have reached : next = (start layout).run ((before ++ [comment]).flatMap Comment.events) := by
    rw [List.flatMap_append, List.flatMap_singleton, run_append]
  have inForce : next.scope = scope := by
    rw [reached, scope_run, lastValue?_flatMap_events upTo Tag.spelled_scope]
    rfl
  refine ⟨?_, inForce, fun noOpener => ?_⟩
  · rw [scan, Source.events, split, List.flatMap_append, List.flatMap_cons, run_append, run_append]
  · intro named stored
    refine ⟨catalog_run _ _, committed_run _ _, ended_comment layout _ ownScanned, ?_,
      fun placement member => ?_⟩
    · rw [← inForce]
      exact committed_comment_iff builder ownScanned noOpener
    · rw [← inForce]
      exact row_of_mem_placements_comment builder ownScanned noOpener member

/-- The last naming tag counts, and a namespace that comes after it. -/
theorem resolved_by_last_tags_late_scope :
    let first : Comment := ⟨"", [("namespace", " x")]⟩
    let second : Comment := ⟨"", [("name", " g "), ("function", " .f. "), ("namespace", " a..b")]⟩
    let builder := (start .tree).run ([first].flatMap Comment.events)
    Source.comments '@' "/** @namespace x */ /** @name g @function .f. @namespace a..b */" =
        [first] ++ second :: [] ∧
      (∀ tag ∈ second.tags, tag.1 ≠ "/**") ∧
      (builder.run second.events).scope = "a..b" ∧
      (builder.run second.events).committed = builder.committed + 1 := by
  intro first second builder
  have split :
      Source.comments '@' "/** @namespace x */ /** @name g @function .f. @namespace a..b */" =
        [first] ++ second :: [] := by
    rw [Source.comments, Source.bodies_eq_read]
    decide
  have noOpener : ∀ tag ∈ second.tags, tag.1 ≠ "/**" := by decide
  obtain ⟨-, scope, rest⟩ := resolved_by_last_tags .tree '@' _ split
  obtain ⟨-, -, -, committed, -⟩ := rest noOpener
  exact ⟨split, noOpener, scope.trans (by decide), committed.2 ⟨".f.", by decide⟩⟩

end Builder

end DocCatalog
