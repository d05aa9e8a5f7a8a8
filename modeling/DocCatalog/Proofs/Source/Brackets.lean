import DocCatalog.Proofs.Comment.TagName

/-!
# The events of a text as a bracketed run

Every comment is told by one block of events: an opening event, the events of its tags, its
description, and a closing event. The blocks are brackets around records as long as no event of a
tag is itself a delimiter.

Results:
1. `countP_closing_events`: a closing event stands only at the end of a block, because no tag of a
   doc comment is spelled `*/`. So text inside a comment never ends a record.
2. `countP_opening_events`: every tag that is spelled `/**` adds an opening event inside a block.
   Such a tag can be written, and then the text inside a comment does start a record.
3. `bracketed_iff_no_opener_tag`: that is the only way in which the brackets fail.
-/

namespace DocCatalog

/-! ## Blocks -/

/-- The comment is told as one record: no tag between the delimiters is a delimiter. -/
def Comment.ToldBy (comment : Comment) (block : List Event) : Prop :=
  ∃ tagged : List Event,
    block = Event.opening :: tagged ++
      [⟨.description, Text.trimmed comment.description⟩, Event.closing] ∧
    ∀ event ∈ tagged, event.tag ≠ .opening ∧ event.tag ≠ .closing

/-- The events are one block for each comment, in order. -/
inductive Bracketed : List Comment → List Event → Prop
  | nil : Bracketed [] []
  | cons {comment : Comment} {comments : List Comment} {block events : List Event} :
      comment.ToldBy block → Bracketed comments events →
      Bracketed (comment :: comments) (block ++ events)

def isOpening (event : Event) : Bool :=
  event.tag = .opening

def isClosing (event : Event) : Bool :=
  event.tag = .closing

theorem Comment.ToldBy.countP_opening {comment : Comment} {block : List Event}
    (told : comment.ToldBy block) : block.countP isOpening = 1 := by
  obtain ⟨tagged, rfl, plain⟩ := told
  have none : tagged.countP isOpening = 0 :=
    List.countP_eq_zero.2 fun event member => by simp [isOpening, (plain event member).1]
  simp [isOpening, Event.opening, Event.closing, none]

theorem Bracketed.countP_opening {comments : List Comment} {events : List Event}
    (bracketed : Bracketed comments events) : events.countP isOpening = comments.length := by
  induction bracketed with
  | nil => rfl
  | cons told _ ih =>
    rw [List.countP_append, told.countP_opening, ih, List.length_cons, Nat.add_comm]

/-! ## The tags of a scanned comment -/

namespace Comment

/-- What the scanner promises of the tag names of a comment. -/
structure Scanned (comment : Comment) : Prop where
  word : ∀ tag ∈ comment.tags, Text.trimmed tag.1 = tag.1
  notCloser : ∀ tag ∈ comment.tags, tag.1 ≠ "*/"

/-- Whether a tag is spelled like the opener. -/
def isOpenerTag (tag : String × String) : Bool :=
  tag.1 = "/**"

theorem scanned_parse {body : List Char} (unclosed : Source.Unclosed body) (marker : Char) :
    (parse marker body).Scanned where
  word _ member := trimmed_name member
  notCloser tag member spelled := by
    have nameUnclosed := unclosed_name unclosed member
    rw [spelled] at nameUnclosed
    exact nameUnclosed List.infix_rfl

/-- What a comment tells between its delimiters. -/
def statements (comment : Comment) : List Event :=
  comment.tagEvents ++ [Event.make .description comment.description]

theorem events_eq (comment : Comment) :
    comment.events = [Event.opening] ++ comment.statements ++ [Event.closing] := by
  simp [events, statements]

variable {comment : Comment}

theorem Scanned.tag_ofRaw (scanned : comment.Scanned) {tag : String × String}
    (member : tag ∈ comment.tags) : (Event.ofRaw tag.1 tag.2).tag = Tag.ofName tag.1 := by
  simp only [Event.ofRaw, Event.make, scanned.word tag member]

theorem Scanned.tag_eq_opening_iff (scanned : comment.Scanned) {tag : String × String}
    (member : tag ∈ comment.tags) :
    (Event.ofRaw tag.1 tag.2).tag = .opening ↔ tag.1 = "/**" := by
  rw [scanned.tag_ofRaw member]
  exact Tag.ofName_eq_iff rfl

theorem Scanned.ne_closing_of_mem_tagEvents (scanned : comment.Scanned) {event : Event}
    (member : event ∈ comment.tagEvents) : event.tag ≠ .closing := by
  obtain ⟨tag, inTags, rfl⟩ := List.mem_map.1 member
  rw [scanned.tag_ofRaw inTags]
  intro closing
  exact scanned.notCloser tag inTags ((Tag.ofName_eq_iff rfl).1 closing)

theorem Scanned.ne_opening_of_mem_tagEvents (scanned : comment.Scanned)
    (noOpener : ∀ tag ∈ comment.tags, tag.1 ≠ "/**") {event : Event}
    (member : event ∈ comment.tagEvents) : event.tag ≠ .opening := by
  obtain ⟨tag, inTags, rfl⟩ := List.mem_map.1 member
  intro opening
  exact noOpener tag inTags ((scanned.tag_eq_opening_iff inTags).1 opening)

theorem Scanned.ne_closing_of_mem_statements (scanned : comment.Scanned) {event : Event}
    (member : event ∈ comment.statements) : event.tag ≠ .closing := by
  rcases List.mem_append.1 member with tagged | last
  · exact scanned.ne_closing_of_mem_tagEvents tagged
  · obtain rfl := List.mem_singleton.1 last
    simp [Event.make]

theorem Scanned.countP_closing (scanned : comment.Scanned) :
    comment.events.countP isClosing = 1 := by
  have none : comment.tagEvents.countP isClosing = 0 := by
    refine List.countP_eq_zero.2 fun event member => ?_
    simp [isClosing, scanned.ne_closing_of_mem_tagEvents member]
  simp [events, isClosing, Event.opening, Event.make, Event.closing, none]

theorem Scanned.countP_opening (scanned : comment.Scanned) :
    comment.events.countP isOpening = comment.tags.countP isOpenerTag + 1 := by
  have same : comment.tagEvents.countP isOpening = comment.tags.countP isOpenerTag := by
    rw [tagEvents, List.countP_map]
    refine List.countP_congr fun tag member => ?_
    simp [isOpening, isOpenerTag, scanned.tag_eq_opening_iff member]
  simp [events, isOpening, Event.opening, Event.make, Event.closing, same]

theorem Scanned.toldBy (scanned : comment.Scanned)
    (noOpener : ∀ tag ∈ comment.tags, tag.1 ≠ "/**") : comment.ToldBy comment.events := by
  refine ⟨comment.tagEvents, rfl, fun event member => ?_⟩
  exact ⟨scanned.ne_opening_of_mem_tagEvents noOpener member,
    scanned.ne_closing_of_mem_tagEvents member⟩

end Comment

/-! ## The whole text -/

namespace Source

theorem scanned_of_mem_comments {marker : Char} {source : String} {comment : Comment}
    (member : comment ∈ comments marker source) : comment.Scanned := by
  obtain ⟨body, inBodies, rfl⟩ := List.mem_map.1 member
  exact Comment.scanned_parse (unclosed_of_mem_bodies inBodies) marker

theorem countP_closing_flatMap {told : List Comment} (scanned : ∀ comment ∈ told, comment.Scanned) :
    (told.flatMap Comment.events).countP isClosing = told.length := by
  induction told with
  | nil => rfl
  | cons comment rest ih =>
    obtain ⟨first, others⟩ := List.forall_mem_cons.1 scanned
    rw [List.flatMap_cons, List.countP_append, first.countP_closing, ih others, List.length_cons,
      Nat.add_comm]

theorem countP_opening_flatMap {told : List Comment} (scanned : ∀ comment ∈ told, comment.Scanned) :
    (told.flatMap Comment.events).countP isOpening =
      told.length + (told.flatMap Comment.tags).countP Comment.isOpenerTag := by
  induction told with
  | nil => rfl
  | cons comment rest ih =>
    obtain ⟨first, others⟩ := List.forall_mem_cons.1 scanned
    rw [List.flatMap_cons, List.countP_append, first.countP_opening, ih others, List.flatMap_cons,
      List.countP_append, List.length_cons]
    omega

theorem bracketed_flatMap {told : List Comment} (scanned : ∀ comment ∈ told, comment.Scanned)
    (noOpener : ∀ comment ∈ told, ∀ tag ∈ comment.tags, tag.1 ≠ "/**") :
    Bracketed told (told.flatMap Comment.events) := by
  induction told with
  | nil => exact .nil
  | cons comment rest ih =>
    obtain ⟨first, others⟩ := List.forall_mem_cons.1 scanned
    obtain ⟨firstPlain, othersPlain⟩ := List.forall_mem_cons.1 noOpener
    exact .cons (first.toldBy firstPlain) (ih others othersPlain)

/-- As many closing events as comments. -/
theorem countP_closing_events (marker : Char) (source : String) :
    (events marker source).countP isClosing = (comments marker source).length :=
  countP_closing_flatMap fun _ => scanned_of_mem_comments

/-- As many opening events as comments and tags that are spelled like the opener. -/
theorem countP_opening_events (marker : Char) (source : String) :
    (events marker source).countP isOpening =
      (comments marker source).length +
        ((comments marker source).flatMap Comment.tags).countP Comment.isOpenerTag :=
  countP_opening_flatMap fun _ => scanned_of_mem_comments

/-- The events of a text are bracketed exactly when no comment has a tag that is spelled `/**`.
There is always one closing event for each comment, and every such tag adds an opening event to the
one for each comment. -/
theorem bracketed_iff_no_opener_tag (marker : Char) (source : String) :
    (Bracketed (comments marker source) (events marker source) ↔
      ∀ comment ∈ comments marker source, ∀ tag ∈ comment.tags, tag.1 ≠ "/**") ∧
    (∀ comment ∈ comments marker source, ∀ event ∈ comment.tagEvents, event.tag ≠ .closing) ∧
    (events marker source).countP isClosing = (comments marker source).length ∧
    (events marker source).countP isOpening =
      (comments marker source).length +
        ((comments marker source).flatMap Comment.tags).countP Comment.isOpenerTag := by
  refine ⟨⟨fun bracketed comment member tag inTags spelled => ?_, fun noOpener => ?_⟩, ?_,
    countP_closing_events marker source, countP_opening_events marker source⟩
  · -- One opening event for each block leaves none for the tags.
    have count := bracketed.countP_opening
    rw [countP_opening_events] at count
    have none : ((comments marker source).flatMap Comment.tags).countP Comment.isOpenerTag = 0 := by
      omega
    have plain := List.countP_eq_zero.1 none tag (List.mem_flatMap.2 ⟨comment, member, inTags⟩)
    simp [Comment.isOpenerTag, spelled] at plain
  · exact bracketed_flatMap (fun _ => scanned_of_mem_comments) noOpener
  · intro comment member event inEvents
    exact (scanned_of_mem_comments member).ne_closing_of_mem_tagEvents inEvents

/-- A comment that is told with two opening events. -/
theorem not_bracketed_opener_tag :
    ¬ Bracketed (comments '@' "/** @name a @/** */") (events '@' "/** @name a @/** */") := by
  intro bracketed
  have count := bracketed.countP_opening
  rw [countP_opening_events] at count
  have tags : ((comments '@' "/** @name a @/** */").flatMap Comment.tags).countP
      Comment.isOpenerTag = 1 := by
    rw [comments, bodies_eq_read]
    decide
  omega

end Source

end DocCatalog
