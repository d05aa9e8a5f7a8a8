import DocCatalog.Proofs.Builder.CustomTags
import DocCatalog.Proofs.Comment.TagName
import DocCatalog.Proofs.Text.Path

/-!
# A listing of events can be read back

A listing writes one event a line and escapes line feeds in values only. It can still be cut into
its lines, and every line into tag and value, because the name of a tag is a word of the source
text: it holds no blank, so neither a line feed nor a tabulator. What a value holds does not matter,
since it stands last on its line.

Results:
1. `escapeLineFeeds_eq_flatMap`: what is escaped in a value, and that nothing else is.
2. `Source.solid_of_mem_events`: no tag of a source text holds a blank, whatever the marker.
3. `firstSplit?_row`: the first tabulator of a line stands between tag and value.
4. `Text.pieces_lines`: lines that hold no line feed are found again in their text.
5. `listing_tells_events`: all of this for the listing of a source text.
-/

namespace DocCatalog

namespace Text

/-- The part before the first separator and the part after it. -/
def firstSplit? (separator : Char) (text : List Char) : Option (List Char × List Char) :=
  match text.dropWhile (· ≠ separator) with
  | [] => none
  | _ :: after => some (text.takeWhile (· ≠ separator), after)

theorem firstSplit?_append {separator : Char} {before : List Char} (plain : separator ∉ before)
    (after : List Char) :
    firstSplit? separator (before ++ separator :: after) = some (before, after) := by
  have away := ne_of_mem plain
  rw [firstSplit?, List.takeWhile_append_of_pos away, List.dropWhile_append_of_pos away]
  simp

/-- The last piece is empty because every line has an end. -/
theorem pieces_lines {rows : List (List Char)} (plain : ∀ row ∈ rows, '\n' ∉ row) :
    pieces '\n' (rows.flatMap (· ++ ['\n'])) = rows ++ [[]] := by
  induction rows with
  | nil => rfl
  | cons row rest ih =>
    obtain ⟨first, others⟩ := List.forall_mem_cons.1 plain
    rw [List.flatMap_cons, List.append_assoc, List.singleton_append, pieces_eq_splitOn,
      List.splitOn_append_cons_self, ← pieces_eq_splitOn, ← pieces_eq_splitOn, ih others,
      pieces_eq_splitOn, List.splitOn_eq_singleton first]
    rfl

end Text

namespace Event

/-! ## Values -/

/-- A value with a backslash and an `n` in the place of every line feed. -/
def oneLine (value : String) : List Char :=
  value.toList.flatMap fun c => if c = '\n' then ['\\', 'n'] else [c]

theorem escapeLineFeeds_eq_flatMap (value : String) :
    escapeLineFeeds value.toList = oneLine value := by
  unfold oneLine
  induction value.toList with
  | nil => rfl
  | cons c rest ih =>
    rw [escapeLineFeeds, List.flatMap_cons, ih]
    split <;> rfl

theorem lineFeed_not_mem_oneLine (value : String) : '\n' ∉ oneLine value := by
  intro member
  obtain ⟨c, -, inside⟩ := List.mem_flatMap.1 member
  split at inside
  case isTrue => simp at inside
  case isFalse other => exact other (List.mem_singleton.1 inside).symm

/-! ## Tags -/

/-- The tag of the event is written without blanks. -/
def Solid (event : Event) : Prop :=
  ∀ c ∈ event.tag.text.toList, Text.isBlank c = false

theorem Solid.not_mem {event : Event} (solid : event.Solid) {c : Char}
    (blank : Text.isBlank c = true) : c ∉ event.tag.text.toList := by
  intro member
  rw [solid c member] at blank
  cases blank

theorem solid_of_any_eq_false {event : Event}
    (none : event.tag.text.toList.any Text.isBlank = false) : event.Solid :=
  fun c member => Bool.eq_false_iff.2 (List.any_eq_false.1 none c member)

end Event

theorem Comment.solid_of_mem_events {marker : Char} {body : List Char} {event : Event}
    (member : event ∈ (parse marker body).events) : event.Solid := by
  simp only [events, tagEvents, List.cons_append, List.mem_cons, List.mem_append, List.mem_map,
    List.not_mem_nil, or_false] at member
  rcases member with rfl | ⟨tag, inTags, rfl⟩ | rfl | rfl
  · exact Event.solid_of_any_eq_false (by decide)
  · obtain ⟨part, -, name⟩ := exists_part_of_mem_tags inTags
    intro c inText
    rw [Event.tag_ofRaw, Tag.text_ofName, trimmed_name inTags, name] at inText
    exact Text.not_blank_of_mem_word inText
  · have none : "description".toList.any Text.isBlank = false := by decide
    exact Event.solid_of_any_eq_false none
  · exact Event.solid_of_any_eq_false (by decide)

theorem Source.solid_of_mem_events {marker : Char} {source : String} {event : Event}
    (member : event ∈ events marker source) : event.Solid := by
  obtain ⟨comment, inComments, inside⟩ := List.mem_flatMap.1 member
  obtain ⟨body, -, rfl⟩ := List.mem_map.1 inComments
  exact Comment.solid_of_mem_events inside

namespace Event

/-! ## Lines -/

/-- The line of an event without its end. -/
def row (event : Event) : List Char :=
  event.tag.text.toList ++ '\t' :: oneLine event.value

theorem line_eq (event : Event) : event.line = event.row ++ ['\n'] := by
  rw [line, escapeLineFeeds_eq_flatMap, row]

theorem toList_listing (events : List Event) :
    (listing events).toList = (events.map row).flatMap (· ++ ['\n']) := by
  rw [listing, String.toList_ofList, List.flatMap_map]
  exact congrArg (events.flatMap ·) (funext line_eq)

theorem lineFeed_not_mem_row {event : Event} (solid : event.Solid) : '\n' ∉ event.row := by
  intro member
  rcases List.mem_append.1 member with inTag | later
  · exact solid.not_mem (by decide) inTag
  · rcases List.mem_cons.1 later with tabulator | inValue
    · cases tabulator
    · exact lineFeed_not_mem_oneLine _ inValue

theorem firstSplit?_row {event : Event} (solid : event.Solid) :
    Text.firstSplit? '\t' event.row = some (event.tag.text.toList, oneLine event.value) :=
  Text.firstSplit?_append (solid.not_mem (by decide)) _

/-- The tag that a line tells. -/
def rowTag (row : List Char) : Option Tag :=
  (Text.firstSplit? '\t' row).map fun parts => Tag.ofName (String.ofList parts.1)

/-- The tags that a listing tells, line by line. -/
def listedTags (text : String) : List (Option Tag) :=
  (Text.pieces '\n' text.toList).dropLast.map rowTag

theorem rowTag_row {event : Event} (solid : event.Solid) (named : event.Named) :
    rowTag event.row = some event.tag := by
  obtain ⟨written, tag⟩ := named
  rw [rowTag, firstSplit?_row solid, Option.map_some, String.ofList_toList, tag, Tag.text_ofName]

/-- The listing of a source text has exactly one line for each event, with no other line feed. At its
first tabulator a line splits into the name of the tag and the value, in which only the line feeds
are written otherwise. So the tags are read back from the listing. -/
theorem listing_tells_events (marker : Char) (source : String) :
    let events := Source.events marker source
    ∃ rows : List (List Char),
      (listing events).toList = rows.flatMap (· ++ ['\n']) ∧
      (∀ row ∈ rows, '\n' ∉ row) ∧
      rows.map (Text.firstSplit? '\t') =
        events.map (fun event => some (event.tag.text.toList, oneLine event.value)) ∧
      listedTags (listing events) = events.map fun event => some event.tag := by
  intro events
  have solid : ∀ event ∈ events, event.Solid := fun _ => Source.solid_of_mem_events
  have named : ∀ event ∈ events, event.Named := fun _ => Source.named_of_mem_events
  have plain : ∀ written ∈ events.map row, '\n' ∉ written :=
    List.forall_mem_map.2 fun event member => lineFeed_not_mem_row (solid event member)
  refine ⟨events.map row, toList_listing events, plain, ?_, ?_⟩
  · rw [List.map_map]
    exact List.map_congr_left fun event member => firstSplit?_row (solid event member)
  · rw [listedTags, toList_listing, Text.pieces_lines plain, List.dropLast_concat, List.map_map]
    exact List.map_congr_left fun event member =>
      rowTag_row (solid event member) (named event member)

end Event

end DocCatalog
