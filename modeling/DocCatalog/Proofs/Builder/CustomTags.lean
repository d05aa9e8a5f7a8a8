import DocCatalog.Proofs.Builder.Layouts
import DocCatalog.Proofs.Record.Fields

/-!
# Custom tags keep apart from the fields

A tag that is made from a name is a custom tag only when no tag with a meaning of its own has that
name, and every field of a record has the name of such a tag. So no record that is built from named
tags can have a custom tag in the place of a field, whatever the names say.

Results:
1. `Record.KeysApart.apply`: a named tag keeps the custom tags of a record apart from its fields.
2. `keysApart_of_mem_placements`, `keysApart_of_mem_records`: so do all records that a run stores.
3. `Source.named_of_mem_events`: a source text has named tags only.
-/

namespace DocCatalog

/-! ## Named tags -/

/-- The tag of the event is made from a name. -/
def Event.Named (event : Event) : Prop :=
  ∃ written, event.tag = Tag.ofName written

theorem Event.tag_ofRaw (name value : String) :
    (ofRaw name value).tag = Tag.ofName (Text.trimmed name) := by
  rw [ofRaw, make]

/-- A name of a tag with a meaning of its own does not become a custom tag. -/
theorem Tag.not_mem_reserved_of_ofName {written name : String}
    (custom : ofName written = .custom name) : name ∉ reserved.map text := by
  have same : written = name := by rw [← text_ofName written, custom]; rfl
  subst same
  intro inReserved
  obtain ⟨tag, member, text⟩ := List.mem_map.1 inReserved
  unfold ofName at custom
  cases found : reserved.find? fun tag => tag.text == written with
  | none => simpa [text] using List.find?_eq_none.1 found tag member
  | some other =>
    rw [found] at custom
    obtain rfl : other = .custom written := custom
    exact absurd (List.mem_of_find?_eq_some found) (by simp [reserved])

theorem Record.fieldKeys_subset : fieldKeys ⊆ Tag.reserved.map Tag.text := by
  decide

/-! ## One record -/

namespace Record

theorem keysApart_default : ({} : Record).KeysApart :=
  fun _ member => absurd member List.not_mem_nil

theorem KeysApart.addCustom {record : Record} (apart : record.KeysApart) {name : String}
    (own : name ∉ fieldKeys) (value : String) : (record.addCustom name value).KeysApart := by
  intro key member
  obtain ⟨pair, inTable, rfl⟩ := List.mem_map.1 member
  rcases Table.keys_alter_mem inTable with fresh | old
  · exact fresh ▸ own
  · exact apart pair.1 (List.mem_map_of_mem old)

theorem KeysApart.setKind {record : Record} (apart : record.KeysApart) (kind : Kind) :
    (record.setKind kind).KeysApart := by
  cases kind <;> exact apart

theorem KeysApart.apply {record : Record} (apart : record.KeysApart) {tag : Tag}
    {written : String} (named : tag = Tag.ofName written) (value : String) :
    (record.apply tag value).KeysApart := by
  cases tag with
  | kind kind => exact apart.setKind kind
  | custom name =>
    have own : name ∉ fieldKeys := fun field =>
      Tag.not_mem_reserved_of_ofName named.symm (fieldKeys_subset field)
    rw [Record.apply]
    split
    · exact apart
    · exact apart.addCustom own value
  | _ => exact apart

end Record

/-! ## A run -/

namespace Builder

theorem keysApart_step {builder : Builder} {event : Event} (named : event.Named)
    (apart : ∀ record ∈ builder.current, record.KeysApart) :
    ∀ record ∈ (builder.step event).current, record.KeysApart := by
  obtain ⟨written, tag⟩ := named
  have moved := transition_step builder event
  generalize builder.step event = next at moved
  cases moved with
  | opens _ =>
    rintro _ ⟨⟩
    exact Record.keysApart_default
  | idles _ _ | rescopes _ => exact apart
  | discards _ _ _ | commits _ _ _ => rintro _ ⟨⟩
  | fills _ _ _ =>
    intro record filled
    obtain ⟨before, opened, rfl⟩ := Option.map_eq_some_iff.1 filled
    exact (apart before opened).apply tag event.value

theorem keysApart_of_pending? {builder : Builder} {placement : Placement}
    (apart : ∀ record ∈ builder.current, record.KeysApart)
    (found : builder.pending? = some placement) : placement.record.KeysApart := by
  obtain ⟨record, opened, inner⟩ := Option.bind_eq_some_iff.1 found
  obtain ⟨_, -, rfl⟩ := Option.map_eq_some_iff.1 inner
  -- Resolving the place changes the name and the namespace of the record only.
  exact apart record opened

theorem keysApart_of_mem_placements {builder : Builder} {events : List Event}
    (named : ∀ event ∈ events, event.Named) (apart : ∀ record ∈ builder.current, record.KeysApart)
    {placement : Placement} (member : placement ∈ builder.placements events) :
    placement.record.KeysApart := by
  induction events generalizing builder with
  | nil => exact absurd member List.not_mem_nil
  | cons event rest ih =>
    obtain ⟨first, others⟩ := List.forall_mem_cons.1 named
    rcases List.mem_append.1 member with now | later
    · rw [placement?] at now
      split at now
      · exact keysApart_of_pending? apart (by simpa using now)
      · exact absurd now (by simp)
    · exact ih others (keysApart_step first apart) later

theorem keysApart_of_mem_placements_start {layout : Layout} {events : List Event}
    (named : ∀ event ∈ events, event.Named) {placement : Placement}
    (member : placement ∈ (start layout).placements events) : placement.record.KeysApart :=
  keysApart_of_mem_placements named (fun _ opened => by cases opened) member

/-- The custom tags of every record of a catalog keep apart from the fields. -/
theorem keysApart_of_mem_records {layout : Layout} {events : List Event}
    (named : ∀ event ∈ events, event.Named) :
    ∀ record ∈ ((start layout).run events).finish.records, record.KeysApart := by
  intro record member
  have none : (Catalog.empty layout).records = [] := by cases layout <;> rfl
  have stored : record ∈ (Catalog.empty layout).records ++
      ((start layout).placements events).map Placement.record := by
    rw [finish, (Catalog.records_sorted _).mem_iff, catalog_run] at member
    exact (Catalog.records_foldl_place _ _).mem_iff.1 member
  rw [none, List.nil_append] at stored
  obtain ⟨placement, placed, rfl⟩ := List.mem_map.1 stored
  exact keysApart_of_mem_placements_start named placed

end Builder

/-! ## Source texts -/

theorem Comment.named_of_mem_events {comment : Comment} {event : Event}
    (member : event ∈ comment.events) : event.Named := by
  simp only [events, tagEvents, List.cons_append, List.mem_cons, List.mem_append, List.mem_map,
    List.not_mem_nil, or_false] at member
  rcases member with rfl | ⟨⟨name, value⟩, -, rfl⟩ | rfl | rfl
  · exact ⟨"/**", by decide⟩
  · exact ⟨Text.trimmed name, Event.tag_ofRaw name value⟩
  · exact ⟨"description", (by decide : Tag.description = Tag.ofName "description")⟩
  · exact ⟨"*/", by decide⟩

theorem Comment.named_of_mem_flatMap {comments : List Comment} {event : Event}
    (member : event ∈ comments.flatMap Comment.events) : event.Named := by
  obtain ⟨comment, -, inComment⟩ := List.mem_flatMap.1 member
  exact named_of_mem_events inComment

theorem Source.named_of_mem_events {marker : Char} {source : String} {event : Event}
    (member : event ∈ events marker source) : event.Named :=
  Comment.named_of_mem_flatMap member

end DocCatalog
