import DocCatalog.Format
import DocCatalog.Proofs.Builder.CustomTags
import DocCatalog.Proofs.Record.RoundTrip

/-!
# Catalogs that are read back

What is written for records and entries is read back exactly when no custom tag has the name of a
field. Records that were read, and records that a builder commits, are always of that kind, so a
list catalog loses nothing when it is written and read again.

Results:
1. `Record.readsBack_iff`, `Entry.readsBack_iff`: keeping apart is what reading back takes.
2. `readList?_render`: the text of a list catalog is read back as its records.
3. `records_reload`: both, together with where such records come from.
-/

namespace DocCatalog

/-- The text of the record, however it is spaced, is read as that record. -/
def Record.ReadsBack (record : Record) : Prop :=
  ∀ spacing, read? (record.toJson.render spacing) = some record

/-- The text of the entry, however it is spaced, is read as that entry. -/
def Entry.ReadsBack (entry : Entry) : Prop :=
  ∀ spacing, read? (entry.toJson.render spacing) = some entry

theorem Record.readsBack_iff {record : Record} : record.ReadsBack ↔ record.KeysApart :=
  ⟨fun back => keysApart_of_read? (back .compact), fun apart => read?_render apart⟩

theorem Entry.readsBack_iff {entry : Entry} : entry.ReadsBack ↔ entry.KeysApart :=
  ⟨fun back => keysApart_of_read? (back .compact), fun apart => read?_render apart⟩

namespace Catalog

/-- The formats that can be read again. -/
def jsonFormats : List Format :=
  [.json, .jsonPretty]

theorem exists_spacing {format : Format} (json : format ∈ jsonFormats) :
    ∃ spacing, ∀ (coloured : Bool) (catalog : Catalog),
      catalog.render format coloured = catalog.toJson.render spacing := by
  rcases List.mem_cons.1 json with rfl | pretty
  · exact ⟨.compact, fun _ _ => rfl⟩
  · obtain rfl := List.mem_singleton.1 pretty
    exact ⟨.pretty, fun _ _ => rfl⟩

theorem readList?_render {records : List Record} (apart : ∀ record ∈ records, record.KeysApart)
    {format : Format} (json : format ∈ jsonFormats) (coloured : Bool) :
    Record.readList? ((flat records).render format coloured) = some records := by
  obtain ⟨spacing, rendered⟩ := exists_spacing json
  rw [rendered]
  exact Record.readList?_render apart spacing

/-- The list catalog of a source is a list of records whose custom tags keep apart. -/
theorem ofSource_flat (marker : Char) (source : String) :
    ∃ records, ofSource marker .flat source = .flat records ∧
      ∀ record ∈ records, record.KeysApart := by
  refine ⟨_, Builder.finish_flat (Source.events marker source), fun record member => ?_⟩
  have named : ∀ event ∈ Source.events marker source, event.Named :=
    fun _ => Source.named_of_mem_events
  have kept : ∀ record ∈ ((Builder.start .flat).run (Source.events marker source)).finish.records,
      record.KeysApart := Builder.keysApart_of_mem_records named
  rw [Builder.finish_flat] at kept
  exact kept record member

/-- A record is read back from its text exactly when no custom tag has the name of a field, and an
entry exactly when that holds of all its records; a record alone stays apart from a group, of one
record or of none as well. Every record that is read from a text, alone or in an entry, and every
record that a builder commits for named tags is of that kind. So what was read can be written and
read again, and the text of the list catalog of a source gives its list of records. -/
theorem records_reload :
    (∀ record : Record, record.ReadsBack ↔ record.KeysApart) ∧
    (∀ entry : Entry, entry.ReadsBack ↔ ∀ record ∈ entry.records, record.KeysApart) ∧
    (∀ text record, Record.read? text = some record → record.KeysApart ∧ record.ReadsBack) ∧
    (∀ text entry, Entry.read? text = some entry →
      (∀ record ∈ entry.records, record.KeysApart) ∧ entry.ReadsBack) ∧
    (∀ layout events, (∀ event ∈ events, event.Named) →
      ∀ record ∈ ((Builder.start layout).run events).finish.records,
        record.KeysApart ∧ record.ReadsBack) ∧
    ∀ marker source, ∃ records, ofSource marker .flat source = .flat records ∧
      ∀ format ∈ jsonFormats, ∀ coloured,
        Record.readList? ((flat records).render format coloured) = some records := by
  refine ⟨fun _ => Record.readsBack_iff, fun _ => Entry.readsBack_iff, fun text record accepted => ?_,
    fun text entry accepted => ?_, fun layout events named record member => ?_,
    fun marker source => ?_⟩
  · have apart := Record.keysApart_of_read? accepted
    exact ⟨apart, Record.readsBack_iff.2 apart⟩
  · have apart := Entry.keysApart_of_read? accepted
    exact ⟨apart, Entry.readsBack_iff.2 apart⟩
  · have apart := Builder.keysApart_of_mem_records named record member
    exact ⟨apart, Record.readsBack_iff.2 apart⟩
  · obtain ⟨records, flat, apart⟩ := ofSource_flat marker source
    exact ⟨records, flat, fun format json coloured => readList?_render apart json coloured⟩

/-- A record whose texts need escapes and whose nested values are empty. One custom tag is almost a
field, and one has an empty name and no values. -/
def quotedRecord : Record where
  name := some "a\"b\\\n\x01"
  isClass := true
  params := [{ optional := true, defaultValue := some "\x7b\x7d" }, {}]
  result := some {}
  custom := (Dictionary.empty.alter "returns" fun _ => ["", "\t"]).alter "" fun _ => []

def quotedEvents : List Event :=
  [(⟨"\n", [("returns", "\"sum\""), ("class", "a\nb")]⟩ : Comment)].flatMap Comment.events

theorem records_reload_quoted :
    quotedRecord.KeysApart ∧
    Record.read? (quotedRecord.toJson.render .pretty) = some quotedRecord ∧
    quotedRecord.ReadsBack ∧
    Entry.read? ((Entry.overloads [quotedRecord]).toJson.render .compact) =
      some (.overloads [quotedRecord]) ∧
    (Entry.overloads [quotedRecord]).ReadsBack ∧
    (∀ event ∈ quotedEvents, event.Named) ∧
    ∀ record ∈ ((Builder.start .flat).run quotedEvents).finish.records,
      record.KeysApart ∧ record.ReadsBack := by
  obtain ⟨records, entries, readRecord, readEntry, committed, -⟩ := records_reload
  have apart : quotedRecord.KeysApart := by decide
  have record : Record.read? (quotedRecord.toJson.render .pretty) = some quotedRecord :=
    (records quotedRecord).2 apart .pretty
  have entry : Entry.read? ((Entry.overloads [quotedRecord]).toJson.render .compact) =
      some (.overloads [quotedRecord]) :=
    (entries (.overloads [quotedRecord])).2 (List.forall_mem_singleton.2 apart) .compact
  have named : ∀ event ∈ quotedEvents, event.Named := fun _ => Comment.named_of_mem_flatMap
  exact ⟨apart, record, (readRecord _ _ record).2, entry, (readEntry _ _ entry).2, named,
    committed .flat quotedEvents named⟩

end Catalog

end DocCatalog
