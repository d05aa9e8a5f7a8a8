import DocCatalog.Proofs.Record.Fields

/-!
# Records that are read back

Reading takes a member for a field by its key, and everything else for a custom tag. So the text of a
record is read back as that record when its custom tags keep apart from the fields, and the text of
an entry when all its records do. What is read always keeps apart, so it can be written and read
again without end.

Results:
1. `Record.ofMembers?_members`: the members of a record are read back.
2. `Record.read?_render`, `Entry.read?_render`, `Record.readList?_render`: so are the texts of
   records, entries and lists.
3. `Record.keysApart_of_read?`, `Entry.keysApart_of_read?`: what is read keeps apart.
-/

namespace DocCatalog

/-! ## Lists -/

theorem readArray?_map {α : Type} {write : α → Json} {read? : Json → Option α} {items : List α}
    (back : ∀ item ∈ items, read? (write item) = some item) :
    readArray? read? (.array (items.map write)) = some items := by
  rw [readArray?]
  induction items with
  | nil => rfl
  | cons item rest ih =>
    obtain ⟨first, others⟩ := List.forall_mem_cons.1 back
    rw [List.map_cons, List.mapM_cons, first, ih others]
    rfl

/-- Every value that is read from the items was read from one of them. -/
theorem exists_mem_of_mapM {α : Type} {read? : Json → Option α} {items : List Json}
    {values : List α} (accepted : items.mapM read? = some values) :
    ∀ value ∈ values, ∃ item ∈ items, read? item = some value := by
  induction items generalizing values with
  | nil =>
    obtain rfl : [] = values := by simpa using accepted
    exact fun _ member => absurd member List.not_mem_nil
  | cons item rest ih =>
    rw [List.mapM_cons] at accepted
    obtain ⟨first, found, others⟩ := Option.bind_eq_some_iff.1 accepted
    obtain ⟨more, readMore, equal⟩ := Option.bind_eq_some_iff.1 others
    obtain rfl : first :: more = values := by simpa using equal
    intro value member
    rcases List.mem_cons.1 member with rfl | inMore
    · exact ⟨item, List.mem_cons_self, found⟩
    · obtain ⟨source, inRest, read⟩ := ih readMore value inMore
      exact ⟨source, List.mem_cons_of_mem _ inRest, read⟩

/-! ## Parameters and return values -/

theorem Param.ofJson?_toJson (param : Param) : ofJson? param.toJson = some param := by
  have text (key : String) (value : Option String)
      (member : (key, value.map Json.string) ∈ param.slots) :
      readMember? key none readNullableText? (written param.slots ++ []) = some value :=
    readMember?_nullableText param.nodup_slots (by simp) member
  have type := text "type" param.type (by simp [slots])
  have optional : readMember? "optional" false readBoolean? (written param.slots ++ []) =
      some param.optional := readMember?_boolean param.nodup_slots (by simp) (by simp [slots])
  have name := text "name" param.name (by simp [slots])
  have defaultValue := text "defaultValue" param.defaultValue (by simp [slots])
  have description := text "description" param.description (by simp [slots])
  rw [toJson_eq, ← List.append_nil (written param.slots)]
  simp only [ofJson?, readFields?, bind, Option.bind_some, type, optional, name, defaultValue,
    description]
  rfl

theorem ReturnValue.ofJson?_toJson (returned : ReturnValue) :
    ofJson? returned.toJson = some returned := by
  have text (key : String) (value : Option String)
      (member : (key, value.map Json.string) ∈ returned.slots) :
      readMember? key none readNullableText? (written returned.slots ++ []) = some value :=
    readMember?_nullableText returned.nodup_slots (by simp) member
  have type := text "type" returned.type (by simp [slots])
  have description := text "description" returned.description (by simp [slots])
  rw [toJson_eq, ← List.append_nil (written returned.slots)]
  simp only [ofJson?, readFields?, bind, Option.bind_some, type, description]
  rfl

theorem ReturnValue.ofNullableJson?_toJson (returned : ReturnValue) :
    ofNullableJson? returned.toJson = some (some returned) := by
  have read : ofNullableJson? returned.toJson = (ofJson? returned.toJson).map some := rfl
  rw [read, ofJson?_toJson]
  rfl

/-! ## Custom tags -/

theorem readArray?_textArray (texts : List String) :
    readArray? readText? (textArray texts) = some texts :=
  readArray?_map fun _ _ => rfl

namespace Record

/-- Tags that come in the order of their names are added one after the other. -/
theorem readCustom?_map (tags : Table (List String)) (custom : Dictionary (List String))
    (ordered : Table.Ordered (custom.table ++ tags)) :
    readCustom? (tags.map fun tag => (tag.1, textArray tag.2)) custom =
      some ⟨custom.table ++ tags, ordered⟩ := by
  induction tags generalizing custom with
  | nil => simp [readCustom?]
  | cons tag rest ih =>
    obtain ⟨name, values⟩ := tag
    have above : ∀ pair ∈ custom.table, pair.1 < name := fun pair member =>
      (List.pairwise_append.1 ordered).2.2 pair member (name, values) List.mem_cons_self
    have added : (custom.alter name fun _ => values).table = custom.table ++ [(name, values)] :=
      Table.alter_eq_append above
    have later : Table.Ordered ((custom.alter name fun _ => values).table ++ rest) := by
      rwa [added, List.append_assoc]
    simp only [List.map_cons, readCustom?, readArray?_textArray, bind, Option.bind_some]
    rw [ih _ later]
    simp only [added, List.append_assoc, List.singleton_append]

theorem readCustom?_customMembers (record : Record) :
    readCustom? record.customMembers .empty = some record.custom :=
  readCustom?_map record.custom.table .empty record.custom.ordered

/-- The custom tags are told from the fields by their keys. -/
theorem KeysApart.filter_members {record : Record} (apart : record.KeysApart) :
    (record.members.filter fun entry => !fieldKeys.contains entry.1) = record.customMembers := by
  have fields : (written record.slots).filter (fun entry => !fieldKeys.contains entry.1) = [] := by
    refine List.filter_eq_nil_iff.2 fun entry member => ?_
    have field : entry.1 ∈ fieldKeys := by
      rw [← record.keys_slots]
      exact List.mem_map.2 ⟨_, mem_written.1 member, rfl⟩
    simp [field]
  have custom : record.customMembers.filter (fun entry => !fieldKeys.contains entry.1) =
      record.customMembers := by
    refine List.filter_eq_self.2 fun entry member => ?_
    have own : entry.1 ∉ fieldKeys := fun field => apart.away field entry member rfl
    simp [own]
  rw [members_eq, List.filter_append, fields, custom, List.nil_append]

theorem readMember?_params (record : Record) {others : List (String × Json)}
    (away : ∀ entry ∈ others, entry.1 ≠ "param") :
    readMember? "param" [] (readArray? Param.ofJson?) (written record.slots ++ others) =
      some record.params := by
  have member : ("param", paramsValue record.params) ∈ record.slots := by simp [slots]
  rw [readMember?_written record.nodup_slots member away]
  cases record.params with
  | nil => rfl
  | cons first rest =>
    exact readArray?_map fun param _ => param.ofJson?_toJson

theorem readMember?_result (record : Record) {others : List (String × Json)}
    (away : ∀ entry ∈ others, entry.1 ≠ "return") :
    readMember? "return" none ReturnValue.ofNullableJson? (written record.slots ++ others) =
      some record.result := by
  have member : ("return", record.result.map ReturnValue.toJson) ∈ record.slots := by simp [slots]
  rw [readMember?_written record.nodup_slots member away]
  cases record.result with
  | none => rfl
  | some returned => exact returned.ofNullableJson?_toJson

theorem ofMembers?_members {record : Record} (apart : record.KeysApart) :
    ofMembers? record.members = some record := by
  have nodup := record.nodup_slots
  have set (key : String) (set : Bool) (field : key ∈ fieldKeys)
      (member : (key, flagValue set) ∈ record.slots) :
      readMember? key false readBoolean? (written record.slots ++ record.customMembers) = some set :=
    readMember?_flag nodup (apart.away field) member
  have text (key value : String) (field : key ∈ fieldKeys)
      (member : (key, some (Json.string value)) ∈ record.slots) :
      readMember? key "" readText? (written record.slots ++ record.customMembers) = some value :=
    readMember?_text nodup (apart.away field) member
  have name : readMember? "name" none readNullableText?
      (written record.slots ++ record.customMembers) = some record.name :=
    readMember?_nullableText nodup (apart.away (by decide)) (by simp [slots])
  have scope := text "namespace" record.scope (by decide) (by simp [slots])
  have isFunction := set "function" record.isFunction (by decide) (by simp [slots])
  have isClass := set "class" record.isClass (by decide) (by simp [slots])
  have isObject := set "object" record.isObject (by decide) (by simp [slots])
  have isField := set "field" record.isField (by decide) (by simp [slots])
  have description := text "description" record.description (by decide) (by simp [slots])
  have isPrivate := set "private" record.isPrivate (by decide) (by simp [slots])
  have isDeprecated := set "deprecated" record.isDeprecated (by decide) (by simp [slots])
  have params := record.readMember?_params (apart.away (by decide))
  have result := record.readMember?_result (apart.away (by decide))
  rw [ofMembers?, apart.filter_members, readCustom?_customMembers, members_eq]
  simp only [name, scope, isFunction, isClass, isObject, isField, description, params, result,
    isPrivate, isDeprecated]
  rfl

theorem ofJson?_toJson {record : Record} (apart : record.KeysApart) :
    ofJson? record.toJson = some record :=
  ofMembers?_members apart

/-- The text of a record is read back as that record. -/
theorem read?_render {record : Record} (apart : record.KeysApart) (spacing : Json.Spacing) :
    read? (record.toJson.render spacing) = some record := by
  rw [read?, Json.read_render (apart.plainWithin_toJson 0).plain, Option.bind_some]
  exact ofJson?_toJson apart

/-- Reads the text of a list of records. -/
def readList? (text : String) : Option (List Record) :=
  (Json.read? text).bind (readArray? ofJson?)

theorem readList?_render {records : List Record} (apart : ∀ record ∈ records, record.KeysApart)
    (spacing : Json.Spacing) :
    readList? ((Json.array (records.map toJson)).render spacing) = some records := by
  have plain : (Json.array (records.map toJson)).Plain :=
    .array (List.forall_mem_map.2 fun record member =>
      ((apart record member).plainWithin_toJson 0).plain)
  rw [readList?, Json.read_render plain]
  exact readArray?_map fun record member => ofJson?_toJson (apart record member)

end Record

/-! ## Entries -/

/-- No record of the entry has a custom tag with the name of a field. -/
def Entry.KeysApart (entry : Entry) : Prop :=
  ∀ record ∈ entry.records, record.KeysApart

namespace Entry

theorem KeysApart.plainWithin_toJson {entry : Entry} (apart : entry.KeysApart) (nesting : Nat) :
    entry.toJson.PlainWithin (nesting + 4) := by
  cases entry with
  | single record => exact (apart record List.mem_cons_self).plainWithin_toJson (nesting + 1)
  | overloads records =>
    exact Json.plainWithin_array
      (List.forall_mem_map.2 fun record member => (apart record member).plainWithin_toJson nesting)

theorem ofJson?_toJson {entry : Entry} (apart : entry.KeysApart) :
    ofJson? entry.toJson = some entry := by
  cases entry with
  | single record =>
    have read : ofJson? (single record).toJson = (Record.ofMembers? record.members).map single := rfl
    rw [read, Record.ofMembers?_members (apart record List.mem_cons_self)]
    rfl
  | overloads records =>
    have read : ofJson? (overloads records).toJson =
        (readArray? Record.ofJson? (.array (records.map Record.toJson))).map overloads := rfl
    have back : ∀ record ∈ records, Record.ofJson? record.toJson = some record :=
      fun record member => Record.ofJson?_toJson (apart record member)
    rw [read, readArray?_map back]
    rfl

/-- The text of an entry is read back as that entry: one record alone is not a group of one. -/
theorem read?_render {entry : Entry} (apart : entry.KeysApart) (spacing : Json.Spacing) :
    read? (entry.toJson.render spacing) = some entry := by
  have within : entry.toJson.PlainWithin maxNesting := apart.plainWithin_toJson 123
  rw [read?, Json.read_render within.plain, Option.bind_some, if_pos within.fits]
  exact ofJson?_toJson apart

end Entry

/-! ## What is read keeps apart -/

namespace Record

theorem keys_readCustom? {members : List (String × Json)} {custom result : Dictionary (List String)}
    (accepted : readCustom? members custom = some result) :
    ∀ key ∈ Table.keys result.table,
      key ∈ Table.keys custom.table ∨ ∃ entry ∈ members, entry.1 = key := by
  induction members generalizing custom with
  | nil =>
    obtain rfl : custom = result := by simpa [readCustom?] using accepted
    exact fun _ member => Or.inl member
  | cons entry rest ih =>
    obtain ⟨values, -, readRest⟩ := Option.bind_eq_some_iff.1 accepted
    intro key member
    rcases ih readRest key member with before | ⟨other, inRest, equal⟩
    · obtain ⟨pair, inTable, rfl⟩ := List.mem_map.1 before
      rcases Table.keys_alter_mem inTable with fresh | old
      · exact Or.inr ⟨entry, List.mem_cons_self, fresh.symm⟩
      · exact Or.inl (List.mem_map_of_mem old)
    · exact Or.inr ⟨other, List.mem_cons_of_mem _ inRest, equal⟩

theorem keysApart_of_ofMembers? {members : List (String × Json)} {record : Record}
    (accepted : ofMembers? members = some record) : record.KeysApart := by
  simp only [ofMembers?, bind, Option.bind_eq_some_iff, pure, Option.some.injEq] at accepted
  obtain ⟨_, -, _, -, _, -, _, -, _, -, _, -, _, -, _, -, _, -, _, -, _, -, custom, read, rfl⟩ :=
    accepted
  intro key member
  rcases keys_readCustom? read key member with inEmpty | ⟨entry, unknown, rfl⟩
  · exact absurd inEmpty List.not_mem_nil
  · simpa using (List.mem_filter.1 unknown).2

theorem keysApart_of_ofJson? {json : Json} {record : Record} (accepted : ofJson? json = some record) :
    record.KeysApart := by
  cases json with
  | object members => exact keysApart_of_ofMembers? accepted
  | _ => cases accepted

theorem keysApart_of_read? {text : String} {record : Record} (accepted : read? text = some record) :
    record.KeysApart := by
  obtain ⟨json, -, read⟩ := Option.bind_eq_some_iff.1 accepted
  exact keysApart_of_ofJson? read

end Record

namespace Entry

theorem keysApart_of_ofJson? {json : Json} {entry : Entry} (accepted : ofJson? json = some entry) :
    entry.KeysApart := by
  cases json with
  | object members =>
    obtain ⟨record, read, rfl⟩ := Option.map_eq_some_iff.1 accepted
    exact List.forall_mem_singleton.2 (Record.keysApart_of_ofMembers? read)
  | array items =>
    obtain ⟨records, read, rfl⟩ := Option.map_eq_some_iff.1 accepted
    intro record member
    obtain ⟨item, -, found⟩ := exists_mem_of_mapM read record member
    exact Record.keysApart_of_ofJson? found
  | _ => cases accepted

theorem keysApart_of_read? {text : String} {entry : Entry} (accepted : read? text = some entry) :
    entry.KeysApart := by
  obtain ⟨json, -, read⟩ := Option.bind_eq_some_iff.1 accepted
  split at read
  · exact keysApart_of_ofJson? read
  · cases read

end Entry

end DocCatalog
