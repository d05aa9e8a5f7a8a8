import DocCatalog.Proofs.Json.RoundTrip
import DocCatalog.Proofs.Table
import DocCatalog.Record.Json

/-!
# The members of a record

A parameter, a return value and a record are written as slots: every key once, in a fixed order,
each with a value or left out. So what is found under a key does not depend on what the other slots
hold. The custom tags of a record follow its slots and share their key space, and they stay apart
from them as long as no tag has the name of a field.

Results:
1. `readMember?_written`: a member is read from its own slot.
2. `Record.fields_eq_written`, `Record.KeysApart.nodup_members`: the keys of a record are distinct
   when its custom tags keep apart.
3. `Record.KeysApart.plainWithin_toJson`: such a record holds texts and flags only and nests three
   deep.
-/

namespace DocCatalog

/-! ## Slots -/

/-- The members of the slots that have a value. -/
def written (slots : List (String × Option Json)) : List (String × Json) :=
  slots.filterMap fun slot => slot.2.map fun value => (slot.1, value)

theorem written_cons (key : String) (value : Option Json) (rest : List (String × Option Json)) :
    written ((key, value) :: rest) = (value.map fun json => (key, json)).toList ++ written rest := by
  cases value <;> rfl

theorem mem_written {slots : List (String × Option Json)} {entry : String × Json} :
    entry ∈ written slots ↔ (entry.1, some entry.2) ∈ slots := by
  simp only [written, List.mem_filterMap, Option.map_eq_some_iff]
  constructor
  · rintro ⟨⟨key, _⟩, member, value, rfl, rfl⟩
    exact member
  · intro member
    exact ⟨_, member, entry.2, rfl, rfl⟩

theorem keys_written_sublist (slots : List (String × Option Json)) :
    ((written slots).map Prod.fst).Sublist (slots.map Prod.fst) := by
  induction slots with
  | nil => exact List.Sublist.slnil
  | cons slot rest ih =>
    obtain ⟨key, value⟩ := slot
    rw [written_cons]
    cases value with
    | none => exact ih.cons key
    | some json => exact ih.cons_cons key

theorem nodup_written {slots : List (String × Option Json)} (nodup : (slots.map Prod.fst).Nodup) :
    ((written slots).map Prod.fst).Nodup :=
  nodup.sublist (keys_written_sublist slots)

theorem filter_written {slots : List (String × Option Json)} (nodup : (slots.map Prod.fst).Nodup)
    {key : String} {value : Option Json} (member : (key, value) ∈ slots) :
    (written slots).filter (fun entry => entry.1 == key) =
      (value.map fun json => (key, json)).toList := by
  induction slots with
  | nil => exact absurd member List.not_mem_nil
  | cons slot rest ih =>
    obtain ⟨other, otherValue⟩ := slot
    obtain ⟨away, nodupRest⟩ := List.nodup_cons.1 nodup
    rw [written_cons, List.filter_append]
    rcases List.mem_cons.1 member with equal | inRest
    · obtain ⟨rfl, rfl⟩ := Prod.mk.inj equal
      have none : (written rest).filter (fun entry => entry.1 == key) = [] := by
        refine List.filter_eq_nil_iff.2 fun entry inWritten same => away ?_
        rw [← eq_of_beq same]
        exact List.mem_map.2 ⟨_, mem_written.1 inWritten, rfl⟩
      rw [none, List.append_nil]
      cases value <;> simp
    · have differs : other ≠ key := by
        rintro rfl
        exact away (List.mem_map.2 ⟨_, inRest, rfl⟩)
      rw [ih nodupRest inRest]
      cases otherValue <;> simp [differs]

/-- A member is read from its slot, whatever the other slots and the members behind them hold. -/
theorem readMember?_written {α : Type} {slots : List (String × Option Json)}
    (nodup : (slots.map Prod.fst).Nodup) {key : String} {value : Option Json}
    (member : (key, value) ∈ slots) {others : List (String × Json)}
    (away : ∀ entry ∈ others, entry.1 ≠ key) (absent : α) (read? : Json → Option α) :
    readMember? key absent read? (written slots ++ others) =
      value.elim (some absent) read? := by
  have none : others.filter (fun entry => entry.1 == key) = [] := by
    refine List.filter_eq_nil_iff.2 fun entry inOthers same => ?_
    exact away entry inOthers (eq_of_beq same)
  rw [readMember?, List.filter_append, filter_written nodup member, none, List.append_nil]
  cases value <;> rfl

/-! ## Slots of the three kinds of member -/

/-- The value of a flag that is left out when it is not set. -/
def flagValue (set : Bool) : Option Json :=
  if set then some (.boolean true) else none

theorem flag_eq (key : String) (set : Bool) :
    flag key set = ((flagValue set).map fun json => (key, json)).toList := by
  cases set <;> rfl

theorem optionalText_eq (key : String) (value : Option String) :
    optionalText key value = ((value.map Json.string).map fun json => (key, json)).toList := by
  cases value <;> rfl

section Reading

variable {slots : List (String × Option Json)} (nodup : (slots.map Prod.fst).Nodup) {key : String}
  {others : List (String × Json)} (away : ∀ entry ∈ others, entry.1 ≠ key)

include nodup away

theorem readMember?_nullableText {value : Option String}
    (member : (key, value.map Json.string) ∈ slots) :
    readMember? key none readNullableText? (written slots ++ others) = some value := by
  rw [readMember?_written nodup member away]
  cases value <;> rfl

theorem readMember?_text {value : String} (member : (key, some (Json.string value)) ∈ slots) :
    readMember? key "" readText? (written slots ++ others) = some value := by
  rw [readMember?_written nodup member away]
  rfl

theorem readMember?_boolean {value : Bool} (member : (key, some (Json.boolean value)) ∈ slots) :
    readMember? key false readBoolean? (written slots ++ others) = some value := by
  rw [readMember?_written nodup member away]
  rfl

theorem readMember?_flag {set : Bool} (member : (key, flagValue set) ∈ slots) :
    readMember? key false readBoolean? (written slots ++ others) = some set := by
  rw [readMember?_written nodup member away]
  cases set <;> rfl

end Reading

/-! ## Parameters and return values -/

def Param.slots (param : Param) : List (String × Option Json) :=
  [("type", param.type.map Json.string), ("optional", some (.boolean param.optional)),
    ("name", param.name.map Json.string), ("defaultValue", param.defaultValue.map Json.string),
    ("description", param.description.map Json.string)]

def ReturnValue.slots (returned : ReturnValue) : List (String × Option Json) :=
  [("type", returned.type.map Json.string), ("description", returned.description.map Json.string)]

theorem Param.toJson_eq (param : Param) : param.toJson = .object (written param.slots) := by
  simp only [toJson, slots, written_cons, optionalText_eq, List.append_assoc]
  simp [written]

theorem ReturnValue.toJson_eq (returned : ReturnValue) :
    returned.toJson = .object (written returned.slots) := by
  simp only [toJson, slots, written_cons, optionalText_eq]
  simp [written]

theorem Param.nodup_slots (param : Param) : (param.slots.map Prod.fst).Nodup := by
  have keys : param.slots.map Prod.fst =
      ["type", "optional", "name", "defaultValue", "description"] := rfl
  rw [keys]
  decide

theorem ReturnValue.nodup_slots (returned : ReturnValue) :
    (returned.slots.map Prod.fst).Nodup := by
  have keys : returned.slots.map Prod.fst = ["type", "description"] := rfl
  rw [keys]
  decide

/-! ## Records -/

namespace Record

/-- The value of the parameters, which are left out when there are none. -/
def paramsValue (params : List Param) : Option Json :=
  if params = [] then none else some (.array (params.map Param.toJson))

theorem params_eq (params : List Param) :
    (if params = [] then [] else [("param", Json.array (params.map Param.toJson))]) =
      ((paramsValue params).map fun json => ("param", json)).toList := by
  unfold paramsValue
  split <;> rfl

def slots (record : Record) : List (String × Option Json) :=
  [("name", record.name.map Json.string), ("namespace", some (.string record.scope)),
    ("function", flagValue record.isFunction), ("class", flagValue record.isClass),
    ("object", flagValue record.isObject), ("field", flagValue record.isField),
    ("description", some (.string record.description)),
    ("param", paramsValue record.params),
    ("return", record.result.map ReturnValue.toJson), ("private", flagValue record.isPrivate),
    ("deprecated", flagValue record.isDeprecated)]

theorem keys_slots (record : Record) : record.slots.map Prod.fst = fieldKeys := rfl

theorem nodup_slots (record : Record) : (record.slots.map Prod.fst).Nodup := by
  rw [keys_slots]
  decide

theorem fields_eq_written (record : Record) : record.fields = written record.slots := by
  have result : (record.result.map fun returned => ("return", returned.toJson)) =
      (record.result.map ReturnValue.toJson).map fun json => ("return", json) := by
    rw [Option.map_map]
    rfl
  simp only [fields, slots, written_cons, optionalText_eq, flag_eq, params_eq, result,
    List.append_assoc]
  simp [written]

/-- No custom tag has the name of a field. -/
def KeysApart (record : Record) : Prop :=
  ∀ key ∈ Table.keys record.custom.table, key ∉ fieldKeys

instance (record : Record) : Decidable record.KeysApart :=
  inferInstanceAs (Decidable (∀ key ∈ Table.keys record.custom.table, key ∉ fieldKeys))

/-- The members of the custom tags. -/
def customMembers (record : Record) : List (String × Json) :=
  record.custom.table.map fun entry => (entry.1, textArray entry.2)

theorem members_eq (record : Record) :
    record.members = written record.slots ++ record.customMembers := by
  rw [members, fields_eq_written]
  rfl

theorem keys_customMembers (record : Record) :
    record.customMembers.map Prod.fst = Table.keys record.custom.table := by
  rw [customMembers, List.map_map]
  rfl

theorem KeysApart.away {record : Record} (apart : record.KeysApart) {key : String}
    (field : key ∈ fieldKeys) : ∀ entry ∈ record.customMembers, entry.1 ≠ key := by
  intro entry member equal
  have inKeys : entry.1 ∈ Table.keys record.custom.table := by
    rw [← keys_customMembers]
    exact List.mem_map_of_mem member
  exact apart entry.1 inKeys (equal ▸ field)

end Record

/-- The members of a record have distinct keys. -/
theorem Record.KeysApart.nodup_members {record : Record} (apart : record.KeysApart) :
    (record.members.map Prod.fst).Nodup := by
  rw [Record.members_eq, List.map_append]
  refine List.nodup_append.2 ⟨?_, ?_, ?_⟩
  · exact nodup_written record.nodup_slots
  · rw [Record.keys_customMembers]
    exact record.custom.ordered.nodup_keys
  · intro key inFields other inCustom equal
    have field : key ∈ Record.fieldKeys := (keys_written_sublist record.slots).mem inFields
    rw [Record.keys_customMembers] at inCustom
    exact apart other inCustom (equal ▸ field)

/-! ## Nesting -/

theorem plainWithin_written {nesting : Nat} {slots : List (String × Option Json)}
    (within : ∀ slot ∈ slots, ∀ json ∈ slot.2, json.PlainWithin nesting) :
    ∀ entry ∈ written slots, entry.2.PlainWithin nesting :=
  fun entry member => within _ (mem_written.1 member) entry.2 rfl

theorem plainWithin_text (nesting : Nat) (text : Option String) :
    ∀ json ∈ text.map Json.string, json.PlainWithin nesting := by
  rintro _ found
  obtain ⟨content, -, rfl⟩ := Option.map_eq_some_iff.1 found
  exact Json.plainWithin_string nesting content

theorem plainWithin_flagValue (nesting : Nat) (set : Bool) :
    ∀ json ∈ flagValue set, json.PlainWithin nesting := by
  rintro json found
  cases set with
  | false => cases found
  | true =>
    cases found
    exact Json.plainWithin_boolean nesting true

theorem Param.plainWithin_toJson (nesting : Nat) (param : Param) :
    param.toJson.PlainWithin (nesting + 1) := by
  rw [toJson_eq]
  refine Json.plainWithin_object (nodup_written param.nodup_slots) (plainWithin_written ?_)
  simp only [slots, List.forall_mem_cons, List.not_mem_nil, false_implies, implies_true, and_true]
  refine ⟨plainWithin_text nesting _, ?_, plainWithin_text nesting _, plainWithin_text nesting _,
    plainWithin_text nesting _⟩
  rintro _ ⟨⟩
  exact Json.plainWithin_boolean nesting param.optional

theorem ReturnValue.plainWithin_toJson (nesting : Nat) (returned : ReturnValue) :
    returned.toJson.PlainWithin (nesting + 1) := by
  rw [toJson_eq]
  refine Json.plainWithin_object (nodup_written returned.nodup_slots) (plainWithin_written ?_)
  simp only [slots, List.forall_mem_cons, List.not_mem_nil, false_implies, implies_true, and_true]
  exact ⟨plainWithin_text nesting _, plainWithin_text nesting _⟩

theorem plainWithin_textArray (nesting : Nat) (texts : List String) :
    (textArray texts).PlainWithin (nesting + 1) :=
  Json.plainWithin_array (List.forall_mem_map.2 fun text _ => Json.plainWithin_string nesting text)

namespace Record

theorem plainWithin_paramsValue (nesting : Nat) (params : List Param) :
    ∀ json ∈ paramsValue params, json.PlainWithin (nesting + 2) := by
  intro json found
  unfold paramsValue at found
  split at found
  · cases found
  · cases found
    exact Json.plainWithin_array
      (List.forall_mem_map.2 fun param _ => param.plainWithin_toJson nesting)

theorem plainWithin_result (nesting : Nat) (result : Option ReturnValue) :
    ∀ json ∈ result.map ReturnValue.toJson, json.PlainWithin (nesting + 1) := by
  rintro _ found
  obtain ⟨returned, -, rfl⟩ := Option.map_eq_some_iff.1 found
  exact returned.plainWithin_toJson nesting

theorem plainWithin_slots (nesting : Nat) (record : Record) :
    ∀ slot ∈ record.slots, ∀ json ∈ slot.2, json.PlainWithin (nesting + 2) := by
  simp only [slots, List.forall_mem_cons, List.not_mem_nil, false_implies, implies_true, and_true]
  refine ⟨plainWithin_text _ _, ?_, plainWithin_flagValue _ _, plainWithin_flagValue _ _,
    plainWithin_flagValue _ _, plainWithin_flagValue _ _, ?_, plainWithin_paramsValue nesting _,
    plainWithin_result (nesting + 1) _, plainWithin_flagValue _ _, plainWithin_flagValue _ _⟩
  · exact plainWithin_text _ (some record.scope)
  · exact plainWithin_text _ (some record.description)

theorem KeysApart.plainWithin_toJson {record : Record} (apart : record.KeysApart) (nesting : Nat) :
    record.toJson.PlainWithin (nesting + 3) := by
  refine Json.plainWithin_object apart.nodup_members ?_
  rw [members_eq]
  refine List.forall_mem_append.2 ⟨plainWithin_written (plainWithin_slots nesting record), ?_⟩
  exact List.forall_mem_map.2 fun entry _ => plainWithin_textArray (nesting + 1) entry.2

end Record

end DocCatalog
