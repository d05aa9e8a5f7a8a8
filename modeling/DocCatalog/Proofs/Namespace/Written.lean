import DocCatalog.Proofs.Json.Members
import DocCatalog.Proofs.Namespace.Conservation
import DocCatalog.Proofs.Record.RoundTrip

/-!
# The object of a namespace

The members of a namespace are its names, each once, with what is written for the entry and the
child of that name. Following a path of names through the objects reaches what is written under the
last one, as long as no entry on the way hides the next name. An overload group hides all names below
it; a record hides those that are keys of its own object.

Under a merged name the values are sorted by key, so what is reached there is the same value but for
the order of members.

Results:
1. `get?_members`: the member under a name.
2. `plain_toJson`: the value of a tree is plain, so its text is read back.
3. `member?_mergedJson`: the members of a record and a namespace in one object.
4. `follow?_slot`, `follow?_toJson`: what is reached along a path of names.
5. `writtenAs_of_same`: what that is for each kind of entry.
-/

namespace DocCatalog.Namespace

/-! ## Members by name -/

/-- An entry or a namespace stands under the name. -/
def Holds (space : Namespace) (key : String) : Prop :=
  key ∈ Table.keys space.entries ∨ key ∈ Table.keys space.children

instance (space : Namespace) (key : String) : Decidable (space.Holds key) :=
  inferInstanceAs (Decidable (_ ∨ _))

theorem keys_childMembers (children : List (String × Namespace)) :
    Table.keys (childMembers children) = Table.keys children := by
  rw [childMembers_eq_map, Table.keys, List.map_map]
  rfl

theorem get?_childMembers (children : List (String × Namespace)) (key : String) :
    Table.get? key (childMembers children) = (Table.get? key children).map members := by
  induction children with
  | nil => rfl
  | cons child rest ih =>
    obtain ⟨other, space⟩ := child
    rw [childMembers, Table.get?, Table.get?, ih]
    split <;> rfl

theorem members_eq (space : Namespace) :
    space.members =
      (Table.unionKeys space.entries (childMembers space.children)).map fun key =>
        (key, slotJson (Table.get? key space.entries)
          ((Table.get? key space.children).map members)) := by
  cases space with
  | mk entries children =>
    rw [members]
    simp only [get?_childMembers]

/-- The names of a namespace ascend. -/
theorem ordered_members (space : Namespace) : Table.Ordered space.members := by
  rw [members_eq]
  exact List.pairwise_map.2 (Table.ascending_unionKeys _ _)

theorem nodup_members (space : Namespace) : (space.members.map Prod.fst).Nodup :=
  space.ordered_members.nodup_keys

theorem mem_keys_members (space : Namespace) (key : String) :
    key ∈ Table.keys space.members ↔ space.Holds key := by
  have keys : Table.keys space.members =
      Table.unionKeys space.entries (childMembers space.children) := by
    rw [members_eq, Table.keys, List.map_map]
    exact List.map_id _
  rw [keys, Table.mem_unionKeys, keys_childMembers]
  rfl

theorem get?_members (space : Namespace) (key : String) :
    Table.get? key space.members =
      if space.Holds key then
        some (slotJson (Table.get? key space.entries)
          ((Table.get? key space.children).map members))
      else none := by
  have mapped (value : String → Json) (names : List String) :
      Table.get? key (names.map fun name => (name, value name)) =
        if key ∈ names then some (value key) else none := by
    induction names with
    | nil => simp [Table.get?]
    | cons name rest ih =>
      rw [List.map_cons, Table.get?, ih]
      by_cases same : name = key
      · simp [same]
      · simp [same, Ne.symm same]
  rw [members_eq, mapped]
  refine if_congr ?_ rfl rfl
  rw [Table.mem_unionKeys, keys_childMembers]
  rfl

theorem member?_toJson_isSome (space : Namespace) (key : String) :
    (space.toJson.member? key).isSome ↔ space.Holds key := by
  rw [toJson, Json.member?_object, get?_members]
  split
  case isTrue holds => simp [holds]
  case isFalse not => simp [not]

theorem holds_of_entry {space : Namespace} {key : String} {entry : Entry}
    (found : Table.get? key space.entries = some entry) : space.Holds key :=
  Or.inl (List.mem_map_of_mem (Table.mem_of_get? found))

theorem holds_of_child {space child : Namespace} {key : String}
    (found : Table.get? key space.children = some child) : space.Holds key :=
  Or.inr (List.mem_map_of_mem (Table.mem_of_get? found))

theorem mem_records_of_entry {space : Namespace} {key : String} {entry : Entry}
    (found : Table.get? key space.entries = some entry) {record : Record}
    (member : record ∈ entry.records) : record ∈ space.records := by
  rw [records_eq]
  exact List.mem_append_left _ (List.mem_flatMap.2 ⟨(key, entry), Table.mem_of_get? found, member⟩)

theorem mem_records_of_child {space child : Namespace} {key : String}
    (found : Table.get? key space.children = some child) {record : Record}
    (member : record ∈ child.records) : record ∈ space.records := by
  rw [records_eq]
  exact List.mem_append_right _ (List.mem_flatMap.2 ⟨(key, child), Table.mem_of_get? found, member⟩)

/-! ## Merged objects -/

theorem plain_mergedJson {record : Record} (apart : record.KeysApart)
    {members : List (String × Json)} (plain : (Json.object members).Plain) :
    (mergedJson record members).Plain := by
  have sorted {own : List (String × Json)} (plain : (Json.object own).Plain) :
      ∀ entry ∈ Json.sortMembers own, entry.2.Plain := by
    cases plain with
    | object _ values =>
      exact Json.forall_mem_sortMembers Json.Plain fun entry member => (values entry member).sortKeys
  have ordered := Json.ordered_mergeMembers (Json.ordered_sortMembers record.members)
    (Json.sortMembers members)
  refine .object ordered.nodup_keys ?_
  exact Json.forall_mem_mergeMembers (sorted (apart.plainWithin_toJson 0).plain) (sorted plain)

/-- The members of the record win. -/
theorem member?_mergedJson {record : Record} (apart : record.KeysApart) (space : Namespace)
    (key : String) :
    (mergedJson record space.members).member? key =
      ((record.toJson.member? key).or (space.toJson.member? key)).map Json.sortKeys := by
  rw [mergedJson, Record.toJson, toJson, Json.member?_object, Json.member?_object,
    Json.member?_object, Json.get?_mergeMembers (Json.ordered_sortMembers _),
    Json.get?_sortMembers apart.nodup_members, Json.get?_sortMembers space.nodup_members]
  cases Table.get? key record.members <;> rfl

/-- Behind a key that the record does not have, the merged object is the sorted namespace. -/
theorem follow?_mergedJson {record : Record} (apart : record.KeysApart) {space : Namespace}
    (plain : space.toJson.Plain) {key : String} (absent : record.toJson.member? key = none)
    (keys : List String) :
    (mergedJson record space.members).follow? (key :: keys) =
      (space.toJson.follow? (key :: keys)).map Json.sortKeys := by
  rw [← Json.follow?_sortKeys plain, Json.follow?, Json.follow?, member?_mergedJson apart, absent,
    Json.member?_sortKeys plain]
  rfl

/-! ## The value of a tree -/

theorem plain_slotJson {entry : Option Entry} {members : Option (List (String × Json))}
    (apart : ∀ found ∈ entry, found.KeysApart)
    (plain : ∀ inner ∈ members, (Json.object inner).Plain) : (slotJson entry members).Plain := by
  cases entry with
  | none =>
    cases members with
    | none => exact .null
    | some inner => exact plain inner rfl
  | some found =>
    have own : found.toJson.Plain := ((apart found rfl).plainWithin_toJson 0).plain
    cases found with
    | overloads records => exact own
    | single record =>
      cases members with
      | none => exact own
      | some inner => exact plain_mergedJson (apart _ rfl record List.mem_cons_self) (plain inner rfl)

/-- The value of a tree whose records keep apart has all its keys once. -/
theorem plain_toJson {space : Namespace} (ordered : space.Ordered)
    (apart : ∀ record ∈ space.records, record.KeysApart) : space.toJson.Plain := by
  induction ordered with
  | @intro entries children _ _ _ ih =>
    refine .object (nodup_members _) ?_
    rw [members_eq]
    refine List.forall_mem_map.2 fun key _ => plain_slotJson ?_ ?_
    · exact fun entry found record member => apart record (mem_records_of_entry found member)
    · intro inner found
      obtain ⟨child, isChild, rfl⟩ := Option.map_eq_some_iff.1 found
      exact ih _ (Table.mem_of_get? isChild) fun record member =>
        apart record (mem_records_of_child isChild member)

/-- What is written under a name of a namespace. -/
def slot (space : Namespace) (key : String) : Json :=
  slotJson (Table.get? key space.entries) ((Table.get? key space.children).map members)

theorem plain_slot {space : Namespace} (ordered : space.Ordered)
    (apart : ∀ record ∈ space.records, record.KeysApart) (key : String) :
    (space.slot key).Plain := by
  refine plain_slotJson ?_ ?_
  · exact fun entry found record member => apart record (mem_records_of_entry found member)
  · intro inner found
    obtain ⟨child, isChild, rfl⟩ := Option.map_eq_some_iff.1 found
    exact plain_toJson (ordered.child isChild) fun record member =>
      apart record (mem_records_of_child isChild member)

theorem member?_toJson {space : Namespace} {key : String} (holds : space.Holds key) :
    space.toJson.member? key = some (space.slot key) := by
  rw [toJson, Json.member?_object, get?_members, if_pos holds]
  rfl

/-! ## Along a path -/

/-- No entry on the path hides the name after its own: where a name of the path is an entry too, it
is a single record, and the next name is not a key of that record's object. -/
def Shown (path : List String) (leaf : String) (space : Namespace) : Prop :=
  ∀ before segment after, path = before ++ segment :: after →
    ∀ entry, space.entryAt? before segment = some entry →
      ∃ record, entry = .single record ∧ record.toJson.member? (after.headD leaf) = none

theorem Shown.here {segment : String} {path : List String} {leaf : String} {space : Namespace}
    (shown : space.Shown (segment :: path) leaf) {entry : Entry}
    (found : Table.get? segment space.entries = some entry) :
    ∃ record, entry = .single record ∧ record.toJson.member? (path.headD leaf) = none :=
  shown [] segment path rfl entry found

theorem Shown.below {segment : String} {path : List String} {leaf : String}
    {space child : Namespace} (shown : space.Shown (segment :: path) leaf)
    (found : Table.get? segment space.children = some child) : child.Shown path leaf := by
  rintro before next after rfl entry stands
  refine shown (segment :: before) next after rfl entry ?_
  rw [entryAt?_cons, found]
  exact stands

theorem shown_nil (leaf : String) (space : Namespace) : space.Shown [] leaf := by
  intro before segment after equal
  simp at equal

/-- A place in a namespace is shown when the place of the namespace is, as far as its own record goes.
-/
theorem Shown.concat {path : List String} {segment leaf : String} {space : Namespace}
    (shown : space.Shown path segment)
    (last : ∀ entry, space.entryAt? path segment = some entry →
      ∃ record, entry = .single record ∧ record.toJson.member? leaf = none) :
    space.Shown (path ++ [segment]) leaf := by
  intro before other after equal entry found
  rcases List.eq_nil_or_concat after with rfl | ⟨front, name, rfl⟩
  · obtain ⟨rfl, isLast⟩ := List.append_inj' equal rfl
    obtain rfl := List.singleton_inj.1 isLast
    exact last entry found
  · rw [List.concat_eq_append] at equal ⊢
    have split : path ++ [segment] = (before ++ other :: front) ++ [name] := by
      rw [equal, List.append_assoc, List.cons_append]
    obtain ⟨rfl, isLast⟩ := List.append_inj' split rfl
    obtain rfl := List.singleton_inj.1 isLast
    have next : (front ++ [segment]).headD leaf = front.headD segment := by
      cases front <;> rfl
    rw [next]
    exact shown before other front rfl entry found

/-- What is written under the name of a child, behind its first key, is the object of the child. -/
theorem follow?_slotJson {path : List String} {leaf segment : String} {space child : Namespace}
    (shown : space.Shown (segment :: path) leaf) (plain : child.toJson.Plain)
    (apart : ∀ entry ∈ Table.get? segment space.entries, entry.KeysApart) {reached original : Json}
    (found : child.toJson.follow? (path ++ [leaf]) = some reached) (kept : reached.Kept original)
    (originalPlain : original.Plain) :
    ∃ value,
      (slotJson (Table.get? segment space.entries) (some child.members)).follow? (path ++ [leaf]) =
        some value ∧ value.Kept original := by
  cases stands : Table.get? segment space.entries with
  | none => exact ⟨reached, found, kept⟩
  | some entry =>
    -- The first key is not one of the record's, so it leads into the child, which is sorted here.
    obtain ⟨record, rfl, absent⟩ := shown.here stands
    have own : record.KeysApart := apart _ stands record List.mem_cons_self
    have keys : path ++ [leaf] = path.headD leaf :: (path ++ [leaf]).tail := by
      cases path <;> rfl
    rw [keys] at found ⊢
    refine ⟨reached.sortKeys, ?_, kept.sortKeys originalPlain⟩
    rw [slotJson, follow?_mergedJson own plain absent, found]
    rfl

theorem mem_records_of_get? {space inner : Namespace} {path : List String}
    (found : space.get? path = some inner) {record : Record} (member : record ∈ inner.records) :
    record ∈ space.records := by
  induction path generalizing space with
  | nil =>
    obtain rfl : space = inner := by simpa [Namespace.get?] using found
    exact member
  | cons segment path ih =>
    obtain ⟨child, isChild, below⟩ := Option.bind_eq_some_iff.1 found
    exact mem_records_of_child isChild (ih below)

theorem get?_append_singleton (path : List String) (leaf : String) (space : Namespace) :
    space.get? (path ++ [leaf]) =
      (space.get? path).bind fun inner => Table.get? leaf inner.children := by
  induction path generalizing space with
  | nil => exact Option.bind_fun_some _
  | cons segment path ih =>
    rw [List.cons_append, get?, get?, Option.bind_assoc]
    exact congrArg _ (funext ih)

/-- Along a path on which nothing hides the next name, what is written under the last name is reached.
It may be sorted there. -/
theorem follow?_slot {space inner : Namespace} (ordered : space.Ordered)
    (apart : ∀ record ∈ space.records, record.KeysApart) {path : List String} {leaf : String}
    (found : space.get? path = some inner) (holds : inner.Holds leaf)
    (shown : space.Shown path leaf) :
    ∃ value, space.toJson.follow? (path ++ [leaf]) = some value ∧
      value.Kept (inner.slot leaf) := by
  have plain : (inner.slot leaf).Plain :=
    plain_slot (ordered.get? found) (fun record member =>
      apart record (mem_records_of_get? found member)) leaf
  induction path generalizing space with
  | nil =>
    obtain rfl : space = inner := by simpa [Namespace.get?] using found
    refine ⟨space.slot leaf, ?_, Or.inl rfl⟩
    rw [List.nil_append, Json.follow?, member?_toJson holds]
    rfl
  | cons segment path ih =>
    obtain ⟨child, isChild, inChild⟩ := Option.bind_eq_some_iff.1 found
    have below : ∀ record ∈ child.records, record.KeysApart :=
      fun record member => apart record (mem_records_of_child isChild member)
    have own : ∀ entry ∈ Table.get? segment space.entries, entry.KeysApart :=
      fun entry stands record member => apart record (mem_records_of_entry stands member)
    obtain ⟨reached, follows, kept⟩ :=
      ih (ordered.child isChild) below inChild (shown.below isChild)
    -- What the child has at the rest of the path may be sorted once more by the merged name.
    obtain ⟨value, followsValue, keptValue⟩ :=
      follow?_slotJson shown (plain_toJson (ordered.child isChild) below) own follows kept plain
    refine ⟨value, ?_, keptValue⟩
    rw [List.cons_append, Json.follow?, member?_toJson (holds_of_child isChild), slot, isChild]
    exact followsValue

/-- So the value of an entry is reached, but for the order of members. -/
theorem follow?_toJson {space : Namespace} (ordered : space.Ordered)
    (apart : ∀ record ∈ space.records, record.KeysApart) {path : List String} {leaf : String}
    {entry : Entry} (found : space.entryAt? path leaf = some entry)
    (shown : space.Shown path leaf) :
    ∃ reached, space.toJson.follow? (path ++ [leaf]) = some reached ∧
      reached.Same (slotJson (some entry) ((space.get? (path ++ [leaf])).map members)) := by
  obtain ⟨inner, isInner, stands⟩ := Option.bind_eq_some_iff.1 found
  obtain ⟨value, follows, kept⟩ :=
    follow?_slot ordered apart isInner (holds_of_entry stands) shown
  have innerApart : ∀ record ∈ inner.records, record.KeysApart :=
    fun record member => apart record (mem_records_of_get? isInner member)
  refine ⟨value, follows, ?_⟩
  rw [get?_append_singleton, isInner, Option.bind_some, ← stands]
  exact kept.same (plain_slot (ordered.get? isInner) innerApart leaf)

/-! ## What is reached -/

/-- An object that agrees with a record on all keys of the record, and that has, under the names
that are not such keys, the members of a namespace and nothing else. -/
structure Merges (record : Record) (space : Namespace) (json : Json) : Prop where
  object : ∃ members, json = .object members
  own : ∀ key value, record.toJson.member? key = some value →
    ∃ found, json.member? key = some found ∧ found.Same value
  keys : ∀ key, record.toJson.member? key = none → ((json.member? key).isSome ↔ space.Holds key)
  others : ∀ key value, record.toJson.member? key = none → space.toJson.member? key = some value →
    ∃ found, json.member? key = some found ∧ found.Same value

/-- The value of an entry, next to the namespace of the same name if there is one. -/
def WrittenAs (json : Json) : Entry → Option Namespace → Prop
  | .overloads records, _ =>
    (∃ items, json = .array items) ∧ json.Same (Entry.overloads records).toJson
  | .single record, none => (∃ members, json = .object members) ∧ json.Same record.toJson
  | .single record, some space => Merges record space json

theorem member?_of_same_mergedJson {record : Record} (apart : record.KeysApart) {space : Namespace}
    (plain : space.toJson.Plain) {json : Json} (jsonPlain : json.Plain)
    (same : json.Same (mergedJson record space.members)) (key : String) :
    (json.member? key).map Json.sortKeys =
      ((record.toJson.member? key).or (space.toJson.member? key)).map Json.sortKeys := by
  rw [same.member? jsonPlain (plain_mergedJson apart plain), member?_mergedJson apart]
  cases found : (record.toJson.member? key).or (space.toJson.member? key) with
  | none => rfl
  | some value =>
    have valuePlain : value.Plain := by
      rcases Option.or_eq_some_iff.1 found with own | ⟨-, other⟩
      · exact (apart.plainWithin_toJson 0).plain.member? own
      · exact plain.member? other
    exact congrArg some (Json.sortKeys_sortKeys valuePlain)

theorem merges_of_same {record : Record} (apart : record.KeysApart) {space : Namespace}
    (plain : space.toJson.Plain) {json : Json} (jsonPlain : json.Plain)
    (same : json.Same (mergedJson record space.members)) : Merges record space json := by
  have read := member?_of_same_mergedJson apart plain jsonPlain same
  have found {key : String} {value : Json}
      (merged : (record.toJson.member? key).or (space.toJson.member? key) = some value) :
      ∃ found, json.member? key = some found ∧ found.Same value := by
    have mapped := read key
    rw [merged, Option.map_some, Option.map_eq_some_iff] at mapped
    exact mapped
  refine ⟨same.object, fun key value own => found ?_, fun key absent => ?_,
    fun key value absent other => found ?_⟩
  · rw [own]
    rfl
  · rw [← member?_toJson_isSome, ← Option.isSome_map, read key, absent, Option.isSome_map]
    rfl
  · rw [absent, other]
    rfl

theorem writtenAs_of_same {entry : Entry} (apart : entry.KeysApart) {space : Option Namespace}
    (plain : ∀ found ∈ space, found.toJson.Plain) {json : Json} (jsonPlain : json.Plain)
    (same : json.Same (slotJson (some entry) (space.map members))) : WrittenAs json entry space := by
  cases entry with
  | overloads records => exact ⟨same.array, same⟩
  | single record =>
    cases space with
    | none => exact ⟨same.object, same⟩
    | some found =>
      exact merges_of_same (apart record List.mem_cons_self) (plain found rfl) jsonPlain same

end DocCatalog.Namespace
