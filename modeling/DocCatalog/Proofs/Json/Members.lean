import DocCatalog.Namespace.Json
import DocCatalog.Proofs.Json.RoundTrip
import DocCatalog.Proofs.Namespace.Placement
import DocCatalog.Proofs.Table

/-!
# Members of sorted and merged objects

Under a merged name everything is sorted by key. That changes the order of members and nothing else
when no key stands twice: what is found by following keys is the same value, sorted itself. Merging
adds the members of another object whose keys are free.

Results:
1. `Plain.nodup_of_inside`: no key of a plain value stands twice, at any depth.
2. `member?_sortKeys`, `follow?_sortKeys`: what is found in a sorted value.
3. `sortKeys_sortKeys`: sorting again changes nothing, so `Same` values stay the same when sorted.
4. `get?_mergeMembers`: what is found in a merged table.
5. `Plain.sortKeys`, `ordered_mergeMembers`: no key stands twice afterwards.
-/

namespace DocCatalog

namespace Json

/-! ## Following keys -/

/-- The value that is reached by following keys from object to object. -/
def follow? : List String → Json → Option Json
  | [], json => some json
  | key :: keys, json => (json.member? key).bind (follow? keys)

theorem member?_object (key : String) (members : List (String × Json)) :
    (object members).member? key = Table.get? key members := by
  induction members with
  | nil => rfl
  | cons entry rest ih =>
    obtain ⟨other, value⟩ := entry
    rw [Table.get?, ← ih, member?, member?, List.find?_cons]
    by_cases same : other = key
    · simp [same]
    · simp only [beq_eq_false_iff_ne.2 same, if_neg same]

theorem Plain.member? {json value : Json} (plain : json.Plain) {key : String}
    (found : json.member? key = some value) : value.Plain := by
  cases plain with
  | object _ values =>
    rw [member?_object] at found
    exact values _ (Table.mem_of_get? found)
  | _ => cases found

theorem Plain.follow? {json value : Json} (plain : json.Plain) {keys : List String}
    (found : json.follow? keys = some value) : value.Plain := by
  induction keys generalizing json with
  | nil =>
    obtain rfl : json = value := by simpa [Json.follow?] using found
    exact plain
  | cons key keys ih =>
    obtain ⟨inner, member, rest⟩ := Option.bind_eq_some_iff.1 found
    exact ih (plain.member? member) rest

/-! ## Values inside a value -/

/-- The first value is the second one or stands in it, at any depth. -/
inductive Inside : Json → Json → Prop
  | itself (json : Json) : Inside json json
  | item {inner item : Json} {items : List Json} :
      item ∈ items → Inside inner item → Inside inner (array items)
  | member {inner : Json} {entry : String × Json} {members : List (String × Json)} :
      entry ∈ members → Inside inner entry.2 → Inside inner (object members)

theorem Plain.inside {inner outer : Json} (plain : outer.Plain) (inside : inner.Inside outer) :
    inner.Plain := by
  induction inside with
  | itself => exact plain
  | item isItem _ ih =>
    cases plain with
    | array items => exact ih (items _ isItem)
  | member isMember _ ih =>
    cases plain with
    | object _ values => exact ih (values _ isMember)

/-- In a plain value no key stands twice in one object, at any depth. -/
theorem Plain.nodup_of_inside {members : List (String × Json)} {json : Json} (plain : json.Plain)
    (inside : (Json.object members).Inside json) : (members.map Prod.fst).Nodup := by
  cases plain.inside inside with
  | object nodup _ => exact nodup

/-! ## Sorting -/

theorem sortItems_eq_map (items : List Json) : sortItems items = items.map sortKeys := by
  induction items with
  | nil => rfl
  | cons item rest ih => rw [sortItems, ih]; rfl

theorem ordered_sortMembers (members : List (String × Json)) :
    Table.Ordered (sortMembers members) := by
  induction members with
  | nil => exact List.Pairwise.nil
  | cons entry rest ih => exact ih.alter _ _

theorem get?_sortMembers {members : List (String × Json)} (nodup : (members.map Prod.fst).Nodup)
    (key : String) :
    Table.get? key (sortMembers members) = (Table.get? key members).map sortKeys := by
  induction members with
  | nil => rfl
  | cons entry rest ih =>
    obtain ⟨other, value⟩ := entry
    obtain ⟨away, nodupRest⟩ := List.nodup_cons.1 nodup
    rw [sortMembers, Table.get?]
    by_cases same : key = other
    · subst same
      have absent : Table.get? key rest = none := Table.get?_eq_none_of_away
        fun pair member equal => away (List.mem_map.2 ⟨pair, member, equal⟩)
      rw [Table.get?_alter_self _ _ _ (ordered_sortMembers rest), ih nodupRest, absent, if_pos rfl]
      rfl
    · rw [Table.get?_alter_of_ne same, if_neg (Ne.symm same), ih nodupRest]

theorem mem_keys_sortMembers {members : List (String × Json)} (nodup : (members.map Prod.fst).Nodup)
    (key : String) : key ∈ Table.keys (sortMembers members) ↔ key ∈ Table.keys members := by
  rw [← Table.isSome_get?_iff, get?_sortMembers nodup, Option.isSome_map, Table.isSome_get?_iff]

theorem forall_mem_sortMembers (holds : Json → Prop) {members : List (String × Json)}
    (kept : ∀ entry ∈ members, holds (sortKeys entry.2)) :
    ∀ entry ∈ sortMembers members, holds entry.2 := by
  induction members with
  | nil => exact fun _ member => absurd member List.not_mem_nil
  | cons entry rest ih =>
    obtain ⟨first, others⟩ := List.forall_mem_cons.1 kept
    rw [sortMembers]
    exact Table.forall_mem_alter (ih others) first fun value inside => ih others _ inside

theorem Plain.sortKeys {json : Json} (plain : json.Plain) : json.sortKeys.Plain := by
  induction plain with
  | null => exact .null
  | boolean value => exact .boolean value
  | string text => exact .string text
  | array _ ih =>
    rw [Json.sortKeys, sortItems_eq_map]
    exact .array (List.forall_mem_map.2 ih)
  | object _ _ ih =>
    rw [Json.sortKeys]
    exact .object (ordered_sortMembers _).nodup_keys (forall_mem_sortMembers Plain ih)

theorem member?_sortKeys {json : Json} (plain : json.Plain) (key : String) :
    json.sortKeys.member? key = (json.member? key).map sortKeys := by
  cases plain with
  | object nodup _ => rw [sortKeys, member?_object, member?_object, get?_sortMembers nodup]
  | _ => rfl

theorem follow?_sortKeys {json : Json} (plain : json.Plain) (keys : List String) :
    json.sortKeys.follow? keys = (json.follow? keys).map sortKeys := by
  induction keys generalizing json with
  | nil => rfl
  | cons key keys ih =>
    rw [follow?, follow?, member?_sortKeys plain]
    cases found : json.member? key with
    | none => rfl
    | some value => exact ih (plain.member? found)

/-- What is in order already is not changed by sorting. -/
theorem sortMembers_eq_self {members : List (String × Json)} (ordered : Table.Ordered members)
    (sorted : ∀ entry ∈ members, entry.2.sortKeys = entry.2) : sortMembers members = members := by
  induction members with
  | nil => rfl
  | cons entry rest ih =>
    obtain ⟨key, value⟩ := entry
    obtain ⟨below, orderedRest⟩ := List.pairwise_cons.1 ordered
    obtain ⟨first, others⟩ := List.forall_mem_cons.1 sorted
    rw [sortMembers, ih orderedRest others, Table.alter_eq_cons below]
    exact congrArg (fun json => (key, json) :: rest) first

theorem sortKeys_sortKeys {json : Json} (plain : json.Plain) :
    json.sortKeys.sortKeys = json.sortKeys := by
  induction plain with
  | null => rfl
  | boolean _ => rfl
  | string _ => rfl
  | array _ ih =>
    simp only [sortKeys, sortItems_eq_map, List.map_map]
    exact congrArg array (List.map_congr_left ih)
  | @object members _ _ ih =>
    have sorted : ∀ entry ∈ sortMembers members, entry.2.sortKeys = entry.2 :=
      forall_mem_sortMembers (fun json => json.sortKeys = json) ih
    simp only [sortKeys]
    rw [sortMembers_eq_self (ordered_sortMembers _) sorted]

/-! ## Values but for the order of members -/

/-- The values are one and the same when the order of members does not count. -/
def Same (first second : Json) : Prop :=
  first.sortKeys = second.sortKeys

/-- The value itself, or the value with all its members sorted. -/
def Kept (value original : Json) : Prop :=
  value = original ∨ value = original.sortKeys

theorem Kept.sortKeys {value original : Json} (kept : value.Kept original) (plain : original.Plain) :
    value.sortKeys.Kept original := by
  rcases kept with rfl | rfl
  · exact Or.inr rfl
  · exact Or.inr (sortKeys_sortKeys plain)

theorem Kept.same {value original : Json} (kept : value.Kept original) (plain : original.Plain) :
    value.Same original := by
  rcases kept with rfl | rfl
  · rfl
  · exact sortKeys_sortKeys plain

theorem Same.array {json : Json} {items : List Json} (same : json.Same (array items)) :
    ∃ own, json = array own := by
  cases json with
  | array own => exact ⟨own, rfl⟩
  | _ => simp [Same, sortKeys] at same

theorem Same.object {json : Json} {members : List (String × Json)}
    (same : json.Same (object members)) : ∃ own, json = object own := by
  cases json with
  | object own => exact ⟨own, rfl⟩
  | _ => simp [Same, sortKeys] at same

/-- The same values have the same keys with the same values. -/
theorem Same.member? {first second : Json} (same : first.Same second) (plain : first.Plain)
    (otherPlain : second.Plain) (key : String) :
    (first.member? key).map sortKeys = (second.member? key).map sortKeys := by
  rw [← member?_sortKeys plain, ← member?_sortKeys otherPlain, same]

/-! ## Merging -/

theorem ordered_mergeMembers {own : Table Json} (ordered : own.Ordered)
    (others : List (String × Json)) : Table.Ordered (mergeMembers own others) := by
  induction others generalizing own with
  | nil => exact ordered
  | cons entry rest ih => exact ih (ordered.alter _ _)

/-- Own members win. -/
theorem get?_mergeMembers {own : Table Json} (ordered : own.Ordered)
    (others : List (String × Json)) (key : String) :
    Table.get? key (mergeMembers own others) = (Table.get? key own).or (Table.get? key others) := by
  induction others generalizing own with
  | nil => simp [mergeMembers, Table.get?]
  | cons entry rest ih =>
    obtain ⟨other, value⟩ := entry
    rw [mergeMembers, ih (ordered.alter _ _), Table.get?]
    by_cases same : key = other
    · subst same
      rw [Table.get?_alter_self _ _ _ ordered, if_pos rfl]
      cases Table.get? key own <;> rfl
    · rw [Table.get?_alter_of_ne same, if_neg (Ne.symm same)]

theorem forall_mem_mergeMembers {holds : Json → Prop} {own : Table Json}
    {others : List (String × Json)} (ownHold : ∀ entry ∈ own, holds entry.2)
    (othersHold : ∀ entry ∈ others, holds entry.2) :
    ∀ entry ∈ mergeMembers own others, holds entry.2 := by
  induction others generalizing own with
  | nil => exact ownHold
  | cons entry rest ih =>
    obtain ⟨first, later⟩ := List.forall_mem_cons.1 othersHold
    refine ih ?_ later
    exact Table.forall_mem_alter ownHold first fun value inside => ownHold _ inside

end Json

end DocCatalog
