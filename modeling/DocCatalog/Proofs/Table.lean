import DocCatalog.Table

/-!
# Keys of tables

Results:
1. `Ordered.nodup_keys`, `isSome_get?_iff`: no key of a table stands twice, and each is found.
2. `Ordered.eq_of_get?`, `Dictionary.eq_of_get?`: a table is known by what is found in it.
3. `alter_eq_append`, `alter_eq_cons`: a key beyond all others is added at an end.
4. `mem_unionKeys`, `ascending_unionKeys`: the keys of two tables, in order and each once.
-/

namespace DocCatalog.Table

variable {α β : Type}

theorem Ordered.nodup_keys {table : Table α} (ordered : Ordered table) : (keys table).Nodup :=
  List.pairwise_map.2 (ordered.imp fun less => String.ne_of_lt less)

theorem isSome_get?_iff {key : String} {table : Table α} :
    (get? key table).isSome ↔ key ∈ keys table := by
  induction table with
  | nil => simp [get?, keys]
  | cons pair rest ih =>
    obtain ⟨other, value⟩ := pair
    rw [get?, keys, List.map_cons, List.mem_cons]
    by_cases same : other = key
    · simp [same]
    · rw [if_neg same, ih]
      exact (or_iff_right (Ne.symm same)).symm

/-- A table is known by what is found in it. -/
theorem Ordered.eq_of_get? {first second : Table α} (ordered : Ordered first)
    (otherOrdered : Ordered second) (same : ∀ key, get? key first = get? key second) :
    first = second := by
  induction first generalizing second with
  | nil =>
    cases second with
    | nil => rfl
    | cons pair rest => simpa [get?] using same pair.1
  | cons pair rest ih =>
    obtain ⟨key, value⟩ := pair
    obtain ⟨below, restOrdered⟩ := List.pairwise_cons.1 ordered
    cases second with
    | nil => simpa [get?] using same key
    | cons otherPair otherRest =>
      obtain ⟨otherKey, otherValue⟩ := otherPair
      obtain ⟨otherBelow, otherRestOrdered⟩ := List.pairwise_cons.1 otherOrdered
      -- The smaller of the two first keys would be missing in the other table.
      have notLess : ¬ key < otherKey := fun less => by
        have absent : get? key ((otherKey, otherValue) :: otherRest) = none :=
          get?_eq_none_of_below (List.forall_mem_cons.2
            ⟨less, fun entry member => String.lt_trans less (otherBelow entry member)⟩)
        rw [← same key, get?, if_pos rfl] at absent
        cases absent
      have notGreater : ¬ otherKey < key := fun less => by
        have absent : get? otherKey ((key, value) :: rest) = none :=
          get?_eq_none_of_below (List.forall_mem_cons.2
            ⟨less, fun entry member => String.lt_trans less (below entry member)⟩)
        rw [same otherKey, get?, if_pos rfl] at absent
        cases absent
      obtain rfl : key = otherKey :=
        String.le_antisymm (String.not_lt.1 notGreater) (String.not_lt.1 notLess)
      have sameValue : value = otherValue := by simpa [get?] using same key
      have sameRest : rest = otherRest := by
        refine ih restOrdered otherRestOrdered fun wanted => ?_
        by_cases here : key = wanted
        · subst here
          rw [get?_eq_none_of_below below, get?_eq_none_of_below otherBelow]
        · simpa [get?, here] using same wanted
      rw [sameValue, sameRest]

/-- A key above all keys of a table is added at its end. -/
theorem alter_eq_append {key : String} {change : Option α → α} {table : Table α}
    (above : ∀ pair ∈ table, pair.1 < key) :
    alter key change table = table ++ [(key, change none)] := by
  induction table with
  | nil => rfl
  | cons pair rest ih =>
    obtain ⟨first, others⟩ := List.forall_mem_cons.1 above
    have differs : key ≠ pair.1 := (String.ne_of_lt first).symm
    have notLess : ¬ key < pair.1 := fun less => String.lt_irrefl key (String.lt_trans less first)
    rw [alter, if_neg differs, if_neg notLess, ih others]
    rfl

/-- A key below all keys of a table is added at its start. -/
theorem alter_eq_cons {key : String} {change : Option α → α} {table : Table α}
    (below : ∀ pair ∈ table, key < pair.1) :
    alter key change table = (key, change none) :: table := by
  cases table with
  | nil => rfl
  | cons pair rest =>
    have less : key < pair.1 := below pair List.mem_cons_self
    rw [alter, if_neg (String.ne_of_lt less), if_pos less]

/-! ## The keys of two tables -/

theorem mem_insertKey {key wanted : String} {keys : List String} :
    wanted ∈ insertKey key keys ↔ wanted = key ∨ wanted ∈ keys := by
  induction keys with
  | nil => simp [insertKey]
  | cons other rest ih =>
    rw [insertKey]
    split
    case isTrue same => simp [same]
    case isFalse =>
      split
      · exact List.mem_cons
      · rw [List.mem_cons, ih, List.mem_cons, or_left_comm]

theorem ascending_insertKey (key : String) {keys : List String}
    (ascending : keys.Pairwise fun first second => first < second) :
    (insertKey key keys).Pairwise fun first second => first < second := by
  induction keys with
  | nil => exact List.pairwise_singleton _ key
  | cons other rest ih =>
    obtain ⟨above, restAscending⟩ := List.pairwise_cons.1 ascending
    rw [insertKey]
    split
    case isTrue => exact ascending
    case isFalse differs =>
      split
      case isTrue less =>
        refine List.pairwise_cons.2 ⟨List.forall_mem_cons.2 ⟨less, ?_⟩, ascending⟩
        exact fun later member => String.lt_trans less (above later member)
      case isFalse notLess =>
        have greater : other < key := by
          refine Classical.byContradiction fun notGreater => differs ?_
          exact String.le_antisymm (String.not_lt.1 notGreater) (String.not_lt.1 notLess)
        refine List.pairwise_cons.2 ⟨fun later member => ?_, ih restAscending⟩
        rcases mem_insertKey.1 member with rfl | inRest
        · exact greater
        · exact above later inRest

theorem mem_unionKeys {first : Table α} {second : Table β} {key : String} :
    key ∈ unionKeys first second ↔ key ∈ keys first ∨ key ∈ keys second := by
  have folded (names : List String) : key ∈ names.foldr insertKey [] ↔ key ∈ names := by
    induction names with
    | nil => rfl
    | cons name rest ih => rw [List.foldr_cons, mem_insertKey, ih, List.mem_cons]
  rw [unionKeys, folded, List.mem_append]

theorem ascending_unionKeys (first : Table α) (second : Table β) :
    (unionKeys first second).Pairwise fun first second => first < second := by
  have ascending (names : List String) :
      (names.foldr insertKey []).Pairwise fun first second => first < second := by
    induction names with
    | nil => exact List.Pairwise.nil
    | cons name rest ih => exact ascending_insertKey name ih
  exact ascending _

end DocCatalog.Table

namespace DocCatalog.Dictionary

theorem eq_of_get? {α : Type} {first second : Dictionary α}
    (same : ∀ key, first.get? key = second.get? key) : first = second := by
  obtain ⟨table, ordered⟩ := first
  obtain ⟨otherTable, otherOrdered⟩ := second
  have equal : table = otherTable := ordered.eq_of_get? otherOrdered same
  subst equal
  rfl

end DocCatalog.Dictionary
