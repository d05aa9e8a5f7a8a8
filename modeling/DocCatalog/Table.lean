/-!
# Tables

A table is a list of keyed values in ascending order of the keys, each key once. Changing the value
under a key keeps the order (`Ordered.alter`), changes what is found there (`get?_alter_self`), and
changes nothing else (`get?_alter_of_ne`). A dictionary is a table with the proof of its order.
-/

namespace DocCatalog

abbrev Table (α : Type) := List (String × α)

namespace Table

variable {α β : Type}

/-- The value under a key. -/
def get? (key : String) : Table α → Option α
  | [] => none
  | (other, value) :: rest => if other = key then some value else get? key rest

/-- Changes the value under a key, which is absent before the first time. -/
def alter (key : String) (change : Option α → α) : Table α → Table α
  | [] => [(key, change none)]
  | (other, value) :: rest =>
    if key = other then (key, change (some value)) :: rest
    else if key < other then (key, change none) :: (other, value) :: rest
    else (other, value) :: alter key change rest

def keys (table : Table α) : List String :=
  table.map Prod.fst

/-- The keys ascend, so none stands twice. -/
def Ordered (table : Table α) : Prop :=
  table.Pairwise fun first second => first.1 < second.1

/-- Inserts a key in its place unless it is there. -/
def insertKey (key : String) : List String → List String
  | [] => [key]
  | other :: rest =>
    if key = other then other :: rest
    else if key < other then key :: other :: rest
    else other :: insertKey key rest

/-- The keys of two tables in ascending order, each once. -/
def unionKeys (first : Table α) (second : Table β) : List String :=
  (keys first ++ keys second).foldr insertKey []

theorem keys_alter_mem {key : String} {change : Option α → α} {table : Table α} {pair : String × α}
    (member : pair ∈ alter key change table) : pair.1 = key ∨ pair ∈ table := by
  induction table with
  | nil =>
    simp only [alter, List.mem_singleton] at member
    exact Or.inl (member ▸ rfl)
  | cons entry rest ih =>
    obtain ⟨other, value⟩ := entry
    rw [alter] at member
    split at member
    · rcases List.mem_cons.1 member with equal | inRest
      · exact Or.inl (equal ▸ rfl)
      · exact Or.inr (List.mem_cons_of_mem _ inRest)
    · split at member
      · rcases List.mem_cons.1 member with equal | inTable
        · exact Or.inl (equal ▸ rfl)
        · exact Or.inr inTable
      · rcases List.mem_cons.1 member with equal | inRest
        · exact Or.inr (equal ▸ List.mem_cons_self)
        · exact (ih inRest).imp id (List.mem_cons_of_mem _)

theorem Ordered.alter {table : Table α} (ordered : Ordered table) (key : String)
    (change : Option α → α) : Ordered (alter key change table) := by
  induction table with
  | nil => simp [Ordered, Table.alter]
  | cons entry rest ih =>
    obtain ⟨other, value⟩ := entry
    obtain ⟨below, restOrdered⟩ := List.pairwise_cons.1 ordered
    rw [Table.alter]
    split
    case isTrue equal =>
      subst equal
      exact List.pairwise_cons.2 ⟨below, restOrdered⟩
    case isFalse differs =>
      split
      case isTrue less =>
        refine List.pairwise_cons.2 ⟨fun pair member => ?_, ordered⟩
        rcases List.mem_cons.1 member with equal | inRest
        · exact equal ▸ less
        · exact String.lt_trans less (below pair inRest)
      case isFalse notLess =>
        refine List.pairwise_cons.2 ⟨fun pair member => ?_, ih restOrdered⟩
        rcases keys_alter_mem member with equal | inRest
        · have greater : other ≤ key := String.not_lt.1 notLess
          simp only [equal]
          exact Classical.byContradiction fun notGreater =>
            differs (String.le_antisymm (String.not_lt.1 notGreater) greater)
        · exact below pair inRest

theorem get?_eq_none_of_away {key : String} {table : Table α}
    (away : ∀ pair ∈ table, pair.1 ≠ key) : get? key table = none := by
  induction table with
  | nil => rfl
  | cons pair rest ih =>
    rw [get?, if_neg (away pair List.mem_cons_self)]
    exact ih fun other member => away other (List.mem_cons_of_mem _ member)

/-- A key before all keys of a table is not in it. -/
theorem get?_eq_none_of_below {key : String} {table : Table α}
    (below : ∀ pair ∈ table, key < pair.1) : get? key table = none :=
  get?_eq_none_of_away fun pair member equal =>
    String.lt_irrefl pair.1 (equal ▸ below pair member)

theorem get?_alter_self (key : String) (change : Option α → α) (table : Table α)
    (ordered : Ordered table) :
    get? key (alter key change table) = some (change (get? key table)) := by
  induction table with
  | nil => simp [alter, get?]
  | cons entry rest ih =>
    obtain ⟨other, value⟩ := entry
    obtain ⟨below, restOrdered⟩ := List.pairwise_cons.1 ordered
    rw [alter]
    split
    case isTrue equal => simp [get?, equal]
    case isFalse differs =>
      split
      case isTrue less =>
        have absent : get? key ((other, value) :: rest) = none := by
          refine get?_eq_none_of_below fun pair member => ?_
          rcases List.mem_cons.1 member with equal | inRest
          · exact equal ▸ less
          · exact String.lt_trans less (below pair inRest)
        rw [absent]
        simp [get?]
      case isFalse =>
        rw [get?, get?, if_neg (Ne.symm differs), if_neg (Ne.symm differs)]
        exact ih restOrdered

theorem get?_alter_of_ne {key wanted : String} (differs : wanted ≠ key) (change : Option α → α)
    (table : Table α) : get? wanted (alter key change table) = get? wanted table := by
  induction table with
  | nil => simp [alter, get?, Ne.symm differs]
  | cons entry rest ih =>
    obtain ⟨other, value⟩ := entry
    rw [alter]
    split
    case isTrue equal => simp [get?, ← equal, Ne.symm differs]
    case isFalse =>
      split
      · simp [get?, Ne.symm differs]
      · rw [get?, get?, ih]

end Table

/-- A table that is known to be in order. -/
structure Dictionary (α : Type) where
  table : Table α
  ordered : table.Ordered
deriving DecidableEq, Repr

namespace Dictionary

variable {α : Type}

def empty : Dictionary α :=
  ⟨[], List.Pairwise.nil⟩

def get? (key : String) (dictionary : Dictionary α) : Option α :=
  dictionary.table.get? key

/-- Changes the value under a key, which is absent before the first time. -/
def alter (key : String) (change : Option α → α) (dictionary : Dictionary α) : Dictionary α :=
  ⟨Table.alter key change dictionary.table, dictionary.ordered.alter key change⟩

theorem get?_alter_eq (key : String) (change : Option α → α) (dictionary : Dictionary α) :
    (dictionary.alter key change).get? key = some (change (dictionary.get? key)) :=
  Table.get?_alter_self key change dictionary.table dictionary.ordered

end Dictionary

end DocCatalog
