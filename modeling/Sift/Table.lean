/-!
# Finite maps

`Table α` is a finite map from texts to `α` that keeps its entries in the order in which their
keys were first added. Each operation is described by what `get?` answers after it:
`get?_insert` and `get?_erase`.
-/

namespace Sift

/-- A finite map with texts for keys, in the order in which the keys were first added. -/
structure Table (α : Type) where
  entries : List (String × α)
  keys_nodup : (entries.map (·.1)).Nodup

namespace Table

variable {α : Type}

/-! ### Entries -/

/-- The value of the first entry with the key `key`. -/
def find (key : String) : List (String × α) → Option α
  | [] => none
  | (k, a) :: rest => if k = key then some a else find key rest

/-- The entries in which `key` has the value `a`: in its old place, or else at the end. -/
def put (key : String) (a : α) : List (String × α) → List (String × α)
  | [] => [(key, a)]
  | (k, b) :: rest => if k = key then (key, a) :: rest else (k, b) :: put key a rest

/-- The entries other than those with the key `key`. -/
def drop (key : String) (entries : List (String × α)) : List (String × α) :=
  entries.filter fun entry => entry.1 ≠ key

theorem mem_keys_put {key k : String} {a : α} {entries : List (String × α)} :
  k ∈ (put key a entries).map (·.1) ↔ k = key ∨ k ∈ entries.map (·.1)
  := by
  induction entries with
  | nil => simp [put]
  | cons entry rest ih =>
    obtain ⟨l, b⟩ := entry
    by_cases h : l = key
    · subst h
      simp [put]
    · simp only [put, h, if_false, List.map_cons, List.mem_cons, ih]
      grind

theorem nodup_put {key : String} {a : α} {entries : List (String × α)}
    (h : (entries.map (·.1)).Nodup) :
  ((put key a entries).map (·.1)).Nodup
  := by
  induction entries with
  | nil => simp [put]
  | cons entry rest ih =>
    obtain ⟨l, b⟩ := entry
    simp only [List.map_cons, List.nodup_cons] at h
    by_cases hl : l = key
    · subst hl
      simpa [put] using h
    · simp only [put, hl, if_false, List.map_cons, List.nodup_cons, mem_keys_put]
      exact ⟨by simp [h.1], ih h.2⟩

theorem nodup_drop {key : String} {entries : List (String × α)}
    (h : (entries.map (·.1)).Nodup) :
  ((drop key entries).map (·.1)).Nodup
  := by
  exact (List.filter_sublist.map _).nodup h

theorem find_put {key k : String} {a : α} {entries : List (String × α)} :
  find k (put key a entries) = if key = k then some a else find k entries
  := by
  induction entries with
  | nil => simp [put, find]
  | cons entry rest ih =>
    obtain ⟨l, b⟩ := entry
    by_cases h : l = key <;> grind [put, find]

theorem find_drop {key k : String} {entries : List (String × α)} :
  find k (drop key entries) = if key = k then none else find k entries
  := by
  induction entries with
  | nil => simp [drop, find]
  | cons entry rest ih =>
    obtain ⟨l, b⟩ := entry
    by_cases h : l = key <;> by_cases hk : key = k <;> grind [drop, find]

/-! ### Maps -/

/-- The map without entries. -/
def empty : Table α where
  entries := []
  keys_nodup := by simp

instance : Inhabited (Table α) where
  default := empty

instance : EmptyCollection (Table α) where
  emptyCollection := empty

/-- The value of a key. -/
def get? (table : Table α) (key : String) : Option α :=
  find key table.entries

/-- Whether a key has a value. -/
def contains (table : Table α) (key : String) : Bool :=
  (table.get? key).isSome

/-- The map in which `key` has the value `a`. -/
def insert (table : Table α) (key : String) (a : α) : Table α where
  entries := put key a table.entries
  keys_nodup := nodup_put table.keys_nodup

/-- The map in which `key` has no value. -/
def erase (table : Table α) (key : String) : Table α where
  entries := drop key table.entries
  keys_nodup := nodup_drop table.keys_nodup

/-- The map with the given entries, of which the last wins when they share a key. -/
def ofList (entries : List (String × α)) : Table α :=
  entries.foldl (fun table entry => table.insert entry.1 entry.2) empty

/-- The number of keys. -/
def size (table : Table α) : Nat :=
  table.entries.length

/-- The values, in the order of their keys. -/
def values (table : Table α) : List α :=
  table.entries.map (·.2)

@[simp]
theorem get?_empty {key : String} :
  (empty : Table α).get? key = none
  := by
  rfl

@[simp]
theorem get?_insert {table : Table α} {key k : String} {a : α} :
  (table.insert key a).get? k = if key = k then some a else table.get? k
  := by
  exact find_put

@[simp]
theorem get?_erase {table : Table α} {key k : String} :
  (table.erase key).get? k = if key = k then none else table.get? k
  := by
  exact find_drop

theorem get?_eq_some_iff {table : Table α} {key : String} {a : α} :
  table.get? key = some a ↔ (key, a) ∈ table.entries
  := by
  obtain ⟨entries, hnodup⟩ := table
  change find key entries = some a ↔ (key, a) ∈ entries
  induction entries with
  | nil => simp [find]
  | cons entry rest ih =>
    obtain ⟨k, b⟩ := entry
    simp only [List.map_cons, List.nodup_cons, List.mem_map] at hnodup
    by_cases h : k = key
    · subst h
      have hrest : (k, a) ∉ rest := fun hmem => hnodup.1 ⟨_, hmem, rfl⟩
      simp [find, hrest, eq_comm]
    · simp [find, h, ih hnodup.2, Ne.symm h]

/-- The values are what the keys have. -/
theorem mem_values_iff {table : Table α} {a : α} :
  a ∈ table.values ↔ ∃ key, table.get? key = some a
  := by
  simp [values, get?_eq_some_iff]

end Table

end Sift
