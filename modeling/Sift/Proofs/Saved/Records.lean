import Mathlib.Tactic.Use
import Sift.Saved.Store

/-!
# Records of a store

In an `Orderly` store every record stands under its own id, which is not empty, and no two records
have the same place. That one record at most stands in the place of a query is what makes it enough
to evict one (`Store.Orderly.get?_upsert`). `Store.Reachable` are the stores that saving and
deleting make of the empty one, and `Store.Reachable.orderly_and_saves` is the result that they are
orderly and that saving a query changes nothing but its place and the record of its id.
-/

namespace Sift

/-! ### Places -/

namespace SavedQuery

variable {a b c : SavedQuery}

theorem sameSlot_iff :
  a.sameSlot b = true ↔ a.name = b.name ∧ a.entity = b.entity ∧ a.owner = b.owner
  := by
  simp [sameSlot, and_assoc]

theorem sameSlot_comm :
  a.sameSlot b = b.sameSlot a
  := by
  rw [Bool.eq_iff_iff, sameSlot_iff, sameSlot_iff]
  simp only [eq_comm]

theorem sameSlot_trans (hab : a.sameSlot b = true) (hbc : b.sameSlot c = true) :
  a.sameSlot c = true
  := by
  rw [sameSlot_iff] at hab hbc ⊢
  exact ⟨hab.1.trans hbc.1, hab.2.1.trans hbc.2.1, hab.2.2.trans hbc.2.2⟩

/-- The id does not matter for the place. -/
@[simp]
theorem sameSlot_with_id (id : String) :
  a.sameSlot { b with id } = a.sameSlot b
  := rfl

end SavedQuery

/-- The one item that is searched for is found. -/
theorem find?_eq_some_of_unique {α : Type} {p : α → Bool} {items : List α} {a : α} (ha : a ∈ items)
    (hp : p a = true) (hunique : ∀ b ∈ items, p b = true → b = a) :
  items.find? p = some a
  := by
  cases hfind : items.find? p with
  | none => exact absurd hp (List.find?_eq_none.mp hfind a ha)
  | some b => rw [hunique b (List.mem_of_find?_eq_some hfind) (List.find?_some hfind)]

namespace Store

variable {store : Store}

/-! ### Orderly stores -/

/-- Whether every record stands under its own id, which is not empty, and no two records have the
same place. -/
structure Orderly (store : Store) : Prop where
  id_eq : ∀ {id query}, store.get? id = some query → query.id = id
  id_ne : ∀ {id query}, store.get? id = some query → id ≠ ""
  alone : ∀ {id other a b}, store.get? id = some a → store.get? other = some b →
    a.sameSlot b = true → id = other

/-- Whether an id can be given to a new record. -/
def IsFresh (store : Store) (id : String) : Prop :=
  id ≠ "" ∧ store.get? id = none

theorem mem_values_iff {query : SavedQuery} :
  query ∈ store.records.values ↔ ∃ id, store.get? id = some query
  := Table.mem_values_iff

theorem orderly_empty :
  Orderly empty
  := by
  constructor
  · rintro _ _ ⟨⟩
  · rintro _ _ ⟨⟩
  · rintro _ _ _ _ ⟨⟩

theorem get?_delete (id other : String) :
  (store.delete id).2.get? other = if id = other then none else store.get? other
  := Table.get?_erase

theorem get?_of_get?_delete {id other : String} {query : SavedQuery}
    (h : (store.delete id).2.get? other = some query) :
  store.get? other = some query
  := by
  rw [get?_delete] at h
  split at h
  · cases h
  · exact h

/-- What saving a query leaves: its record, and all others but the one that is evicted. -/
theorem get?_upsert_eq (newId : String) (query : SavedQuery) (id : String) :
  (store.upsert newId query).store.get? id
    = if (store.upsert newId query).query.id = id then some (store.upsert newId query).query
      else if (store.upsert newId query).evicted = some id then none
      else store.get? id
  := by
  rw [get?, upsert, Table.get?_insert]
  simp only
  split
  case isTrue => rfl
  case isFalse =>
    cases store.rival? { query with id := store.idFor newId query } with
    | none => rfl
    | some rival => simp [get?]

/-- The id under which a query is stored is its own, a new one or one of a record. -/
theorem idFor_of_forall {p : String → Prop} {newId : String} (hnew : p newId) {query : SavedQuery}
    (hquery : p query.id) (hstore : ∀ id other, store.get? id = some other → p other.id) :
  p (store.idFor newId query)
  := by
  rw [idFor]
  split
  case isTrue => exact hquery
  case isFalse =>
    split
    case h_1 other hfind =>
      obtain ⟨id, hother⟩ := mem_values_iff.mp (List.mem_of_find?_eq_some hfind)
      split
      case isTrue => exact hnew
      case isFalse => exact hstore id other hother
    case h_2 => exact hnew

namespace Orderly

theorem delete (h : store.Orderly) (id : String) :
  (store.delete id).2.Orderly
  := by
  constructor
  · intro other query hquery
    exact h.id_eq (get?_of_get?_delete hquery)
  · intro other query hquery
    exact h.id_ne (get?_of_get?_delete hquery)
  · intro id other a b ha hb
    exact h.alone (get?_of_get?_delete ha) (get?_of_get?_delete hb)

/-! ### The id of a query -/

theorem idFor_of_ne {newId : String} {query : SavedQuery} (hid : query.id ≠ "") :
  store.idFor newId query = query.id
  := if_pos hid

/-- Records in one place are one record. -/
theorem eq_of_sameSlot (h : store.Orderly) {query a b : SavedQuery}
    (ha : a ∈ store.records.values) (hb : b ∈ store.records.values)
    (haslot : a.sameSlot query = true) (hbslot : b.sameSlot query = true) :
  a = b
  := by
  obtain ⟨id, ha⟩ := mem_values_iff.mp ha
  obtain ⟨other, hb⟩ := mem_values_iff.mp hb
  rw [SavedQuery.sameSlot_comm] at hbslot
  obtain rfl := h.alone ha hb (SavedQuery.sameSlot_trans haslot hbslot)
  exact Option.some.inj (ha.symm.trans hb)

/-- A query without an id takes that of the record in its place. -/
theorem idFor_of_sameSlot (h : store.Orderly) {newId : String} {query : SavedQuery}
    (hid : query.id = "") {id : String} {holder : SavedQuery}
    (hholder : store.get? id = some holder) (hslot : holder.sameSlot query = true) :
  store.idFor newId query = id
  := by
  have hmem := mem_values_iff.mpr ⟨id, hholder⟩
  have hfind : store.records.values.find? (fun other => other.sameSlot query) = some holder := by
    apply find?_eq_some_of_unique hmem hslot
    intro other hother hsame
    exact h.eq_of_sameSlot hother hmem hsame hslot
  rw [idFor, if_neg (by simpa using hid), hfind]
  simp only [h.id_eq hholder]
  exact if_neg (h.id_ne hholder)

theorem idFor_of_vacant {newId : String} {query : SavedQuery} (hid : query.id = "")
    (hvacant : ∀ id holder, store.get? id = some holder → holder.sameSlot query = false) :
  store.idFor newId query = newId
  := by
  rw [idFor, if_neg (by simpa using hid)]
  have hfind : store.records.values.find? (fun other => other.sameSlot query) = none := by
    rw [List.find?_eq_none]
    intro other hother
    obtain ⟨id, hid⟩ := mem_values_iff.mp hother
    simp [hvacant id other hid]
  rw [hfind]

theorem idFor_ne_empty (h : store.Orderly) {newId : String} (hnew : newId ≠ "")
    (query : SavedQuery) :
  store.idFor newId query ≠ ""
  := by
  by_cases hid : query.id = ""
  · by_cases hslot : ∃ id holder, store.get? id = some holder ∧ holder.sameSlot query = true
    · obtain ⟨id, holder, hholder, hslot⟩ := hslot
      rw [h.idFor_of_sameSlot hid hholder hslot]
      exact h.id_ne hholder
    · rw [idFor_of_vacant hid (by simpa using hslot)]
      exact hnew
  · rw [idFor_of_ne hid]
    exact hid

/-! ### Saving -/

/-- The record that has to go is the one in the place of the query, unless it has its id. -/
theorem rival?_eq_some_iff (h : store.Orderly) {query : SavedQuery} {id : String} :
  store.rival? query = some id
    ↔ id ≠ query.id ∧ ∃ holder, store.get? id = some holder ∧ holder.sameSlot query = true
  := by
  rw [rival?, Option.map_eq_some_iff]
  constructor
  · rintro ⟨holder, hfind, rfl⟩
    obtain ⟨id, hholder⟩ := mem_values_iff.mp (List.mem_of_find?_eq_some hfind)
    have hfound := List.find?_some hfind
    simp only [Bool.and_eq_true, decide_eq_true_eq] at hfound
    rw [h.id_eq hholder] at hfound ⊢
    exact ⟨hfound.1, holder, hholder, hfound.2⟩
  · rintro ⟨hne, holder, hholder, hslot⟩
    have hmem := mem_values_iff.mpr ⟨id, hholder⟩
    have hid := h.id_eq hholder
    use holder
    constructor
    · apply find?_eq_some_of_unique hmem
      · simp [hid, hne, hslot]
      · intro other hother hsame
        simp only [Bool.and_eq_true] at hsame
        exact h.eq_of_sameSlot hother hmem hsame.2 hslot
    · exact hid

/-- The other record that is gone when a query has been saved. -/
theorem evicted_eq_some_iff (h : store.Orderly) {newId : String} {query : SavedQuery} {id : String} :
  (store.upsert newId query).evicted = some id
    ↔ id ≠ (store.upsert newId query).query.id
      ∧ ∃ holder, store.get? id = some holder ∧ holder.sameSlot query = true
  := h.rival?_eq_some_iff

/-- After a query has been saved its record stands under its id; of the others only those remain
that stand elsewhere. -/
theorem get?_upsert (h : store.Orderly) (newId : String) (query : SavedQuery) (id : String) :
  (store.upsert newId query).store.get? id
    = if (store.upsert newId query).query.id = id then some (store.upsert newId query).query
      else (store.get? id).filter fun other => !other.sameSlot query
  := by
  rw [get?_upsert_eq]
  split
  case isTrue => rfl
  case isFalse hid =>
    simp only [h.evicted_eq_some_iff, Ne.symm hid, ne_eq, not_false_eq_true, true_and]
    cases store.get? id with
    | none => simp
    | some other =>
      by_cases hslot : other.sameSlot query = true
      · simp [hslot, Option.filter_some]
      · simp [hslot, Option.filter_some]

/-- Saving keeps a store orderly. -/
theorem upsert (h : store.Orderly) {newId : String} (hnew : newId ≠ "") (query : SavedQuery) :
  (store.upsert newId query).store.Orderly
  := by
  have hcases {id : String} {other : SavedQuery}
      (hother : (store.upsert newId query).store.get? id = some other) :
      (store.idFor newId query = id ∧ other = { query with id := store.idFor newId query })
        ∨ (store.get? id = some other ∧ other.sameSlot query = false) := by
    rw [h.get?_upsert] at hother
    split at hother
    case isTrue hid =>
      cases hother
      exact .inl ⟨hid, rfl⟩
    case isFalse hid =>
      rw [Option.filter_eq_some_iff] at hother
      simp only [Bool.not_eq_true'] at hother
      exact .inr hother
  constructor
  · intro id other hother
    obtain ⟨rfl, rfl⟩ | ⟨hother, -⟩ := hcases hother
    · rfl
    · exact h.id_eq hother
  · intro id other hother
    obtain ⟨rfl, -⟩ | ⟨hother, -⟩ := hcases hother
    · exact h.idFor_ne_empty hnew query
    · exact h.id_ne hother
  · intro id other a b ha hb hslot
    obtain ⟨rfl, rfl⟩ | ⟨ha, hfar⟩ := hcases ha
    · obtain ⟨rfl, -⟩ | ⟨-, hfar⟩ := hcases hb
      · rfl
      · rw [SavedQuery.sameSlot_comm, SavedQuery.sameSlot_with_id, hfar] at hslot
        cases hslot
    · obtain ⟨rfl, rfl⟩ | ⟨hb, -⟩ := hcases hb
      · rw [SavedQuery.sameSlot_with_id, hfar] at hslot
        cases hslot
      · exact h.alone ha hb hslot

end Orderly

/-! ### Runs -/

/-- What saving a query does to a store: it is stored as it is but for its id, and only the record
of that id and the one in its place are gone. -/
structure Saves (before : Store) (newId : String) (query saved : SavedQuery) (after : Store) :
    Prop where
  eq_query : saved = { query with id := saved.id }
  stored : after.get? saved.id = some saved
  keeps_id : query.id ≠ "" → saved.id = query.id
  takes_id : query.id = "" → ∀ id holder, before.get? id = some holder →
    holder.sameSlot query = true → saved.id = id
  new_id : query.id = "" → (∀ id holder, before.get? id = some holder →
    holder.sameSlot query = false) → saved.id = newId
  others : ∀ id, id ≠ saved.id →
    after.get? id = (before.get? id).filter fun other => !other.sameSlot query

/-- Saving a query in an orderly store. -/
theorem Orderly.saves (h : store.Orderly) (newId : String) (query : SavedQuery) :
  store.Saves newId query (store.upsert newId query).query (store.upsert newId query).store
  := by
  constructor
  · rfl
  · rw [h.get?_upsert, if_pos rfl]
  · exact idFor_of_ne
  · intro hid id holder
    exact h.idFor_of_sameSlot hid
  · exact idFor_of_vacant
  · intro id hne
    rw [h.get?_upsert, if_neg (Ne.symm hne)]

/-- The stores that saving and deleting make of the empty one, where new ids are fresh. -/
inductive Reachable : Store → Prop
  | empty : Reachable empty
  | save {store : Store} (h : Reachable store) {newId : String} (hnew : store.IsFresh newId)
    (query : SavedQuery) : Reachable (store.save newId query).2
  | delete {store : Store} (h : Reachable store) (id : String) : Reachable (store.delete id).2

/-- In every reachable store each record stands under its own id, which is not empty, and no two
records have the same place; and a query that is saved there is stored and returned as it is but
for its id, which it keeps, or takes over from the record in its place, while all records but that
one and the one of its id stay as they are. -/
theorem Reachable.orderly_and_saves (h : store.Reachable) :
  store.Orderly ∧ ∀ newId query, store.IsFresh newId → ∃ saved after,
    store.save newId query = (.ok saved, after) ∧ store.Saves newId query saved after
  := by
  have horderly : store.Orderly := by
    induction h with
    | empty => exact orderly_empty
    | save _ hnew query ih => exact ih.upsert hnew.1 query
    | delete _ id ih => exact ih.delete id
  use horderly
  intro newId query _
  exact ⟨_, _, rfl, horderly.saves newId query⟩

/-- A store with two records. -/
def two : Store :=
  ((empty.save "1" { name := "A", text := "x = 1" }).2.save "2" { name := "B", text := "x = 2" }).2

theorem reachable_two :
  two.Reachable
  := by
  apply Reachable.save
  · apply Reachable.save .empty
    exact ⟨by decide, rfl⟩
  · exact ⟨by decide, by decide⟩

/-- The first of the two records is moved to the place of the second. -/
theorem orderly_and_saves_two :
  two.Reachable ∧ two.IsFresh "3" ∧ two.Orderly ∧ ∃ saved after,
    two.save "3" { id := "1", name := "B", text := "x = 3" } = (.ok saved, after)
      ∧ two.Saves "3" { id := "1", name := "B", text := "x = 3" } saved after
      ∧ after.get? "2" = none
  := by
  have hfresh : two.IsFresh "3" := ⟨by decide, by decide⟩
  obtain ⟨horderly, hsaves⟩ := reachable_two.orderly_and_saves
  obtain ⟨saved, after, hsave, hsaved⟩ := hsaves "3" { id := "1", name := "B", text := "x = 3" } hfresh
  refine ⟨reachable_two, hfresh, horderly, saved, after, hsave, hsaved, ?_⟩
  cases hsave
  decide

end Store

end Sift
