import Sift.Proofs.Saved.Visibility

/-!
# The latest query of a name

A query that is saved is the one that its name means in its own scope from then on. What goes before
it there has its owner, and with that its place, or it comes with the system while the query has no
owner (`SavedQuery.Overrides`). So a store that holds the query, one record at most in each place
and nothing that overrides it finds it (`Store.Shows.find_eq`), and every call that spares the query
leaves such a store. `Store.Reachable.find_saved` is the result for all stores that saving and
deleting make of the empty one.
-/

namespace Sift

namespace SavedQuery

variable {query other : SavedQuery}

/-- The scope that a query belongs to. -/
def scope (query : SavedQuery) : Scope where
  entity := query.entity
  owner := query.owner

/-- Whether a record comes with the system and has the name and the entity of a query that no one
owns. The name does not mean that query then, at least not for sure. -/
def Overrides (other query : SavedQuery) : Prop :=
  query.owner = none ∧ other.name = query.name ∧ other.entity = query.entity
    ∧ other.isSystem = true

instance : Decidable (other.Overrides query) :=
  inferInstanceAs (Decidable (_ ∧ _ ∧ _ ∧ _))

theorem visibleIn_iff {scope : Scope} :
  query.visibleIn scope = true ↔ query.entity = scope.entity
    ∧ (query.owner = none ∨ query.isSystem = true ∨ scope.owner = query.owner)
  := by
  simp [visibleIn, or_assoc]

theorem visibleIn_scope :
  query.visibleIn query.scope = true
  := by
  rw [visibleIn_iff]
  exact ⟨rfl, .inr (.inr rfl)⟩

/-- What is not worse than a query in its own scope has its place, unless it overrides it. -/
theorem sameSlot_of_rank_le (hname : other.name = query.name)
    (hvisible : other.visibleIn query.scope = true)
    (hrank : other.rank query.scope ≤ query.rank query.scope) (hfirst : ¬ other.Overrides query) :
  other.sameSlot query = true
  := by
  obtain ⟨hentity, hseen⟩ := visibleIn_iff.mp hvisible
  have howner : other.owner = query.owner := by
    cases hquery : query.owner with
    | none =>
      -- Of the queries of others only those of the system can be seen here.
      obtain hnone | hsystem | hsame := hseen
      · exact hnone
      · exact absurd ⟨hquery, hname, hentity, hsystem⟩ hfirst
      · exact hsame.symm.trans hquery
    | some owner =>
      -- One's own query has the least rank, which no other query has.
      have hleast : query.rank query.scope = 0 := by simp [rank, scope, hquery]
      rw [hleast, Nat.le_zero, rank] at hrank
      split at hrank
      case isTrue hown =>
        rw [Bool.and_eq_true, decide_eq_true_iff] at hown
        rw [hown.2, ← hquery]
        rfl
      case isFalse => split at hrank <;> cases hrank
  rw [sameSlot_iff]
  exact ⟨hname, hentity, howner⟩

end SavedQuery

namespace Store

variable {store : Store} {query other : SavedQuery}

/-! ### Stores that show a query -/

/-- Whether a store holds a query, one record at most in each place, and nothing that overrides the
query. -/
structure Shows (store : Store) (query : SavedQuery) : Prop where
  orderly : store.Orderly
  stored : store.get? query.id = some query
  first : ∀ id other, store.get? id = some other → id ≠ query.id → ¬ other.Overrides query

namespace Shows

/-- A query that a store shows is what its name means in its scope. -/
theorem find_eq (h : store.Shows query) :
  store.find query.name query.scope = some query
  := by
  have hcandidate : query ∈ store.candidates query.scope query.name := by
    rw [mem_candidates_iff]
    exact ⟨mem_values_iff.mpr ⟨query.id, h.stored⟩, rfl, SavedQuery.visibleIn_scope⟩
  apply find_eq_some hcandidate
  rintro best ⟨hbest, hleast⟩
  obtain ⟨hvalue, hname, hvisible⟩ := mem_candidates_iff.mp hbest
  obtain ⟨id, hstored⟩ := mem_values_iff.mp hvalue
  by_cases hid : id = query.id
  · rw [hid, h.stored] at hstored
    exact (Option.some.inj hstored).symm
  · have hslot := SavedQuery.sameSlot_of_rank_le hname hvisible (hleast query hcandidate)
      (h.first id best hstored hid)
    exact absurd (h.orderly.alone hstored h.stored hslot) hid

/-- A query in another place does not get the id of a query that is stored, unless it has it. -/
theorem idFor_ne (h : store.Shows query) {newId : String} (hfresh : store.IsFresh newId)
    (hid : other.id ≠ query.id) (hslot : other.sameSlot query = false) :
  store.idFor newId other ≠ query.id
  := by
  by_cases hempty : other.id = ""
  · by_cases hholder : ∃ id holder, store.get? id = some holder ∧ holder.sameSlot other = true
    · obtain ⟨id, holder, hholder, hsame⟩ := hholder
      rw [h.orderly.idFor_of_sameSlot hempty hholder hsame]
      rintro rfl
      rw [h.stored] at hholder
      cases hholder
      rw [SavedQuery.sameSlot_comm, hslot] at hsame
      cases hsame
    · rw [Orderly.idFor_of_vacant hempty (by simpa using hholder)]
      rintro rfl
      cases hfresh.2.symm.trans h.stored
  · rw [Orderly.idFor_of_ne hempty]
    exact hid

/-- Saving a query under another id and in another place keeps a query shown. -/
theorem save (h : store.Shows query) {newId : String} (hfresh : store.IsFresh newId)
    (hid : other.id ≠ query.id) (hslot : other.sameSlot query = false)
    (hfirst : ¬ other.Overrides query) :
  (store.save newId other).2.Shows query
  := by
  constructor
  · exact h.orderly.upsert hfresh.1 other
  · have hkept : (store.upsert newId other).query.id ≠ query.id := h.idFor_ne hfresh hid hslot
    rw [Store.save, h.orderly.get?_upsert, if_neg hkept, h.stored, Option.filter_some,
      SavedQuery.sameSlot_comm, hslot]
    rfl
  · intro id found hfound hne
    rw [Store.save, h.orderly.get?_upsert] at hfound
    split at hfound
    case isTrue =>
      cases hfound
      exact hfirst
    case isFalse =>
      apply h.first id found _ hne
      exact (Option.filter_eq_some_iff.mp hfound).1

/-- Deleting another record keeps a query shown. -/
theorem delete (h : store.Shows query) {id : String} (hid : id ≠ query.id) :
  (store.delete id).2.Shows query
  := by
  constructor
  · exact h.orderly.delete id
  · rw [get?_delete, if_neg hid, h.stored]
  · intro other found hfound hne
    exact h.first other found (get?_of_get?_delete hfound) hne

end Shows

/-! ### Runs that spare a query -/

/-- The stores that saving and deleting make of a store, where new ids are fresh, as long as no call
touches a query: none is made for its id or its place, and nothing is saved that overrides it. -/
inductive Spares (query : SavedQuery) (start : Store) : Store → Prop
  | start : Spares query start start
  | save {store : Store} {newId : String} {other : SavedQuery} (h : Spares query start store)
    (hfresh : store.IsFresh newId) (hid : other.id ≠ query.id)
    (hslot : other.sameSlot query = false) (hfirst : ¬ other.Overrides query) :
    Spares query start (store.save newId other).2
  | delete {store : Store} {id : String} (h : Spares query start store) (hid : id ≠ query.id) :
    Spares query start (store.delete id).2

theorem Spares.shows {start : Store} (h : Spares query start store) (hstart : start.Shows query) :
  store.Shows query
  := by
  induction h with
  | start => exact hstart
  | save _ hfresh hid hslot hfirst ih => exact ih.save hfresh hid hslot hfirst
  | delete _ hid ih => exact ih.delete hid

theorem Reachable.orderly (h : store.Reachable) :
  store.Orderly
  := by
  induction h with
  | empty => exact orderly_empty
  | save _ hfresh query ih => exact ih.upsert hfresh.1 query
  | delete _ id ih => exact ih.delete id

/-- Saving a query in a reachable store succeeds, and if no other record overrides the query then,
its name means the stored query in its scope: right away, and in every store that later calls lead
to as long as they spare it. -/
theorem Reachable.find_saved (h : store.Reachable) {newId : String} (hfresh : store.IsFresh newId)
    (query : SavedQuery) :
  ∃ saved after, store.save newId query = (.ok saved, after)
    ∧ ((∀ id other, after.get? id = some other → id ≠ saved.id → ¬ other.Overrides query) →
      after.find query.name query.scope = some saved
        ∧ ∀ later, Spares saved after later → later.find query.name query.scope = some saved)
  := by
  use (store.upsert newId query).query, (store.upsert newId query).store, rfl
  intro hfirst
  have hshows : (store.upsert newId query).store.Shows (store.upsert newId query).query := by
    constructor
    · exact h.orderly.upsert hfresh.1 query
    · exact (h.orderly.saves newId query).stored
    · exact hfirst
  use hshows.find_eq
  intro later hlater
  exact (hlater.shows hshows).find_eq

/-- A new text for the first of the two queries. -/
def renewed : SavedQuery where
  name := "A"
  text := "x = 3"

/-- The query of someone else under the same name. -/
def bobsQuery : SavedQuery where
  name := "A"
  text := "x = 4"
  owner := some "bob"

/-- The new text is found after someone else has saved a query under the same name and another query
has been deleted. -/
theorem find_saved_two :
  two.Reachable ∧ two.IsFresh "3" ∧ ∃ saved after, two.save "3" renewed = (.ok saved, after)
    ∧ saved = { renewed with id := "1" }
    ∧ (∀ id other, after.get? id = some other → id ≠ saved.id → ¬ other.Overrides renewed)
    ∧ Spares saved after ((after.save "4" bobsQuery).2.delete "2").2
    ∧ ((after.save "4" bobsQuery).2.delete "2").2.find "A" { entity := "" } = some saved
  := by
  have hfresh : two.IsFresh "3" := ⟨by decide, by decide⟩
  obtain ⟨saved, after, hsave, hfind⟩ := reachable_two.find_saved hfresh renewed
  obtain ⟨rfl, rfl⟩ : saved = (two.upsert "3" renewed).query
      ∧ after = (two.upsert "3" renewed).store := by
    cases hsave
    exact ⟨rfl, rfl⟩
  have hentries : ∀ entry ∈ (two.upsert "3" renewed).store.records.entries,
      entry.1 ≠ (two.upsert "3" renewed).query.id → ¬ entry.2.Overrides renewed := by
    decide
  have hfirst : ∀ id other, (two.upsert "3" renewed).store.get? id = some other →
      id ≠ (two.upsert "3" renewed).query.id → ¬ other.Overrides renewed := by
    intro id other hother
    exact hentries (id, other) (Table.get?_eq_some_iff.mp hother)
  have hspares : Spares (two.upsert "3" renewed).query (two.upsert "3" renewed).store
      (((two.upsert "3" renewed).store.save "4" bobsQuery).2.delete "2").2 := by
    apply Spares.delete
    · apply Spares.save .start
      · exact ⟨by decide, by decide⟩
      · decide
      · decide
      · decide
    · decide
  exact ⟨reachable_two, hfresh, _, _, hsave, by decide, hfirst, hspares, (hfind hfirst).2 _ hspares⟩

/-- What comes with the system goes before a query that no one owns. -/
example : (two.save "3" { bobsQuery with isSystem := true }).2.find "A" { entity := "" }
    = some { bobsQuery with id := "3", isSystem := true } := by
  decide

end Store

end Sift
