import Mathlib.Order.Nat
import Sift.Proofs.Saved.Records
import Sift.Saved.Resolution

/-!
# What a scope can see of a store

A name means the best of the visible queries of that name, and if no two of these have one rank,
then there is only one best. So stores that hold the same visible queries agree on what names mean
(`Store.SameVisible.find_eq`), and with that on every expansion: `Store.SameVisible.resolve?_eq`
says that queries outside the scope change neither the tree, nor the error, nor the names that are
looked up.
-/

namespace Sift

namespace Store

variable {scope : Scope} {queries : List SavedQuery} {name : String}

/-! ### The best of the candidates -/

/-- Whether a query is among the candidates and none of them has a lower rank. -/
def IsBest (scope : Scope) (queries : List SavedQuery) (query : SavedQuery) : Prop :=
  query ∈ queries ∧ ∀ other ∈ queries, query.rank scope ≤ other.rank scope

theorem foldl_better_isBest (scope : Scope) (queries : List SavedQuery) (first : SavedQuery) :
  ∃ best, queries.foldl (better scope) (some first) = some best
    ∧ IsBest scope (first :: queries) best
  := by
  induction queries generalizing first with
  | nil => exact ⟨first, rfl, by simp [IsBest]⟩
  | cons query rest ih =>
    rw [List.foldl_cons, better]
    split
    case isTrue hlt =>
      obtain ⟨best, hbest, hmem, hle⟩ := ih query
      refine ⟨best, hbest, List.mem_cons_of_mem first hmem, ?_⟩
      rw [List.forall_mem_cons]
      exact ⟨(hle query List.mem_cons_self).trans hlt.le, hle⟩
    case isFalse hlt =>
      obtain ⟨best, hbest, hmem, hle⟩ := ih first
      rw [List.forall_mem_cons] at hle
      refine ⟨best, hbest, ?_, ?_⟩
      · rw [List.mem_cons] at hmem ⊢
        exact hmem.imp_right (List.mem_cons_of_mem query)
      · rw [List.forall_mem_cons, List.forall_mem_cons]
        exact ⟨hle.1, hle.1.trans (not_lt.mp hlt), hle.2⟩

/-- The queries that a name can mean in a scope. -/
def candidates (store : Store) (scope : Scope) (name : String) : List SavedQuery :=
  store.records.values.filter fun query => query.name = name && query.visibleIn scope

theorem mem_candidates_iff {store : Store} {query : SavedQuery} :
  query ∈ store.candidates scope name
    ↔ query ∈ store.records.values ∧ query.name = name ∧ query.visibleIn scope = true
  := by
  rw [candidates, List.mem_filter, Bool.and_eq_true, decide_eq_true_iff]

/-- A name means nothing exactly if there is nothing that it can mean. -/
theorem find_eq_none_iff {store : Store} :
  store.find name scope = none ↔ store.candidates scope name = []
  := by
  change (store.candidates scope name).foldl (better scope) none = none ↔ _
  cases store.candidates scope name with
  | nil => exact ⟨fun _ => rfl, fun _ => rfl⟩
  | cons first rest =>
    obtain ⟨best, hbest, -⟩ := foldl_better_isBest scope rest first
    rw [List.foldl_cons, better, hbest]
    constructor
    · rintro ⟨⟩
    · rintro ⟨⟩

/-- What a name means is the best that it can mean. -/
theorem isBest_of_find {store : Store} {query : SavedQuery}
    (h : store.find name scope = some query) :
  IsBest scope (store.candidates scope name) query
  := by
  change (store.candidates scope name).foldl (better scope) none = some query at h
  cases hcandidates : store.candidates scope name with
  | nil =>
    rw [hcandidates] at h
    cases h
  | cons first rest =>
    obtain ⟨best, hbest, hisBest⟩ := foldl_better_isBest scope rest first
    rw [hcandidates, List.foldl_cons, better, hbest] at h
    cases h
    exact hisBest

/-- A name means the query that is the only best of what it can mean. -/
theorem find_eq_some {store : Store} {query : SavedQuery}
    (hquery : query ∈ store.candidates scope name)
    (honly : ∀ best, IsBest scope (store.candidates scope name) best → best = query) :
  store.find name scope = some query
  := by
  cases hfind : store.find name scope with
  | none =>
    rw [find_eq_none_iff] at hfind
    rw [hfind] at hquery
    cases hquery
  | some best => rw [honly best (isBest_of_find hfind)]

/-! ### Stores with the same visible queries -/

/-- Whether no two of the visible queries of one name have the same rank. -/
def Unambiguous (store : Store) (scope : Scope) : Prop :=
  ∀ a ∈ store.records.values, ∀ b ∈ store.records.values, a.visibleIn scope = true →
    b.visibleIn scope = true → a.name = b.name → a.rank scope = b.rank scope → a = b

/-- Whether two stores hold the same of the queries that are visible in a scope. -/
def SameVisible (scope : Scope) (a b : Store) : Prop :=
  ∀ query : SavedQuery, query.visibleIn scope = true →
    (query ∈ a.records.values ↔ query ∈ b.records.values)

namespace SameVisible

variable {a b : Store}

theorem symm (h : SameVisible scope a b) :
  SameVisible scope b a
  := fun query hvisible => (h query hvisible).symm

theorem mem_candidates_iff (h : SameVisible scope a b) {query : SavedQuery} :
  query ∈ a.candidates scope name ↔ query ∈ b.candidates scope name
  := by
  rw [Store.mem_candidates_iff, Store.mem_candidates_iff]
  constructor
  · rintro ⟨hmem, hname, hvisible⟩
    exact ⟨(h query hvisible).mp hmem, hname, hvisible⟩
  · rintro ⟨hmem, hname, hvisible⟩
    exact ⟨(h query hvisible).mpr hmem, hname, hvisible⟩

theorem find_eq_none (h : SameVisible scope a b) (hnone : a.find name scope = none) :
  b.find name scope = none
  := by
  rw [find_eq_none_iff] at hnone ⊢
  apply List.eq_nil_iff_forall_not_mem.mpr
  intro query hquery
  rw [← h.mem_candidates_iff, hnone] at hquery
  cases hquery

/-- Stores with the same visible queries agree on what a name means. -/
theorem find_eq (h : SameVisible scope a b) (hunambiguous : a.Unambiguous scope) (name : String) :
  a.find name scope = b.find name scope
  := by
  cases ha : a.find name scope with
  | none => rw [h.find_eq_none ha]
  | some best =>
    cases hb : b.find name scope with
    | none =>
      rw [h.symm.find_eq_none hb] at ha
      cases ha
    | some other =>
      obtain ⟨hbest, hleast⟩ := isBest_of_find ha
      obtain ⟨hother, hleastOther⟩ := isBest_of_find hb
      have hrank : best.rank scope = other.rank scope := by
        apply le_antisymm
        · apply hleast other (h.mem_candidates_iff.mpr hother)
        · apply hleastOther best (h.mem_candidates_iff.mp hbest)
      obtain ⟨hbest, hname, hvisible⟩ := Store.mem_candidates_iff.mp hbest
      obtain ⟨hother, hnameOther, hvisibleOther⟩ :=
        Store.mem_candidates_iff.mp (h.mem_candidates_iff.mpr hother)
      rw [hunambiguous best hbest other hother hvisible hvisibleOther
        (hname.trans hnameOther.symm) hrank]

end SameVisible

end Store

/-! ### Expanding over stores -/

/-- How names are looked up in a store. -/
def Store.resolver (store : Store) (schema : Schema) (scope : Scope) (maxDepth : Nat) : Resolver where
  schema
  find name := .ok (store.find name scope)
  maxDepth

/-- The names that are looked up when the names in a tree are expanded, in order. -/
def Resolver.lookedUp (resolver : Resolver) (ancestors : List String) (q : Query) : List String :=
  ((resolver.resolve ancestors q).run.run []).2

/-- A schema of people, by their age. -/
def Resolver.persons : Schema where
  fields := Table.ofList [("age", { name := "age", type := .number })]

namespace Store

variable {scope : Scope}

/-- Stores with the same visible queries look names up alike. -/
theorem SameVisible.resolver_eq {a b : Store} (h : SameVisible scope a b)
    (hunambiguous : a.Unambiguous scope) (schema : Schema) (maxDepth : Nat) :
  a.resolver schema scope maxDepth = b.resolver schema scope maxDepth
  := by
  unfold resolver
  congr 1
  funext name
  rw [h.find_eq hunambiguous]

/-- Two stores that hold the same of the queries visible in a scope, no two of one name having the
same rank, expand every tree in that scope to the same tree, or fail with the same error, and look
up the same names in the same order. -/
theorem SameVisible.resolve?_eq {a b : Store} (h : SameVisible scope a b)
    (hunambiguous : a.Unambiguous scope) (schema : Schema) (maxDepth : Nat)
    (ancestors : List String) (q : Query) :
  (a.resolver schema scope maxDepth).resolve? ancestors q
      = (b.resolver schema scope maxDepth).resolve? ancestors q
    ∧ (a.resolver schema scope maxDepth).lookedUp ancestors q
      = (b.resolver schema scope maxDepth).lookedUp ancestors q
  := by
  rw [h.resolver_eq hunambiguous]
  exact ⟨rfl, rfl⟩

/-! ### Changes outside the scope -/

/-- Saving a query outside the scope changes nothing inside it, if no visible query has its id or
its place. -/
theorem Orderly.sameVisible_save {store : Store} (h : store.Orderly) {newId : String}
    {query : SavedQuery} (hhidden : query.visibleIn scope = false)
    (hkept : ∀ id other, store.get? id = some other → other.visibleIn scope = true →
      id ≠ store.idFor newId query ∧ other.sameSlot query = false) :
  SameVisible scope store (store.save newId query).2
  := by
  intro other hvisible
  rw [mem_values_iff, mem_values_iff]
  constructor
  · rintro ⟨id, hother⟩
    obtain ⟨hid, hslot⟩ := hkept id other hother hvisible
    use id
    have hne : (store.upsert newId query).query.id ≠ id := Ne.symm hid
    rw [save, h.get?_upsert, if_neg hne, hother, Option.filter_some, hslot]
    rfl
  · rintro ⟨id, hother⟩
    rw [save, h.get?_upsert] at hother
    split at hother
    case isTrue =>
      cases hother
      cases hvisible.symm.trans hhidden
    case isFalse => exact ⟨id, (Option.filter_eq_some_iff.mp hother).1⟩

/-- What Ann can see: her own query, one of the system under the same name, and a shared one. -/
def annsView : Store :=
  (((empty.save "1" { name := "ADULT", text := "age > 17", owner := some "ann" }).2.save "2"
    { name := "ADULT", text := "age > 20", owner := some "root", isSystem := true }).2.save "3"
      { name := "TEEN", text := "!ADULT & age > 12" }).2

/-- The query that Bob saves for himself. -/
def bobsAdult : SavedQuery where
  name := "ADULT"
  text := "TEEN"
  owner := some "bob"

/-- Bob saves a query that would make a cycle, which Ann does not see. -/
theorem resolve?_eq_after_bob :
  SameVisible { entity := "", owner := some "ann" } annsView (annsView.save "4" bobsAdult).2
    ∧ annsView.Unambiguous { entity := "", owner := some "ann" }
    ∧ ((annsView.save "4" bobsAdult).2.resolver Resolver.persons
        { entity := "", owner := some "bob" } 32).resolve? [] (.reference { name := "TEEN" })
      = .error (.cyclic "TEEN")
    ∧ ((annsView.save "4" bobsAdult).2.resolver Resolver.persons
        { entity := "", owner := some "ann" } 32).resolve? [] (.reference { name := "TEEN" })
      = (annsView.resolver Resolver.persons
        { entity := "", owner := some "ann" } 32).resolve? [] (.reference { name := "TEEN" })
    ∧ ((annsView.save "4" bobsAdult).2.resolver Resolver.persons
        { entity := "", owner := some "ann" } 32).lookedUp [] (.reference { name := "TEEN" })
      = ["TEEN", "ADULT"]
  := by
  have horderly : annsView.Orderly := by
    apply Orderly.upsert _ (by decide)
    apply Orderly.upsert _ (by decide)
    apply Orderly.upsert orderly_empty (by decide)
  have hentries : ∀ entry ∈ annsView.records.entries,
      entry.1 ≠ annsView.idFor "4" bobsAdult ∧ entry.2.sameSlot bobsAdult = false := by
    decide
  have hsame : SameVisible { entity := "", owner := some "ann" } annsView
      (annsView.save "4" bobsAdult).2 := by
    apply horderly.sameVisible_save rfl
    intro id other hother _
    apply hentries (id, other) (Table.get?_eq_some_iff.mp hother)
  have hunambiguous : annsView.Unambiguous { entity := "", owner := some "ann" } := by
    unfold Unambiguous
    decide
  obtain ⟨hresolve, hlookedUp⟩ := hsame.resolve?_eq hunambiguous Resolver.persons 32 []
    (.reference { name := "TEEN" })
  refine ⟨hsame, hunambiguous, by decide +kernel, hresolve.symm, ?_⟩
  rw [← hlookedUp]
  decide +kernel

end Store

end Sift
