import Mathlib.Data.List.Forall2

/-!
# Computations that may fail and keep a state

`Yields x s a s'` says that the computation `x`, started in the state `s`, ends in the state `s'`
with the result `a`. What a compound computation yields is settled by what its parts yield:
`yields_bind`, and `Yields.forall₂` and `yields_mapM` for a computation made on each item of a
list. `forall₂_of_mapM_eq_ok` is the same without a state.
-/

namespace Sift

variable {ε σ α β : Type}

/-- From the state `s` the computation ends in the state `s'` with the result `a`. -/
def Yields (x : ExceptT ε (StateM σ) α) (s : σ) (a : α) (s' : σ) : Prop :=
  (x.run.run s).run = (.ok a, s')

@[simp]
theorem yields_pure {s s' : σ} {a b : α} :
  Yields (pure a : ExceptT ε (StateM σ) α) s b s' ↔ b = a ∧ s' = s
  := by
  constructor
  · rintro ⟨⟩
    exact ⟨rfl, rfl⟩
  · rintro ⟨rfl, rfl⟩
    rfl

@[simp]
theorem not_yields_throw {s s' : σ} {a : α} {e : ε} :
  ¬ Yields (throw e : ExceptT ε (StateM σ) α) s a s'
  := by
  rintro ⟨⟩

@[simp]
theorem yields_modify {s s' : σ} {u : Unit} {f : σ → σ} :
  Yields (modify f : ExceptT ε (StateM σ) Unit) s u s' ↔ s' = f s
  := by
  constructor
  · rintro ⟨⟩
    rfl
  · rintro rfl
    rfl

/-- A computation followed by another is run from where the first one ends, unless this fails. -/
theorem run_run_bind (x : ExceptT ε (StateM σ) α) (f : α → ExceptT ε (StateM σ) β) (s : σ) :
  ((x >>= f).run.run s).run = match (x.run.run s).run with
    | (.ok a, t) => ((f a).run.run t).run
    | (.error e, t) => (.error e, t)
  := by
  simp only [ExceptT.run_bind, StateT.run_bind, Id.run_bind]
  rcases (x.run.run s).run with ⟨_ | _, _⟩
  · rfl
  · rfl

/-- A computation followed by another ends where the second does, which starts where the first
one ends. -/
theorem yields_bind {x : ExceptT ε (StateM σ) α} {f : α → ExceptT ε (StateM σ) β} {s s' : σ}
    {b : β} :
  Yields (x >>= f) s b s' ↔ ∃ a t, Yields x s a t ∧ Yields (f a) t b s'
  := by
  simp only [Yields]
  rw [run_run_bind]
  rcases (x.run.run s).run with ⟨_ | a, t⟩
  · simp
  · simp

/-- The results of a computation made on each item of a list are yielded by the computation on
that item. -/
theorem Yields.forall₂ {f : α → ExceptT ε (StateM σ) β} {items : List α} {results : List β}
    {s s' : σ} (h : Yields (items.mapM f) s results s') :
  List.Forall₂ (fun a b => ∃ t t', Yields (f a) t b t') items results
  := by
  induction items generalizing results s s' with
  | nil =>
    simp only [List.mapM_nil, yields_pure] at h
    rw [h.1]
    exact .nil
  | cons item rest ih =>
    simp only [List.mapM_cons, yields_bind, yields_pure] at h
    obtain ⟨b, t, hb, bs, t', hbs, rfl, -⟩ := h
    exact .cons ⟨s, t, hb⟩ (ih hbs)

/-- A computation that yields something on every item of a list, in every state, can be made on
all of them. -/
theorem yields_mapM {f : α → ExceptT ε (StateM σ) β} {items : List α}
    (h : ∀ a ∈ items, ∀ s, ∃ b s', Yields (f a) s b s') (s : σ) :
  ∃ results s', Yields (items.mapM f) s results s'
  := by
  induction items generalizing s with
  | nil => exact ⟨[], s, by simp⟩
  | cons item rest ih =>
    obtain ⟨b, t, hb⟩ := h item (by simp) s
    obtain ⟨bs, t', hbs⟩ := ih (fun a ha => h a (by simp [ha])) t
    use b :: bs, t'
    simp only [List.mapM_cons, yields_bind, yields_pure]
    exact ⟨b, t, hb, bs, t', hbs, rfl, rfl⟩

/-- The same for computations without a state. -/
theorem forall₂_of_mapM_eq_ok {f : α → Except ε β} {items : List α} {results : List β}
    (h : items.mapM f = .ok results) :
  List.Forall₂ (fun a b => f a = .ok b) items results
  := by
  induction items generalizing results with
  | nil =>
    cases h
    exact .nil
  | cons item rest ih =>
    rw [List.mapM_cons] at h
    cases hb : f item with
    | error e =>
      rw [hb] at h
      cases h
    | ok b =>
      rw [hb] at h
      cases hbs : rest.mapM f with
      | error e =>
        rw [hbs] at h
        cases h
      | ok bs =>
        rw [hbs] at h
        cases h
        exact .cons hb (ih hbs)

theorem exists_of_mapM_eq_ok {f : α → Except ε β} {items : List α} {results : List β}
    (h : items.mapM f = .ok results) :
  ∀ a ∈ items, ∃ b, f a = .ok b
  := by
  replace h := forall₂_of_mapM_eq_ok h
  induction h with
  | nil => exact List.forall_mem_nil _
  | cons ha _ ih => exact List.forall_mem_cons.2 ⟨⟨_, ha⟩, ih⟩

/-- What is made of a result comes from a result. -/
theorem map_eq_ok_iff {f : α → β} {x : Except ε α} {b : β} :
  x.map f = .ok b ↔ ∃ a, x = .ok a ∧ f a = b
  := by
  cases x with
  | error e => simp [Except.map]
  | ok a => simp [Except.map]

theorem map_eq_error_iff {f : α → β} {x : Except ε α} {e : ε} :
  x.map f = .error e ↔ x = .error e
  := by
  cases x with
  | error => simp [Except.map]
  | ok => simp [Except.map]

/-- What goes on with a result has a result itself. -/
theorem bind_eq_ok_iff {f : α → Except ε β} {x : Except ε α} {b : β} :
  x >>= f = .ok b ↔ ∃ a, x = .ok a ∧ f a = .ok b
  := by
  cases x with
  | error e => simp [bind, Except.bind]
  | ok a => simp [bind, Except.bind]

/-- Items that have results have them together. -/
theorem mapM_eq_ok_of_forall₂ {f : α → Except ε β} {items : List α} {results : List β}
    (h : List.Forall₂ (fun a b => f a = .ok b) items results) :
  items.mapM f = .ok results
  := by
  induction h with
  | nil => rfl
  | cons hb _ ih =>
    rw [List.mapM_cons, hb, ih]
    rfl

/-- What fails on a list fails on one of its items. -/
theorem exists_of_mapM_eq_error {f : α → Except ε β} {items : List α} {e : ε}
    (h : items.mapM f = .error e) :
  ∃ a ∈ items, f a = .error e
  := by
  induction items with
  | nil => cases h
  | cons item rest ih =>
    rw [List.mapM_cons] at h
    cases hitem : f item with
    | error e' =>
      rw [hitem] at h
      cases h
      exact ⟨item, by simp, hitem⟩
    | ok b =>
      rw [hitem] at h
      change (rest.mapM f).map (b :: ·) = _ at h
      obtain ⟨a, ha, he⟩ := ih (map_eq_error_iff.mp h)
      exact ⟨a, by simp [ha], he⟩

/-- Computations that are the same on every item of a list are the same on the list. -/
theorem mapM_congr {f g : α → Except ε β} {items : List α} (h : ∀ a ∈ items, f a = g a) :
  items.mapM f = items.mapM g
  := by
  induction items with
  | nil => rfl
  | cons item rest ih =>
    rw [List.mapM_cons, List.mapM_cons, h item (by simp), ih fun a ha => h a (by simp [ha])]

/-! ### Lists of results -/

/-- Each item has a result. -/
theorem exists_of_forall₂ {R : α → β → Prop} {items : List α} {results : List β}
    (h : List.Forall₂ R items results) {a : α} (ha : a ∈ items) :
  ∃ b ∈ results, R a b
  := by
  induction h with
  | nil => cases ha
  | @cons item b _ bs hb _ ih =>
    obtain rfl | ha := List.mem_cons.mp ha
    · exact ⟨b, by simp, hb⟩
    · obtain ⟨b', hb', hr⟩ := ih ha
      exact ⟨b', by simp [hb'], hr⟩

/-- Results on which `f` tells what `g` tells of their items. -/
theorem map_eq_map_of_forall₂ {γ : Type} {R : α → β → Prop} {items : List α} {results : List β}
    {f : β → γ} {g : α → γ} (h : List.Forall₂ R items results)
    (hfg : ∀ a ∈ items, ∀ b, R a b → f b = g a) :
  results.map f = items.map g
  := by
  induction h with
  | nil => rfl
  | @cons a b _ _ hb _ ih =>
    rw [List.map_cons, List.map_cons, hfg a (by simp) b hb]
    rw [ih fun a' ha' => hfg a' (by simp [ha'])]

/-- Items all have results together exactly if each of them has one. -/
theorem mapM_isOk_iff {f : α → Except ε β} {items : List α} :
  (∃ results, items.mapM f = .ok results) ↔ ∀ a ∈ items, ∃ b, f a = .ok b
  := by
  constructor
  · rintro ⟨results, h⟩ a ha
    obtain ⟨b, -, hb⟩ := exists_of_forall₂ (forall₂_of_mapM_eq_ok h) ha
    exact ⟨b, hb⟩
  · intro h
    induction items with
    | nil => exact ⟨[], rfl⟩
    | cons item rest ih =>
      obtain ⟨b, hb⟩ := h item (by simp)
      obtain ⟨bs, hbs⟩ := ih fun a ha => h a (by simp [ha])
      use b :: bs
      rw [List.mapM_cons, hb, hbs]
      rfl

end Sift
