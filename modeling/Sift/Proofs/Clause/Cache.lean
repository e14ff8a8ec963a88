import Sift.Clause.Lookup

/-!
# Runs of a cache

A `Session` is a cache with the source behind it, and with notes of what the source answered and
when the cache was cleared. What the source was asked for is read off the log that a call writes
(`Cache.call`). The entries are what the notes say (`Session.Noted.run`), so the answers of the
cache can be told from them, too.

A `Cache` has no clock: either none of its entries is ever out of date, or all are at once. As long
as the one or the other is the case, a cache with a clock is in the same state
(`Dated.Mirrors.run`). `Cache.run_answers` is the result for both: it says when the source is asked,
and that the answer is the one that it gave when it last succeeded.
-/

namespace Sift

namespace Cache

variable {source : ValueSource} {field : String} {cache : Cache}

/-! ### One call -/

/-- What a call of a cache comes to: the answer, the fields for which the source was asked in it, and
the cache after it, but for the log. -/
structure Call (κ : Type) where
  answer : Except LookupError (List String)
  asked : List String
  cache : κ

/-- A call for a field, which is answered out of a source if nothing is up to date. Only what the
source answers without failing is kept. -/
def Call.of {κ : Type} (fresh : Option (List String)) (keep : List String → κ) (cache : κ)
    (field : String) (source : ValueSource) : Call κ :=
  match fresh with
  | some values => { answer := .ok values, asked := [], cache }
  | none =>
    match source field with
    | .ok values => { answer := .ok values, asked := [field], cache := keep values }
    | .error e => { answer := .error e, asked := [field], cache }

section Of

variable {κ : Type} {keep : List String → κ} {held : κ} {values : List String}

@[simp]
theorem Call.of_some :
  Call.of (some values) keep held field source = { answer := .ok values, asked := [], cache := held }
  := rfl

theorem Call.of_ok (h : source field = .ok values) :
  Call.of none keep held field source
    = { answer := .ok values, asked := [field], cache := keep values }
  := by
  simp only [Call.of, h]

theorem Call.of_error {e : LookupError} (h : source field = .error e) :
  Call.of none keep held field source = { answer := .error e, asked := [field], cache := held }
  := by
  simp only [Call.of, h]

/-- If nothing is up to date, the source is asked and its answer is passed on. -/
@[simp]
theorem Call.asked_of_none :
  (Call.of none keep held field source).asked = [field]
  := by
  cases h : source field with
  | ok values => rw [of_ok h]
  | error e => rw [of_error h]

@[simp]
theorem Call.answer_of_none :
  (Call.of none keep held field source).answer = source field
  := by
  cases h : source field with
  | ok values => rw [of_ok h]
  | error e => rw [of_error h]

/-- What does not change when values are kept does not change in a call. -/
theorem Call.map_cache_of {β : Type} (f : κ → β) (hkeep : ∀ values, f (keep values) = f held)
    (fresh : Option (List String)) :
  f (Call.of fresh keep held field source).cache = f held
  := by
  cases fresh with
  | some values => rfl
  | none =>
    cases h : source field with
    | ok values => rw [of_ok h, hkeep]
    | error e => rw [of_error h]

end Of

/-- A call of a cache. -/
def call (cache : Cache) (field : String) (source : ValueSource) : Call Cache :=
  let (answer, after) := cache.values source field
  { answer
    asked := after.asked.drop cache.asked.length
    cache := { after with asked := cache.asked } }

theorem call_eq (cache : Cache) (field : String) :
  cache.call field = .of (cache.fresh? field)
    (fun values => { cache with entries := cache.entries.insert field values }) cache field
  := by
  funext source
  rw [call, values]
  cases cache.fresh? field with
  | some values => simp
  | none =>
    cases h : source field with
    | ok values => simp [Call.of_ok h]
    | error e => simp [Call.of_error h]

/-- The source has to be asked exactly if a call asks it. -/
theorem misses_iff_asked :
  cache.misses field = true ↔ (cache.call field source).asked = [field]
  := by
  rw [misses, call_eq]
  cases cache.fresh? field <;> simp

/-! ### Runs -/

/-- What can happen to a cache, or to the values behind it. -/
inductive Event where
  | ask (field : String)
  | clear
  | change (source : ValueSource)

/-- What is noted: an answer that the source has given, or that the cache was cleared. -/
inductive Note where
  | fetched (field : String) (answer : Except LookupError (List String))
  | cleared

/-- What is noted of a call: what the source answered when it was asked. -/
def Call.notes {κ : Type} (call : Call κ) (source : ValueSource) : List Note :=
  call.asked.map fun field => .fetched field (source field)

/-- Whether the values are those that the source gave when it last succeeded for a field, and the
cache has not been cleared since. -/
def IsLatest (notes : List Note) (field : String) (values : List String) : Prop :=
  ∃ before after, notes = before ++ .fetched field (.ok values) :: after
    ∧ .cleared ∉ after ∧ ∀ others, .fetched field (.ok others) ∉ after

/-- A cache, the source behind it, and the notes so far. -/
structure Session where
  cache : Cache
  source : ValueSource
  notes : List Note := []

namespace Session

/-- A cache without entries. -/
def start (keeps : Bool) (source : ValueSource) : Session where
  cache := { keeps }
  source

/-- A session after something has happened. -/
def step (s : Session) : Event → Session
  | .ask field => { s with
      cache := (s.cache.values s.source field).2
      notes := s.notes ++ (s.cache.call field s.source).notes s.source }
  | .clear => { s with cache := s.cache.clear, notes := s.notes ++ [.cleared] }
  | .change source => { s with source }

/-- A session after some things have happened, one after the other. -/
def run (s : Session) (events : List Event) : Session :=
  events.foldl step s

end Session

/-! ### Notes -/

theorem not_isLatest_nil {values : List String} :
  ¬IsLatest [] field values
  := by
  rintro ⟨before, after, h, -⟩
  simp at h

/-- One more note is of the latest success, or leaves it as it was. -/
theorem isLatest_concat_iff {notes : List Note} {note : Note} {values : List String} :
  IsLatest (notes ++ [note]) field values
    ↔ note = .fetched field (.ok values)
      ∨ note ≠ .cleared ∧ (∀ others, note ≠ .fetched field (.ok others))
        ∧ IsLatest notes field values
  := by
  constructor
  · rintro ⟨before, after, h, hcleared, hlast⟩
    rcases List.eq_nil_or_concat after with rfl | ⟨init, last, rfl⟩
    · left
      exact List.singleton_inj.mp (List.append_inj' h rfl).2
    · right
      simp only [List.concat_eq_append] at h hcleared hlast
      rw [← List.cons_append, ← List.append_assoc] at h
      obtain ⟨hnotes, hnote⟩ := List.append_inj' h rfl
      obtain rfl := List.singleton_inj.mp hnote
      simp only [List.mem_append, List.mem_singleton, not_or] at hcleared hlast
      exact ⟨Ne.symm hcleared.2, fun others => Ne.symm (hlast others).2, before, init, hnotes,
        hcleared.1, fun others => (hlast others).1⟩
  · rintro (rfl | ⟨hcleared, hother, before, after, rfl, hafter, hlast⟩)
    · exact ⟨notes, [], rfl, by simp, by simp⟩
    · refine ⟨before, after ++ [note], by simp, ?_, ?_⟩
      · simpa using ⟨hafter, hcleared.symm⟩
      · intro others
        simpa using ⟨hlast others, (hother others).symm⟩

theorem isLatest_fetched_ok_iff {notes : List Note} {asked : String}
    {answer values : List String} :
  IsLatest (notes ++ [.fetched asked (.ok answer)]) field values
    ↔ if asked = field then answer = values else IsLatest notes field values
  := by
  rw [isLatest_concat_iff]
  split
  case isTrue h => simp [h]
  case isFalse h => simp [h]

theorem isLatest_fetched_error_iff {notes : List Note} {asked : String} {e : LookupError}
    {values : List String} :
  IsLatest (notes ++ [.fetched asked (.error e)]) field values ↔ IsLatest notes field values
  := by
  simp [isLatest_concat_iff]

theorem not_isLatest_cleared {notes : List Note} {values : List String} :
  ¬IsLatest (notes ++ [.cleared]) field values
  := by
  simp [isLatest_concat_iff]

/-! ### Answers -/

/-- What the notes tell of a call for a field. The source is asked if the answer depends on it, and
only then, which is if it has not succeeded for the field since the cache was cleared. The answer is
the one that it gave when it last succeeded, this call included, or else the error of this call,
which leaves the cache as it was. -/
structure Answers {κ : Type} (notes : List Note) (source : ValueSource) (field : String) (cache : κ)
    (call : ValueSource → Call κ) : Prop where
  once : (call source).asked = [field] ∨ (call source).asked = []
  depends_iff : (call source).asked = [field] ↔ ∃ source other : ValueSource,
    (call source).answer ≠ (call other).answer
  asked_iff : (call source).asked = [field] ↔ ∀ values, ¬IsLatest notes field values
  ok_iff : ∀ values, (call source).answer = .ok values
    ↔ IsLatest (notes ++ (call source).notes source) field values
  error_iff : ∀ e, (call source).answer = .error e
    ↔ (call source).asked = [field] ∧ source field = .error e
  unchanged : ∀ e, (call source).answer = .error e → (call source).cache = cache

/-- What a call does without a cache: it asks the source, and answers the same. -/
structure AsksAnew {κ : Type} (source : ValueSource) (field : String)
    (call : ValueSource → Call κ) : Prop where
  asked_eq : (call source).asked = [field]
  answer_eq : (call source).answer = source field

section Of

variable {κ : Type} {fresh : Option (List String)} {keep : List String → κ} {held : κ}
  {notes : List Note}

theorem answers_of (h : ∀ values, fresh = some values ↔ IsLatest notes field values)
    (source : ValueSource) :
  Answers notes source field held (.of fresh keep held field)
  := by
  cases fresh with
  | some values =>
    have hlatest : IsLatest notes field values := (h values).mp rfl
    refine ⟨.inr rfl, by simp, ?_, ?_, by simp, fun _ _ => rfl⟩
    · constructor
      · rintro ⟨⟩
      · exact fun hnone => absurd hlatest (hnone values)
    · intro others
      simp [Call.notes, ← h]
  | none =>
    have hnone (values : List String) : ¬IsLatest notes field values := by simp [← h]
    refine ⟨.inl Call.asked_of_none, ?_, by simp [hnone], ?_, by simp, ?_⟩
    · simp only [Call.asked_of_none, Call.answer_of_none, true_iff]
      exact ⟨fun _ => .ok [], fun _ => .ok [""], by simp⟩
    · intro values
      simp only [Call.notes, Call.asked_of_none, Call.answer_of_none, List.map_singleton]
      cases source field with
      | ok fetched => simp [isLatest_fetched_ok_iff]
      | error e => simp [isLatest_fetched_error_iff, hnone]
    · intro e he
      rw [Call.answer_of_none] at he
      rw [Call.of_error he]

theorem asksAnew_of (source : ValueSource) :
  AsksAnew source field (.of none keep held field)
  := ⟨Call.asked_of_none, Call.answer_of_none⟩

end Of

namespace Session

/-! ### Runs without a clock -/

/-- Whether the entries of a cache are what the notes say that they are. -/
def Noted (s : Session) : Prop :=
  ∀ field values, s.cache.entries.get? field = some values ↔ IsLatest s.notes field values

theorem noted_start (keeps : Bool) (source : ValueSource) :
  (start keeps source).Noted
  := by
  intro field values
  simp [start, not_isLatest_nil]

theorem Noted.step {s : Session} (h : s.Noted) (event : Event) :
  (s.step event).Noted
  := by
  intro field values
  cases event with
  | ask asked =>
    change (s.cache.call asked s.source).cache.entries.get? field = some values
      ↔ IsLatest (s.notes ++ (s.cache.call asked s.source).notes s.source) field values
    rw [call_eq]
    cases s.cache.fresh? asked with
    | some known => simpa [Call.notes] using h field values
    | none =>
      simp only [Call.notes, Call.asked_of_none, List.map_singleton]
      cases hsource : s.source asked with
      | ok answer =>
        rw [isLatest_fetched_ok_iff, Call.of_ok hsource, Table.get?_insert, ← h]
        split <;> simp
      | error e => rw [isLatest_fetched_error_iff, Call.of_error hsource, h]
  | clear => simp [Session.step, Cache.clear, not_isLatest_cleared]
  | change source => exact h field values

theorem Noted.run {s : Session} (h : s.Noted) (events : List Event) :
  (s.run events).Noted
  := by
  induction events generalizing s with
  | nil => exact h
  | cons event events ih => exact ih (h.step event)

theorem keeps_step (s : Session) (event : Event) :
  (s.step event).cache.keeps = s.cache.keeps
  := by
  cases event with
  | ask field =>
    change (s.cache.call field s.source).cache.keeps = s.cache.keeps
    rw [call_eq]
    apply Call.map_cache_of Cache.keeps
    exact fun _ => rfl
  | clear | change => rfl

theorem keeps_run (s : Session) (events : List Event) :
  (s.run events).cache.keeps = s.cache.keeps
  := by
  induction events generalizing s with
  | nil => rfl
  | cons event events ih => exact (ih (s.step event)).trans (s.keeps_step event)

end Session

/-! ### Runs with a clock -/

/-- A cache that keeps values for some time, with the times at which it fetched them, and the log of
the fields for which the source was asked. -/
structure Dated where
  lifetime : Nat
  entries : Table (Nat × List String) := Table.empty
  asked : List String := []

namespace Dated

variable {dated : Dated} {now : Nat}

/-- The values of a field that are up to date. -/
def fresh? (dated : Dated) (now : Nat) (field : String) : Option (List String) :=
  match dated.entries.get? field with
  | some (fetchedAt, values) => if now - fetchedAt < dated.lifetime then some values else none
  | none => none

/-- The values of a field, for which the source is asked only if none are up to date. A failure
is not kept. -/
def values (source : ValueSource) (now : Nat) (field : String) (dated : Dated) :
    Except LookupError (List String) × Dated :=
  match dated.fresh? now field with
  | some values => (.ok values, dated)
  | none =>
    let asked := dated.asked ++ [field]
    match source field with
    | .ok values =>
      (.ok values, { dated with entries := dated.entries.insert field (now, values), asked })
    | .error e => (.error e, { dated with asked })

/-- The cache without entries. -/
def clear (dated : Dated) : Dated :=
  { dated with entries := Table.empty }

/-- A call of a cache at some time. -/
def call (dated : Dated) (now : Nat) (field : String) (source : ValueSource) : Call Dated :=
  let (answer, after) := dated.values source now field
  { answer
    asked := after.asked.drop dated.asked.length
    cache := { after with asked := dated.asked } }

theorem call_eq (dated : Dated) (now : Nat) (field : String) :
  dated.call now field = .of (dated.fresh? now field)
    (fun values => { dated with entries := dated.entries.insert field (now, values) }) dated field
  := by
  funext source
  rw [call, values]
  cases dated.fresh? now field with
  | some values => simp
  | none =>
    cases h : source field with
    | ok values => simp [Call.of_ok h]
    | error e => simp [Call.of_error h]

/-- A cache with a clock, the source behind it, and the notes so far. -/
structure Session where
  dated : Dated
  source : ValueSource
  notes : List Note := []

/-- A cache without entries. -/
def start (lifetime : Nat) (source : ValueSource) : Session where
  dated := { lifetime }
  source

/-- A session after something has happened at some time. -/
def step (t : Session) : Nat × Event → Session
  | (now, .ask field) => { t with
      dated := (t.dated.values t.source now field).2
      notes := t.notes ++ (t.dated.call now field t.source).notes t.source }
  | (_, .clear) => { t with dated := t.dated.clear, notes := t.notes ++ [.cleared] }
  | (_, .change source) => { t with source }

/-- A session after some things have happened, one after the other. -/
def run (t : Session) (events : List (Nat × Event)) : Session :=
  events.foldl step t

/-- Whether all entries are up to date at a time if `keeps` is set, and none if not. -/
def Uniform (keeps : Bool) (dated : Dated) (now : Nat) : Prop :=
  ∀ field, dated.fresh? now field
    = if keeps then (dated.entries.get? field).map Prod.snd else none

/-- Whether this is so whenever something happens. -/
def Throughout (keeps : Bool) : Session → List (Nat × Event) → Prop
  | _, [] => True
  | t, event :: rest => t.dated.Uniform keeps event.1 ∧ Throughout keeps (step t event) rest

/-- Whether a session without a clock is in the same state as one with a clock. -/
structure Mirrors (t : Session) (s : Cache.Session) : Prop where
  source_eq : t.source = s.source
  notes_eq : t.notes = s.notes
  entries_eq : ∀ field, (t.dated.entries.get? field).map Prod.snd = s.cache.entries.get? field

variable {t : Session} {s : Cache.Session}

theorem Mirrors.fresh?_eq (h : Mirrors t s) (huniform : t.dated.Uniform s.cache.keeps now)
    (field : String) :
  t.dated.fresh? now field = s.cache.fresh? field
  := by
  rw [huniform, h.entries_eq, Cache.fresh?]

theorem Mirrors.step (h : Mirrors t s) (huniform : t.dated.Uniform s.cache.keeps now)
    (event : Event) :
  Mirrors (step t (now, event)) (s.step event)
  := by
  cases event with
  | ask field =>
    have hfresh := h.fresh?_eq huniform field
    refine ⟨h.source_eq, ?_, ?_⟩
    · simp only [Dated.step, Cache.Session.step, Call.notes, call_eq, Cache.call_eq, hfresh,
        h.source_eq, h.notes_eq]
      cases s.cache.fresh? field <;> simp
    · intro other
      change ((t.dated.call now field t.source).cache.entries.get? other).map Prod.snd
        = (s.cache.call field s.source).cache.entries.get? other
      rw [call_eq, Cache.call_eq, hfresh, h.source_eq]
      cases s.cache.fresh? field with
      | some values => exact h.entries_eq other
      | none =>
        cases hsource : s.source field with
        | ok values =>
          rw [Call.of_ok hsource, Call.of_ok hsource, Table.get?_insert, Table.get?_insert]
          split
          · rfl
          · exact h.entries_eq other
        | error e =>
          rw [Call.of_error hsource, Call.of_error hsource]
          exact h.entries_eq other
  | clear =>
    refine ⟨h.source_eq, ?_, fun _ => rfl⟩
    simp only [Dated.step, Cache.Session.step, h.notes_eq]
  | change source => exact ⟨rfl, h.notes_eq, h.entries_eq⟩

theorem Mirrors.run (h : Mirrors t s) {events : List (Nat × Event)}
    (huniform : Throughout s.cache.keeps t events) :
  Mirrors (run t events) (s.run (events.map Prod.snd))
  := by
  induction events generalizing t s with
  | nil => exact h
  | cons event events ih =>
    apply ih (h.step huniform.1 event.2)
    rw [s.keeps_step]
    exact huniform.2

theorem mirrors_start (lifetime : Nat) (keeps : Bool) (source : ValueSource) :
  Mirrors (start lifetime source) (Cache.Session.start keeps source)
  := ⟨rfl, rfl, fun _ => rfl⟩

/-! ### When entries are up to date -/

theorem throughout_concat {keeps : Bool} {events : List (Nat × Event)} {event : Event} :
  Throughout keeps t (events ++ [(now, event)])
    ↔ Throughout keeps t events ∧ (run t events).dated.Uniform keeps now
  := by
  induction events generalizing t with
  | nil => simp [Throughout, run]
  | cons first rest ih => rw [List.cons_append, Throughout, ih, Throughout, and_assoc]; rfl

theorem lifetime_step (t : Session) (event : Nat × Event) :
  (step t event).dated.lifetime = t.dated.lifetime
  := by
  obtain ⟨now, field | _ | _⟩ := event
  · change (t.dated.call now field t.source).cache.lifetime = t.dated.lifetime
    rw [call_eq]
    apply Call.map_cache_of Dated.lifetime
    exact fun _ => rfl
  · rfl
  · rfl

/-- The entries of a cache that keeps nothing for any time are out of date at once. -/
theorem throughout_of_lifetime_eq_zero (hlifetime : t.dated.lifetime = 0)
    (events : List (Nat × Event)) :
  Throughout false t events
  := by
  induction events generalizing t with
  | nil => trivial
  | cons event events ih =>
    refine ⟨?_, ih ((lifetime_step t event).trans hlifetime)⟩
    intro field
    rw [fresh?]
    split <;> simp [hlifetime]

/-- No entry is out of date as long as everything happens before the first could be. -/
theorem throughout_of_lt {events : List (Nat × Event)}
    (h : ∀ event ∈ events, event.1 < t.dated.lifetime) :
  Throughout true t events
  := by
  induction events generalizing t with
  | nil => trivial
  | cons event events ih =>
    rw [List.forall_mem_cons] at h
    constructor
    · intro field
      rw [fresh?]
      cases t.dated.entries.get? field with
      | none => rfl
      | some entry =>
        have hfresh : event.1 - entry.1 < t.dated.lifetime :=
          Nat.lt_of_le_of_lt (Nat.sub_le event.1 entry.1) h.1
        simp [hfresh]
    · apply ih
      rw [lifetime_step]
      exact h.2

end Dated

/-! ### Both kinds of runs -/

/-- Whatever has happened to a cache that keeps its entries, the notes tell all about the next call:
when the source is asked, and what is answered. A cache that keeps nothing asks the source each
time, and answers the same. With a clock the first holds as long as no entry is ever out of date, and
the second if the entries are so at once; all along the cache holds what one without a clock does. -/
theorem run_answers (source : ValueSource) (events : List (Nat × Event)) (now : Nat)
    (field : String) :
  let kept := (Session.start true source).run (events.map Prod.snd)
  let renewed := (Session.start false source).run (events.map Prod.snd)
  Answers kept.notes kept.source field kept.cache (kept.cache.call field)
    ∧ (kept.cache.misses field = true ↔ (kept.cache.call field kept.source).asked = [field])
    ∧ AsksAnew renewed.source field (renewed.cache.call field)
    ∧ (∀ lifetime, Dated.Throughout true (Dated.start lifetime source)
          (events ++ [(now, .ask field)]) →
        let t := Dated.run (Dated.start lifetime source) events
        Dated.Mirrors t kept
          ∧ Answers t.notes t.source field t.dated (t.dated.call now field))
    ∧ let t := Dated.run (Dated.start 0 source) events
      Dated.Mirrors t renewed ∧ AsksAnew t.source field (t.dated.call now field)
  := by
  intro kept renewed
  have hkeeps : kept.cache.keeps = true := Session.keeps_run _ _
  have hrenews : renewed.cache.keeps = false := Session.keeps_run _ _
  have hnoted : kept.Noted := (Session.noted_start true source).run _
  have hfresh (values : List String) :
      kept.cache.fresh? field = some values ↔ IsLatest kept.notes field values := by
    rw [fresh?, if_pos hkeeps]
    exact hnoted field values
  have hstale : renewed.cache.fresh? field = none := by simp [fresh?, hrenews]
  refine ⟨?_, misses_iff_asked, ?_, ?_, ?_⟩
  · rw [call_eq]
    exact answers_of hfresh kept.source
  · rw [call_eq, hstale]
    exact asksAnew_of renewed.source
  · intro lifetime hthroughout t
    obtain ⟨hthroughout, huniform⟩ := Dated.throughout_concat.mp hthroughout
    have hmirrors : Dated.Mirrors t kept := (Dated.mirrors_start lifetime true source).run hthroughout
    refine ⟨hmirrors, ?_⟩
    rw [Dated.call_eq, hmirrors.notes_eq]
    apply answers_of
    rw [hmirrors.fresh?_eq (by rw [hkeeps]; exact huniform)]
    exact hfresh
  · intro t
    obtain ⟨hthroughout, huniform⟩ := Dated.throughout_concat.mp
      (Dated.throughout_of_lifetime_eq_zero (t := Dated.start 0 source) rfl
        (events ++ [(now, .ask field)]))
    have hmirrors : Dated.Mirrors t renewed :=
      (Dated.mirrors_start 0 false source).run hthroughout
    refine ⟨hmirrors, ?_⟩
    rw [Dated.call_eq, hmirrors.fresh?_eq (by rw [hrenews]; exact huniform), hstale]
    apply asksAnew_of

/-- A cache with a clock gives the values that it has fetched, although the source has others by
now. -/
theorem run_answers_city :
  let events := [(0, .ask "city"), (5, .change fun _ => .ok ["Rome"])]
  let t := Dated.run (Dated.start 30 fun _ => .ok ["Paris"]) events
  Dated.Throughout true (Dated.start 30 fun _ => .ok ["Paris"]) (events ++ [(9, .ask "city")])
    ∧ Answers t.notes t.source "city" t.dated (t.dated.call 9 "city")
    ∧ (t.dated.call 9 "city" t.source).answer = .ok ["Paris"]
  := by
  intro events t
  have hthroughout : Dated.Throughout true (Dated.start 30 fun _ => .ok ["Paris"])
      (events ++ [(9, .ask "city")]) := by
    apply Dated.throughout_of_lt
    simp [events, Dated.start]
  obtain ⟨-, -, -, hclock, -⟩ := run_answers (fun _ => .ok ["Paris"]) events 9 "city"
  exact ⟨hthroughout, (hclock 30 hthroughout).2, rfl⟩

end Cache

end Sift
