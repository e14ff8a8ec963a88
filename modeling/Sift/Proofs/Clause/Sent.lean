import Mathlib.Data.List.Forall2
import Sift.Clause.Basic

/-!
# Clauses as they are sent

What a document tells of the clause that is sent as it. A null stands in it exactly if a number of
the clause is infinite (`Clause.hasNull_toData_iff`). If there is none, it tells everything:
`Clause.same_toData_iff` is the result that clauses are sent as the same document exactly if they
are equal, up to the sign of zero. Documents are compared as JSON, where the order of the entries of
a record does not matter.
-/

namespace Sift

/-! ### Clauses -/

/-- What holds of all clauses without parts, and of a Boolean clause if it holds of its parts, holds
of every clause. -/
@[elab_as_elim, induction_eliminator]
theorem Clause.clauseInduction {motive : Clause → Prop}
    (term : ∀ field value, motive (.term field value))
    (terms : ∀ field values, motive (.terms field values))
    (bool : ∀ must mustNot should, (∀ clause ∈ must, motive clause) →
      (∀ clause ∈ mustNot, motive clause) → (∀ clause ∈ should, motive clause) →
      motive (.bool must mustNot should))
    (range : ∀ field bound value, motive (.range field bound value))
    (regexp : ∀ field pattern, motive (.regexp field pattern))
    (queryString : ∀ fields query, motive (.queryString fields query))
    (hasField : ∀ field, motive (.hasField field))
    (matchNone : motive .matchNone) (matchAll : motive .matchAll) :
    ∀ clause, motive clause
  | .term field value => term field value
  | .terms field values => terms field values
  | .bool must mustNot should =>
    bool must mustNot should
      (fun clause _ => clauseInduction term terms bool range regexp queryString hasField matchNone
        matchAll clause)
      (fun clause _ => clauseInduction term terms bool range regexp queryString hasField matchNone
        matchAll clause)
      (fun clause _ => clauseInduction term terms bool range regexp queryString hasField matchNone
        matchAll clause)
  | .range field bound value => range field bound value
  | .regexp field pattern => regexp field pattern
  | .queryString fields query => queryString fields query
  | .hasField field => hasField field
  | .matchNone => matchNone
  | .matchAll => matchAll

/-- The number that a term is, if it is one. -/
def Term.numbers : Term → List Number
  | number x => [x]
  | _ => []

/-- The term, where zero has lost its sign. -/
def Term.unsignZero : Term → Term
  | number x => number x.unsignZero
  | t => t

namespace Clause

mutual

/-- The numbers in a clause. -/
def numbers : Clause → List Number
  | term _ value => value.numbers
  | terms _ values => values.flatMap Term.numbers
  | bool must mustNot should =>
    numbersOfAll must ++ numbersOfAll mustNot ++ numbersOfAll should
  | range _ _ value => value.numbers
  | _ => []

/-- The numbers in some clauses, those of one clause after those of the other. -/
def numbersOfAll : List Clause → List Number
  | [] => []
  | clause :: rest => clause.numbers ++ numbersOfAll rest

end

mutual

/-- The clause in which every zero has lost its sign. -/
def unsignZeros : Clause → Clause
  | term field value => term field value.unsignZero
  | terms field values => terms field (values.map Term.unsignZero)
  | bool must mustNot should => bool (unsignAll must) (unsignAll mustNot) (unsignAll should)
  | range field bound value => range field bound value.unsignZero
  | clause => clause

/-- The clauses in which every zero has lost its sign. -/
def unsignAll : List Clause → List Clause
  | [] => []
  | clause :: rest => clause.unsignZeros :: unsignAll rest

end

/-- Whether two clauses are equal up to the sign of zero. -/
def Agrees (c d : Clause) : Prop :=
  c.unsignZeros = d.unsignZeros

@[simp]
theorem numbersOfAll_eq_flatMap (clauses : List Clause) :
  numbersOfAll clauses = clauses.flatMap numbers
  := by
  induction clauses with
  | nil => rfl
  | cons _ _ ih => rw [numbersOfAll, ih, List.flatMap_cons]

@[simp]
theorem unsignAll_eq_map (clauses : List Clause) :
  unsignAll clauses = clauses.map unsignZeros
  := by
  induction clauses with
  | nil => rfl
  | cons _ _ ih => rw [unsignAll, ih, List.map_cons]

@[simp]
theorem allToData_eq_map (clauses : List Clause) :
  allToData clauses = clauses.map toData
  := by
  induction clauses with
  | nil => rfl
  | cons _ _ ih => rw [allToData, ih, List.map_cons]

/-- The entries of the document of a Boolean clause. -/
def parts (must mustNot should : List Data) : List (String × Data) :=
  listEntry "must" must ++ listEntry "must_not" mustNot ++ listEntry "should" should
    ++ if should.isEmpty then [] else [("minimum_should_match", .int 1)]

theorem toData_bool (must mustNot should : List Clause) :
  (bool must mustNot should).toData
    = entry "bool" (.record
      (parts (must.map toData) (mustNot.map toData) (should.map toData)))
  := by
  simp only [toData, allToData_eq_map, parts, List.isEmpty_map]

theorem mem_listEntry {key k : String} {items : List Data} {d : Data} :
  (k, d) ∈ listEntry key items ↔ items ≠ [] ∧ k = key ∧ d = .list items
  := by
  cases items <;> simp [listEntry]

theorem mem_parts {must mustNot should : List Data} {key : String} {d : Data} :
  (key, d) ∈ parts must mustNot should
    ↔ (must ≠ [] ∧ key = "must" ∧ d = .list must)
      ∨ (mustNot ≠ [] ∧ key = "must_not" ∧ d = .list mustNot)
      ∨ (should ≠ [] ∧ key = "should" ∧ d = .list should)
      ∨ (should ≠ [] ∧ key = "minimum_should_match" ∧ d = .int 1)
  := by
  simp only [parts, List.mem_append, mem_listEntry]
  cases should with
  | nil => simp
  | cons => simp [or_assoc]

end Clause

/-! ### Nulls -/

namespace Data

mutual

/-- Whether a null stands anywhere in a document. -/
def hasNull : Data → Bool
  | null => true
  | list items => hasNullItems items
  | record entries => hasNullEntries entries
  | tagged _ d => d.hasNull
  | _ => false

/-- Whether a null stands in one of some items. -/
def hasNullItems : List Data → Bool
  | [] => false
  | item :: rest => item.hasNull || hasNullItems rest

/-- Whether a null stands in one of some entries. -/
def hasNullEntries : List (String × Data) → Bool
  | [] => false
  | (_, d) :: rest => d.hasNull || hasNullEntries rest

end

@[simp]
theorem hasNullItems_eq_any (items : List Data) :
  hasNullItems items = items.any hasNull
  := by
  induction items with
  | nil => rfl
  | cons _ _ ih => rw [hasNullItems, ih, List.any_cons]

@[simp]
theorem hasNullEntries_eq_any (entries : List (String × Data)) :
  hasNullEntries entries = entries.any (·.2.hasNull)
  := by
  induction entries with
  | nil => rfl
  | cons entry rest ih =>
    obtain ⟨key, d⟩ := entry
    rw [hasNullEntries, ih, List.any_cons]

end Data

namespace Clause

@[simp]
theorem hasNull_entry (key : String) (d : Data) :
  (entry key d).hasNull = d.hasNull
  := by
  simp [entry, Data.hasNull]

@[simp]
theorem hasNull_termData_iff (value : Term) :
  (termData value).hasNull = true ↔ ∃ x ∈ value.numbers, x.isFinite = false
  := by
  cases value with
  | string | bool => simp [termData, Data.hasNull, Term.numbers]
  | number x =>
    rw [termData, Data.ofNumber]
    cases hx : x.isFinite <;> simp [Data.hasNull, Term.numbers, hx]

theorem any_listEntry (key : String) (items : List Data) :
  (listEntry key items).any (·.2.hasNull) = items.any Data.hasNull
  := by
  cases items <;> simp [listEntry, Data.hasNull]

theorem hasNull_parts (must mustNot should : List Data) :
  (Data.record (parts must mustNot should)).hasNull
    = (must ++ mustNot ++ should).any Data.hasNull
  := by
  rw [Data.hasNull, Data.hasNullEntries_eq_any, parts, List.any_append, List.any_append,
    List.any_append, any_listEntry, any_listEntry, any_listEntry, List.any_append, List.any_append]
  cases should <;> simp [Data.hasNull]

/-- A null stands in the document of a clause exactly if the clause has an infinite number. -/
theorem hasNull_toData_iff (clause : Clause) :
  clause.toData.hasNull = true ↔ ∃ x ∈ clause.numbers, x.isFinite = false
  := by
  induction clause with
  | term field value => simp [toData, numbers]
  | terms field values =>
    simp only [toData, hasNull_entry, Data.hasNull, Data.hasNullItems_eq_any, List.any_map,
      List.any_eq_true, Function.comp_apply, hasNull_termData_iff, numbers, List.mem_flatMap]
    grind
  | bool must mustNot should ihMust ihMustNot ihShould =>
    have ih : ∀ c ∈ must ++ mustNot ++ should,
        c.toData.hasNull = true ↔ ∃ x ∈ c.numbers, x.isFinite = false := by
      simp only [List.forall_mem_append]
      exact ⟨⟨ihMust, ihMustNot⟩, ihShould⟩
    rw [toData_bool, hasNull_entry, hasNull_parts, ← List.map_append, ← List.map_append]
    simp only [numbers, numbersOfAll_eq_flatMap, ← List.flatMap_append, List.any_map,
      List.any_eq_true, Function.comp_apply, List.mem_flatMap]
    grind
  | range field bound value => simp [toData, numbers]
  | regexp | queryString | hasField | matchNone | matchAll =>
    simp [toData, numbers, Data.hasNull]

end Clause

/-! ### Equal documents -/

/-- Whether two documents are equal as JSON: numbers up to the sign of zero, and records if they
have the same keys, with equal values under each of them. -/
inductive Data.Same : Data → Data → Prop where
  | null : Same null null
  | bool (b : Bool) : Same (bool b) (bool b)
  | int (n : Int) : Same (int n) (int n)
  | number {x y : Number} (h : x.unsignZero = y.unsignZero) : Same (number x) (number y)
  | text (s : String) : Same (text s) (text s)
  | list {items others : List Data} (h : List.Forall₂ Same items others) :
    Same (list items) (list others)
  | record {entries others : List (String × Data)}
    (keys : ∀ key, key ∈ entries.map Prod.fst ↔ key ∈ others.map Prod.fst)
    (values : ∀ key d e, (key, d) ∈ entries → (key, e) ∈ others → Same d e) :
    Same (record entries) (record others)

namespace Data

@[simp]
theorem same_text_iff {s t : String} :
  Same (text s) (text t) ↔ s = t
  := by
  constructor
  · rintro ⟨⟩
    rfl
  · rintro rfl
    exact .text s

@[simp]
theorem same_number_iff {x y : Number} :
  Same (number x) (number y) ↔ x.unsignZero = y.unsignZero
  := by
  constructor
  · rintro ⟨⟩
    assumption
  · exact .number

@[simp]
theorem same_bool_iff {b b' : Bool} :
  Same (bool b) (bool b') ↔ b = b'
  := by
  constructor
  · rintro ⟨⟩
    rfl
  · rintro rfl
    exact .bool b

@[simp]
theorem same_list_iff {items others : List Data} :
  Same (list items) (list others) ↔ List.Forall₂ Same items others
  := by
  constructor
  · rintro ⟨⟩
    assumption
  · exact .list

@[simp]
theorem same_record_nil :
  Same (record []) (record [])
  := by
  apply Same.record
  · exact fun _ => Iff.rfl
  · rintro _ _ _ ⟨⟩

@[simp]
theorem same_entry_iff {key other : String} {d e : Data} :
  Same (Clause.entry key d) (Clause.entry other e) ↔ key = other ∧ Same d e
  := by
  constructor
  · intro h
    rw [Clause.entry, Clause.entry] at h
    cases h with
    | record keys values =>
      have hkey : key = other := by simpa using keys key
      subst hkey
      exact ⟨rfl, values key d e (by simp) (by simp)⟩
  · rintro ⟨rfl, h⟩
    apply Same.record
    · simp
    · simp only [List.mem_singleton, Prod.mk.injEq]
      rintro _ _ _ ⟨rfl, rfl⟩ ⟨-, rfl⟩
      exact h

/-- Two lists are sent as equal ones if this is so item by item. -/
theorem forall₂_same_iff {α β : Type} {f : α → Data} {g : α → β} {items others : List α}
    (h : ∀ a ∈ items, ∀ b ∈ others, Same (f a) (f b) ↔ g a = g b) :
  List.Forall₂ Same (items.map f) (others.map f) ↔ items.map g = others.map g
  := by
  induction items generalizing others with
  | nil => cases others <;> simp
  | cons a items ih =>
    cases others with
    | nil => simp
    | cons b others =>
      rw [List.map_cons, List.map_cons, List.forall₂_cons, List.map_cons, List.map_cons,
        List.cons.injEq, h a (by simp) b (by simp),
        ih fun c hc d hd => h c (by simp [hc]) d (by simp [hd])]

/-- Where numbers have to be finite, it is enough that those in the lists are. -/
theorem forall₂_same_iff_of_finite {α β : Type} {f : α → Data} {g : α → β}
    {numbers : α → List Number} {items others : List α}
    (h : ∀ a ∈ items, ∀ {b}, (∀ x ∈ numbers a, x.isFinite = true) →
      (∀ x ∈ numbers b, x.isFinite = true) → (Same (f a) (f b) ↔ g a = g b))
    (hitems : ∀ x ∈ items.flatMap numbers, x.isFinite = true)
    (hothers : ∀ x ∈ others.flatMap numbers, x.isFinite = true) :
  List.Forall₂ Same (items.map f) (others.map f) ↔ items.map g = others.map g
  := by
  apply forall₂_same_iff
  intro a ha b hb
  apply h a ha
  · exact fun x hx => hitems x (List.mem_flatMap.mpr ⟨a, ha, hx⟩)
  · exact fun x hx => hothers x (List.mem_flatMap.mpr ⟨b, hb, hx⟩)

/-- Under a key that is left out for an empty list, equal records have lists of equal items. -/
theorem forall₂_same_of_part {entries others : List (String × Data)} (key : String)
    {items items' : List Data} (hitems : ∀ d, (key, d) ∈ entries ↔ items ≠ [] ∧ d = .list items)
    (hitems' : ∀ d, (key, d) ∈ others ↔ items' ≠ [] ∧ d = .list items')
    (h : Same (record entries) (record others)) :
  List.Forall₂ Same items items'
  := by
  cases h with
  | record keys values =>
    have hempty : items = [] ↔ items' = [] := by
      have := keys key
      simp only [List.mem_map, Prod.exists, exists_and_right, exists_eq_right, hitems,
        hitems'] at this
      grind
    by_cases hne : items = []
    · rw [hne, hempty.mp hne]
      exact .nil
    · have hne' := mt hempty.mpr hne
      exact same_list_iff.mp
        (values key _ _ ((hitems _).mpr ⟨hne, rfl⟩) ((hitems' _).mpr ⟨hne', rfl⟩))

end Data

namespace Clause

open Data

/-- The parts of a Boolean clause can be told from its entries. -/
theorem same_parts_iff {must must' mustNot mustNot' should should' : List Data} :
  Same (.record (parts must mustNot should)) (.record (parts must' mustNot' should'))
    ↔ List.Forall₂ Same must must' ∧ List.Forall₂ Same mustNot mustNot'
      ∧ List.Forall₂ Same should should'
  := by
  constructor
  · intro h
    refine ⟨forall₂_same_of_part "must" ?_ ?_ h, forall₂_same_of_part "must_not" ?_ ?_ h,
      forall₂_same_of_part "should" ?_ ?_ h⟩
    all_goals
      intro d
      simp [mem_parts]
  · rintro ⟨hmust, hmustNot, hshould⟩
    have hempty {items others : List Data} (h : List.Forall₂ Same items others) :
        items = [] ↔ others = [] := by
      cases h <;> simp
    apply Same.record
    · intro key
      simp only [List.mem_map, Prod.exists, exists_and_right, exists_eq_right, mem_parts, ne_eq,
        hempty hmust, hempty hmustNot, hempty hshould, exists_or, exists_and_left]
    · intro key d e hd he
      rw [mem_parts] at hd he
      -- The four keys are different, so it is the same part on either side.
      obtain ⟨-, rfl, rfl⟩ | ⟨-, rfl, rfl⟩ | ⟨-, rfl, rfl⟩ | ⟨-, rfl, rfl⟩ := hd
      · obtain ⟨-, rfl⟩ : _ ∧ e = .list must' := by simpa using he
        exact .list hmust
      · obtain ⟨-, rfl⟩ : _ ∧ e = .list mustNot' := by simpa using he
        exact .list hmustNot
      · obtain ⟨-, rfl⟩ : _ ∧ e = .list should' := by simpa using he
        exact .list hshould
      · obtain ⟨-, rfl⟩ : _ ∧ e = .int 1 := by simpa using he
        exact .int 1

@[simp]
theorem same_queryString_iff {fields fields' : List String} {query query' : String} :
  Same (.record [("query", .text query), ("fields", .list (fields.map .text))])
      (.record [("query", .text query'), ("fields", .list (fields'.map .text))])
    ↔ fields = fields' ∧ query = query'
  := by
  have hfields : List.Forall₂ Same (fields.map .text) (fields'.map .text) ↔ fields = fields' := by
    have : List.Forall₂ Same (fields.map .text) (fields'.map .text)
        ↔ fields.map id = fields'.map id := forall₂_same_iff fun _ _ _ _ => same_text_iff
    rwa [List.map_id, List.map_id] at this
  constructor
  · intro h
    cases h with
    | record _ values =>
      have hquery := values "query" (.text query) (.text query') (by simp) (by simp)
      have hlist := values "fields" (.list (fields.map .text)) (.list (fields'.map .text)) (by simp)
        (by simp)
      exact ⟨hfields.mp (same_list_iff.mp hlist), same_text_iff.mp hquery⟩
  · rintro ⟨rfl, rfl⟩
    apply Same.record
    · exact fun _ => Iff.rfl
    · intro key d e hd he
      obtain ⟨rfl, rfl⟩ | ⟨rfl, rfl⟩ : (key = "query" ∧ d = .text query)
          ∨ (key = "fields" ∧ d = .list (fields.map .text)) := by simpa using hd
      · obtain rfl : e = .text query := by simpa using he
        exact .text query
      · obtain rfl : e = .list (fields.map .text) := by simpa using he
        exact .list (hfields.mpr rfl)

theorem same_termData_iff {v w : Term} (hv : ∀ x ∈ v.numbers, x.isFinite = true)
    (hw : ∀ x ∈ w.numbers, x.isFinite = true) :
  Same (termData v) (termData w) ↔ v.unsignZero = w.unsignZero
  := by
  -- No term becomes a null.
  have hsent {v : Term} (hv : ∀ x ∈ v.numbers, x.isFinite = true) : termData v = match v with
      | .string s => .text s
      | .number x => .number x
      | .bool b => .bool b := by
    cases v with
    | number x => exact if_pos (hv x (List.mem_singleton.mpr rfl))
    | string | bool => rfl
  rw [hsent hv, hsent hw]
  cases v with
  | string s =>
    cases w with
    | string t => simp [Term.unsignZero]
    | number | bool => constructor <;> rintro ⟨⟩
  | number x =>
    cases w with
    | number y => simp [Term.unsignZero]
    | string | bool => constructor <;> rintro ⟨⟩
  | bool b =>
    cases w with
    | bool b' => simp [Term.unsignZero]
    | string | number => constructor <;> rintro ⟨⟩

/-- Clauses of finite numbers are sent as equal documents exactly if they are equal. -/
theorem same_toData_iff {c d : Clause} (hc : ∀ x ∈ c.numbers, x.isFinite = true)
    (hd : ∀ x ∈ d.numbers, x.isFinite = true) :
  Same c.toData d.toData ↔ c.Agrees d
  := by
  rw [Agrees]
  induction c generalizing d with
  | term field value =>
    cases d with
    | term => simp [toData, unsignZeros, same_termData_iff hc hd]
    | _ => simp [toData, unsignZeros]
  | terms field values =>
    cases d with
    | terms field' values' =>
      have hvalues : List.Forall₂ Same (values.map termData) (values'.map termData)
          ↔ values.map Term.unsignZero = values'.map Term.unsignZero :=
        forall₂_same_iff_of_finite (fun _ _ _ => same_termData_iff) hc hd
      simp [toData, unsignZeros, hvalues]
    | _ => simp [toData, unsignZeros]
  | bool must mustNot should ihMust ihMustNot ihShould =>
    cases d with
    | bool must' mustNot' should' =>
      simp only [numbers, numbersOfAll_eq_flatMap, List.forall_mem_append] at hc hd
      simp [toData_bool, unsignZeros, same_parts_iff,
        forall₂_same_iff_of_finite ihMust hc.1.1 hd.1.1,
        forall₂_same_iff_of_finite ihMustNot hc.1.2 hd.1.2,
        forall₂_same_iff_of_finite ihShould hc.2 hd.2]
    | _ => simp [toData, unsignZeros]
  | range field bound value =>
    cases d with
    | range field' bound' value' =>
      have hbound : bound.name = bound'.name ↔ bound = bound' := by
        cases bound <;> cases bound' <;> decide
      simp [toData, unsignZeros, same_termData_iff hc hd, hbound]
    | _ => simp [toData, unsignZeros]
  | regexp | queryString | hasField | matchNone | matchAll =>
    cases d <;> simp [toData, unsignZeros]

/-- A field may be called as a part is, and zero may have a sign. Where an empty clause stands, as a
part that has to hold or as one that must not, makes a difference. -/
theorem same_toData_iff_emptyParts :
  Same (bool [term "must" (.number ⟨false, 0, Nat.zero_le _⟩)] [bool [] [] []] []).toData
      (bool [term "must" (.number ⟨true, 0, Nat.zero_le _⟩)] [bool [] [] []] []).toData
    ∧ ¬Same (bool [matchAll] [bool [] [] []] []).toData
      (bool [matchAll, bool [] [] []] [] []).toData
  := by
  constructor
  · refine (same_toData_iff ?_ ?_).mpr rfl
    · decide
    · decide
  · refine mt (same_toData_iff ?_ ?_).mp ?_
    · decide
    · decide
    · simp [Agrees, unsignZeros]

end Clause

end Sift
