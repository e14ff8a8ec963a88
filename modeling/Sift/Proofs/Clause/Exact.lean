import Sift.Proofs.Clause.Lookups

/-!
# Tests for exact values

A test of a field for some exact values holds exactly if one of the tests for a single value does:
`Compiler.holds_exact` tells the value of its clause by tests for single terms, whatever the number
of values, of stored spellings and of fields on which the test is made. So on a document that has
stored values in its keyword fields, the clause of a string field tells whether one of these is
among the wanted texts up to case (`Compiler.compile_isIn`).
-/

namespace Sift

/-! ### Leaves that are tests for terms -/

namespace Clause

/-- Whether a test for one of some terms holds exactly if a test for one of them alone does. -/
def PicksTerms (leaves : Clause → Bool) : Prop :=
  ∀ field values, leaves (.terms field values) = values.any fun value => leaves (.term field value)

/-- Whether tests for terms are told by the terms that a document has in its fields. -/
structure ReadsTerms (document : String → Term) (leaves : Clause → Bool) : Prop where
  term : ∀ field value, leaves (.term field value) = decide (document field = value)
  terms : ∀ field values, leaves (.terms field values) = values.contains (document field)

variable {leaves : Clause → Bool}

theorem ReadsTerms.picksTerms {document : String → Term} (h : ReadsTerms document leaves) :
  PicksTerms leaves
  := by
  intro field values
  rw [h.terms, List.contains_eq_any_beq]
  simp only [h.term]
  rfl

/-- The leaves that hold of a document by the terms in its fields. -/
def leavesOf (document : String → Term) : Clause → Bool
  | .term field value => document field = value
  | .terms field values => values.contains (document field)
  | _ => false

theorem readsTerms_leavesOf (document : String → Term) :
  ReadsTerms document (leavesOf document)
  := ⟨fun _ _ => rfl, fun _ _ => rfl⟩

/-- Some of some clauses, of which there is at least one. -/
theorem holds_anyOf {clauses : List Clause} (h : clauses ≠ []) :
  (anyOf clauses).holds leaves = clauses.any (holds leaves)
  := by
  match clauses with
  | [only] => simp [anyOf]
  | first :: second :: rest => simp [anyOf, any, holds]

end Clause

open Clause

/-- Complementary operators have the same positive one, which is one of the two. -/
theorem Operator.negated?_inv {operator flipped : Operator} (h : operator.negated? = some flipped) :
  flipped.positive = operator.positive ∧ flipped.isNegative = !operator.isNegative
    ∧ flipped.isRange = false
  := by
  cases operator <;> cases h <;> exact ⟨rfl, rfl, rfl⟩

namespace Compiler

variable (compiler : Compiler) {leaves : Clause → Bool}

/-! ### Clauses of exact values -/

theorem targets_ne_nil (field : Field) :
  compiler.targets field ≠ []
  := by
  rw [targets]
  split
  case isTrue h =>
    rw [Bool.and_eq_true, Bool.not_eq_true', List.isEmpty_eq_false_iff] at h
    exact h.2
  case isFalse => simp

/-- The values that the source gives for a field, none if it fails. -/
def stored (field : String) : List String :=
  (compiler.source field).toOption.getD []

/-- The texts among some values in lower case. -/
def wantedTexts (values : List Value) : List String :=
  (values.filterMap Value.string?).map Text.lowercase

/-- Whether a test for some exact values holds, told by the tests for single terms. -/
def exactHolds (leaves : Clause → Bool) (field : Field) (values : List Value) : Bool :=
  if field.type = .string then
    (compiler.targets field).any fun target =>
      (compiler.stored (compiler.keyword target)).any fun value =>
        (wantedTexts values).contains (Text.lowercase value)
          && leaves (.term (compiler.keyword target) (.string value))
  else (values.filterMap Value.toTerm?).any fun value => leaves (.term field.name value)

/-- A test for one of some terms holds as its single tests do. -/
theorem holds_oneOf (hleaves : PicksTerms leaves) (field : String) (terms : List Term) :
  (oneOf field terms).holds leaves = terms.any fun value => leaves (.term field value)
  := by
  match terms with
  | [only] => simp [oneOf, holds]
  | [] => exact hleaves field []
  | first :: second :: rest => exact hleaves field (first :: second :: rest)

theorem holds_reconciled (hleaves : PicksTerms leaves) (field : String)
    (stored wanted : List String) :
  (reconciled field stored wanted).holds leaves = stored.any fun value =>
    wanted.contains (Text.lowercase value) && leaves (.term field (.string value))
  := by
  rw [← List.any_filter, reconciled]
  generalize stored.filter (fun value => wanted.contains (Text.lowercase value)) = matched
  cases matched with
  | nil => rfl
  | cons first rest =>
    apply (holds_oneOf hleaves field _).trans
    rw [List.any_map]
    rfl

/-- A test of a string field for exact values needs an answer for each field on which it is
made. -/
theorem answered_of_directExact {field : Field} {values : List Value} {clause : Clause}
    (hstring : field.type = .string) (h : compiler.directExact field values = .ok clause) :
  ∀ target ∈ compiler.targets field, ∃ found, compiler.source (compiler.keyword target) = .ok found
  := by
  rw [directExact, if_pos hstring] at h
  obtain ⟨clauses, hclauses, -⟩ := bind_eq_ok_iff.mp h
  intro target htarget
  obtain ⟨part, hpart⟩ := exists_of_mapM_eq_ok hclauses target htarget
  obtain ⟨found, hfound, -⟩ := bind_eq_ok_iff.mp hpart
  cases hsource : compiler.source (compiler.keyword target) with
  | error e =>
    rw [hsource] at hfound
    cases hfound
  | ok found => exact ⟨found, rfl⟩

/-- If these are answered, the clause has one part for each of the fields. -/
theorem directExact_of_answered {field : Field} (values : List Value)
    (hstring : field.type = .string)
    (h : ∀ target ∈ compiler.targets field,
      ∃ found, compiler.source (compiler.keyword target) = .ok found) :
  compiler.directExact field values = .ok (anyOf ((compiler.targets field).map fun target =>
    reconciled (compiler.keyword target) (compiler.stored (compiler.keyword target))
      (wantedTexts values)))
  := by
  rw [directExact, if_pos hstring, bind_eq_ok_iff]
  refine ⟨_, mapM_eq_ok_of_forall₂ (List.forall₂_map_right_iff.mpr (List.forall₂_same.mpr ?_)), rfl⟩
  intro target htarget
  obtain ⟨found, hfound⟩ := h target htarget
  rw [stored, hfound]
  rfl

theorem directExact_inv {field : Field} {values : List Value} {clause : Clause}
    (hstring : field.type = .string) (h : compiler.directExact field values = .ok clause) :
  clause = anyOf ((compiler.targets field).map fun target =>
    reconciled (compiler.keyword target) (compiler.stored (compiler.keyword target))
      (wantedTexts values))
  := by
  have hparts := compiler.directExact_of_answered values hstring
    (compiler.answered_of_directExact hstring h)
  exact Except.ok.inj (h.symm.trans hparts)

/-- The clause of a test for exact values holds as the tests for single terms say. -/
theorem holds_exact (hleaves : PicksTerms leaves) {field : Field} {values : List Value}
    {clause : Clause} (h : compiler.directExact field values = .ok clause) :
  clause.holds leaves = compiler.exactHolds leaves field values
  := by
  rw [exactHolds]
  split
  case isTrue hstring =>
    rw [compiler.directExact_inv hstring h, holds_anyOf, List.any_map]
    · simp only [Function.comp_def, holds_reconciled hleaves]
    · simpa using compiler.targets_ne_nil field
  case isFalse hother =>
    rw [directExact, if_neg hother] at h
    cases h
    apply holds_oneOf hleaves

/-- A test for some values holds exactly if the test for one of them does. -/
theorem exactHolds_eq_any (leaves : Clause → Bool) (field : Field) (values : List Value) :
  compiler.exactHolds leaves field values
    = values.any fun value => compiler.exactHolds leaves field [value]
  := by
  by_cases hstring : field.type = .string
  case pos =>
    rw [Bool.eq_iff_iff]
    simp only [exactHolds, if_pos hstring, wantedTexts, List.any_eq_true, Bool.and_eq_true,
      List.contains_iff_mem, List.mem_map, List.mem_filterMap, List.mem_singleton]
    grind
  case neg =>
    rw [Bool.eq_iff_iff]
    simp only [exactHolds, if_neg hstring, List.any_eq_true, List.mem_filterMap,
      List.mem_singleton]
    grind

/-! ### Rules -/

/-- The clause of a rule that is compiled is made without remembering any answers. -/
theorem directRule_of_compile {x : Rule} {clause : Clause}
    (h : (compiler.compile (.ofRule x)).1 = .ok clause) :
  compiler.directRule x = .ok clause
  := by
  exact (compiler.compile_inv h).2.2

/-- The clause of a rule that sets no bound is its positive clause, complemented as its operator and
value say. -/
theorem directRule_inv {x : Rule} {clause : Clause} (hbound : Bound.ofOperator? x.operator = none)
    (h : compiler.directRule x = .ok clause) :
  ∃ field positive, compiler.schema.field? x.field = some field
    ∧ compiler.directPositive field x = .ok positive
    ∧ clause = positive.notIf (x.operator.isNegative != isDenial x)
  := by
  rw [directRule] at h
  cases hfield : compiler.schema.field? x.field with
  | none =>
    rw [hfield] at h
    cases h
  | some field =>
    simp only [hfield, hbound] at h
    obtain ⟨positive, hpositive, h⟩ := bind_eq_ok_iff.mp h
    cases h
    exact ⟨field, positive, rfl, hpositive, rfl⟩

variable {name : String} {field : Field} {operator : Operator} {clause : Clause}

/-- A rule that tests for exact values has its positive clause, complemented for a complementary
operator. -/
theorem directRule_inv_of_picksOption {value : Value} (hpicks : operator.picksOption = true)
    (hfield : compiler.schema.field? name = some field)
    (h : compiler.directRule ⟨name, operator, some value⟩ = .ok clause) :
  ∃ positive, compiler.directPositive field ⟨name, operator, some value⟩ = .ok positive
    ∧ clause = positive.notIf operator.isNegative
  := by
  have hbound : Bound.ofOperator? operator = none := by
    cases operator with
    | gt | gte | lt | lte => cases hpicks
    | _ => rfl
  have hdenial : isDenial ⟨name, operator, some value⟩ = false := by
    cases operator with
    | present | absent => cases hpicks
    | _ => rfl
  obtain ⟨found, positive, hfound, hpositive, rfl⟩ := compiler.directRule_inv hbound h
  cases hfound.symm.trans hfield
  rw [hdenial, Bool.bne_false]
  exact ⟨positive, hpositive, rfl⟩

theorem equal_inv {value : Value} (heq : operator.positive = .eq)
    (hfield : compiler.schema.field? name = some field)
    (h : compiler.directRule ⟨name, operator, some value⟩ = .ok clause) :
  ∃ positive, compiler.directExact field [value] = .ok positive
    ∧ clause = positive.notIf operator.isNegative
  := by
  obtain ⟨positive, hpositive, rfl⟩ :=
    compiler.directRule_inv_of_picksOption (by simp [Operator.picksOption, heq]) hfield h
  rw [directPositive] at hpositive
  simp only [heq] at hpositive
  exact ⟨positive, hpositive, rfl⟩

theorem member_inv {values : List Value} (hin : operator.positive = .isIn)
    (hfield : compiler.schema.field? name = some field)
    (h : compiler.directRule ⟨name, operator, some (.list values)⟩ = .ok clause) :
  ∃ positive, compiler.directExact field values = .ok positive
    ∧ clause = positive.notIf operator.isNegative
  := by
  obtain ⟨positive, hpositive, rfl⟩ :=
    compiler.directRule_inv_of_picksOption (by simp [Operator.picksOption, hin]) hfield h
  rw [directPositive] at hpositive
  simp only [hin] at hpositive
  exact ⟨positive, hpositive, rfl⟩

/-- The clause of some tests for equality, of which one is enough, holds as a test for all their
values does. -/
theorem holds_equals {leaves : Clause → Bool} (hleaves : PicksTerms leaves) {values : List Value}
    (hfield : compiler.schema.field? name = some field)
    (h : (compiler.compile
      (.join .or (values.map fun value => .ofRule ⟨name, .eq, some value⟩))).1 = .ok clause) :
  clause.holds leaves = compiler.exactHolds leaves field values
  := by
  have hquery := compiler.query_of_compile h
  rw [Query.join, alone_query_group] at hquery
  obtain ⟨clauses, hclauses, rfl⟩ := map_eq_ok_iff.mp hquery
  have hequals := List.forall₂_map_left_iff.mp (forall₂_of_mapM_eq_ok hclauses)
  have hvalues : clauses.map (holds leaves)
      = values.map fun value => compiler.exactHolds leaves field [value] := by
    apply map_eq_map_of_forall₂ hequals
    intro value _ c hc
    have hrule := (compiler.alone_rule ⟨name, .eq, some value⟩).symm.trans hc
    obtain ⟨positive, hpositive, rfl⟩ := compiler.equal_inv rfl hfield hrule
    exact compiler.holds_exact hleaves hpositive
  rw [holds_groupClause, compiler.exactHolds_eq_any, hvalues]
  simp [Condition.combine]

/-! ### Documents -/

/-- Whether each keyword field on which a rule about a field is made has one of the texts that the
source gives for it. -/
def Carries (document : String → Term) (field : Field) : Prop :=
  ∀ target ∈ compiler.targets field, ∃ stored value,
    compiler.source (compiler.keyword target) = .ok stored ∧ value ∈ stored
      ∧ document (compiler.keyword target) = .string value

/-- Whether one of these keyword fields has one of some texts up to case. -/
def HasText (document : String → Term) (field : Field) (texts : List String) : Prop :=
  ∃ target ∈ compiler.targets field, ∃ value,
    document (compiler.keyword target) = .string value
      ∧ Text.lowercase value ∈ texts.map Text.lowercase

theorem exactHolds_iff_hasText {document : String → Term} {leaves : Clause → Bool}
    (hleaves : ReadsTerms document leaves) (hstring : field.type = .string)
    (hdocument : compiler.Carries document field) (texts : List String) :
  compiler.exactHolds leaves field (texts.map .string) = true
    ↔ compiler.HasText document field texts
  := by
  have hwanted : wantedTexts (texts.map .string) = texts.map Text.lowercase := by
    rw [wantedTexts, List.filterMap_map]
    congr 1
    exact List.filterMap_some
  rw [exactHolds, if_pos hstring, hwanted, HasText, List.any_eq_true]
  apply exists_congr
  intro target
  apply and_congr_right
  intro htarget
  obtain ⟨stored, value, hsource, hvalue, hdocument⟩ := hdocument target htarget
  simp only [Compiler.stored, hsource, hleaves.term, hdocument, Term.string.injEq,
    List.any_eq_true, Bool.and_eq_true, List.contains_iff_mem, decide_eq_true_iff]
  constructor
  · rintro ⟨_, -, hmem, rfl⟩
    exact ⟨_, rfl, hmem⟩
  · rintro ⟨_, rfl, hmem⟩
    exact ⟨_, hvalue, hmem, rfl⟩

/-- Whether a rule is compiled to a clause. -/
def Compiles (x : Rule) (clause : Clause) : Prop :=
  (compiler.compile (.ofRule x)).1 = .ok clause

/-- A test of a field for membership in a list that is compiled to a clause:

- on a document whose keyword fields have stored values, the clause of a string field says whether
  one of them is among the texts up to case;
- the clause of the complementary test is its complement;
- for a list of one value, the test for this value has the same clause;
- the clause of the tests for equality with the values, of which one is enough, holds as the test
  for membership does. -/
theorem compile_isIn {values : List Value} (hfield : compiler.schema.field? name = some field)
    (hmember : operator.isMembership = true)
    (h : compiler.Compiles ⟨name, operator, some (.list values)⟩ clause) :
  (∀ document leaves texts, field.type = .string → values = texts.map .string →
      ReadsTerms document leaves → compiler.Carries document field →
      (clause.holds leaves = true ↔
        if operator = .notIn then ¬ compiler.HasText document field texts
        else compiler.HasText document field texts))
    ∧ (∀ flipped complement, operator.negated? = some flipped →
      compiler.Compiles ⟨name, flipped, some (.list values)⟩ complement →
      ∀ leaves, complement.holds leaves = !clause.holds leaves)
    ∧ (∀ value single other, values = [value] → single.positive = .eq →
      single.isNegative = operator.isNegative → compiler.Compiles ⟨name, single, some value⟩ other →
      other = clause)
    ∧ ∀ equals leaves, PicksTerms leaves →
      (compiler.compile
        (.join .or (values.map fun value => .ofRule ⟨name, .eq, some value⟩))).1 = .ok equals →
      clause.holds leaves = (operator.isNegative ^^ equals.holds leaves)
  := by
  have hin : operator.positive = .isIn := by
    cases operator with
    | isIn | notIn => rfl
    | _ => cases hmember
  obtain ⟨positive, hpositive, rfl⟩ :=
    compiler.member_inv hin hfield (compiler.directRule_of_compile h)
  refine ⟨?_, ?_, ?_, ?_⟩
  · rintro document leaves texts hstring rfl hleaves hdocument
    rw [holds_notIf, compiler.holds_exact hleaves.picksTerms hpositive,
      ← compiler.exactHolds_iff_hasText hleaves hstring hdocument]
    cases operator with
    | isIn | notIn => simp [Operator.isNegative]
    | _ => cases hmember
  · intro flipped complement hflipped hcomplement leaves
    obtain ⟨hflipped, hsign, -⟩ := Operator.negated?_inv hflipped
    obtain ⟨positive', hpositive', rfl⟩ :=
      compiler.member_inv (hflipped.trans hin) hfield (compiler.directRule_of_compile hcomplement)
    cases hpositive.symm.trans hpositive'
    simp [hsign]
  · rintro value single other rfl hsingle hsign hother
    obtain ⟨positive', hpositive', rfl⟩ :=
      compiler.equal_inv hsingle hfield (compiler.directRule_of_compile hother)
    cases hpositive.symm.trans hpositive'
    rw [hsign]
  · intro equals leaves hleaves hequals
    rw [holds_notIf, compiler.holds_exact hleaves hpositive,
      compiler.holds_equals hleaves hfield hequals]

/-- A compiler for the same schema whose source answers for towns as well. -/
def townful : Compiler where
  schema := townless.schema
  source := fun field => .ok (if field = "town.keyword" then ["BONN", "Bonn"] else ["Ani", "ANI"])
  documentFields := townless.documentFields

/-- A document about Ani, who is from Bonn. -/
def aniOfBonn (field : String) : Term :=
  .string (if field = "town.keyword" then "Bonn" else "Ani")

theorem compile_isIn_aniOfBonn :
  ∃ clause complement equals single other,
    townful.Compiles ⟨"any", .isIn, some (.list [.string "bo", .string "bONN"])⟩ clause
      ∧ townful.Compiles ⟨"any", .notIn, some (.list [.string "bo", .string "bONN"])⟩ complement
      ∧ (townful.compile (.join .or [.ofRule ⟨"any", .eq, some (.string "bo")⟩,
        .ofRule ⟨"any", .eq, some (.string "bONN")⟩])).1 = .ok equals
      ∧ townful.Compiles ⟨"any", .notIn, some (.list [.string "bONN"])⟩ single
      ∧ townful.Compiles ⟨"any", .notEq, some (.string "bONN")⟩ other
      ∧ clause.holds (leavesOf aniOfBonn) = true
      ∧ complement.holds (leavesOf aniOfBonn) = false
      ∧ equals.holds (leavesOf aniOfBonn) = true
      ∧ single.holds (leavesOf aniOfBonn) = false
      ∧ other = single
  := by
  have hfield : townful.schema.field? "any" = some { name := "any", type := .string } := rfl
  have hreads := readsTerms_leavesOf aniOfBonn
  have hcarries : townful.Carries aniOfBonn { name := "any", type := .string } := by
    have htargets : townful.targets { name := "any", type := .string } = ["name", "town", "name"] :=
      rfl
    rw [Carries, htargets]
    simp [townful, aniOfBonn, keyword]
  have hmany : townful.Compiles ⟨"any", .isIn, some (.list [.string "bo", .string "bONN"])⟩
      (.any [.matchNone, .terms "town.keyword" [.string "BONN", .string "Bonn"], .matchNone]) := rfl
  have hone : townful.Compiles ⟨"any", .notIn, some (.list [.string "bONN"])⟩
      (.not (.any [.matchNone, .terms "town.keyword" [.string "BONN", .string "Bonn"],
        .matchNone])) := rfl
  obtain ⟨hmeaning, hcomplement, -, hequals⟩ := townful.compile_isIn hfield rfl hmany
  obtain ⟨hmeaning', -, hsingle, -⟩ := townful.compile_isIn hfield rfl hone
  have hholds := (hmeaning aniOfBonn _ ["bo", "bONN"] rfl rfl hreads hcarries).mpr
    ⟨"town", by decide, "Bonn", rfl, by decide⟩
  have hholds' := (hmeaning' aniOfBonn _ ["bONN"] rfl rfl hreads hcarries).not.mpr
    (not_not_intro ⟨"town", by decide, "Bonn", rfl, by decide⟩)
  refine ⟨_, _, _, _, _, hmany, rfl, rfl, hone, rfl, hholds, ?_, ?_, ?_, ?_⟩
  · rw [hcomplement .notIn _ rfl rfl, hholds]
    rfl
  · rw [hequals _ _ hreads.picksTerms rfl] at hholds
    exact hholds
  · exact Bool.eq_false_iff.mpr hholds'
  · exact hsingle (.string "bONN") .notEq _ rfl rfl rfl rfl

end Compiler

end Sift
