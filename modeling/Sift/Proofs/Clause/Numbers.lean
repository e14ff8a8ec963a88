import Sift.Proofs.Clause.Exact
import Sift.Proofs.Clause.Sent
import Sift.Proofs.Query.Numbers

/-!
# Numbers that are compiled

The clause of a tree without faults has the numbers of the tree, in the same order
(`Compiler.numbers_of_compile`). So a null is sent for a tree exactly if the tree has an infinite
number (`Compiler.hasNull_iff_of_compile`). `Query.numbers_of_parse` joins this with what becomes of
the numbers when the text of a tree is parsed: finite numbers survive both, infinite ones neither.
-/

namespace Sift

/-! ### Ways of making clauses -/

namespace Clause

@[simp]
theorem numbers_notIf (negated : Bool) (clause : Clause) :
  (clause.notIf negated).numbers = clause.numbers
  := by
  cases negated <;> simp [notIf, not, numbers]

theorem numbers_anyOf (clauses : List Clause) :
  (anyOf clauses).numbers = clauses.flatMap numbers
  := by
  match clauses with
  | [] => simp [anyOf, any, numbers]
  | [only] => simp [anyOf]
  | first :: second :: rest => simp [anyOf, any, numbers]

end Clause

open Clause

namespace Compiler

theorem numbers_oneOf (field : String) (terms : List Term) :
  (oneOf field terms).numbers = terms.flatMap Term.numbers
  := by
  match terms with
  | [only] => simp [oneOf, numbers]
  | [] => rfl
  | first :: second :: rest => rfl

theorem numbers_reconciled (field : String) (stored wanted : List String) :
  (reconciled field stored wanted).numbers = []
  := by
  simp only [reconciled]
  split
  · rfl
  · rw [numbers_oneOf, List.flatMap_map]
    simp [Term.numbers]

theorem numbers_groupClause (condition : Condition) (negated : Bool) (children : List Clause) :
  (groupClause condition negated children).numbers = children.flatMap numbers
  := by
  rw [groupClause, numbers_notIf]
  split
  case isTrue hempty =>
    rw [List.isEmpty_iff.mp hempty]
    cases condition <;> rfl
  case isFalse => cases condition <;> simp [joined, all, any, numbers]

variable (compiler : Compiler) {field : Field}

theorem numbers_presence (target : String) :
  (compiler.presence field target).numbers = []
  := by
  rw [presence]
  split
  · simp [all, Clause.not, numbers, Term.numbers]
  · rfl

theorem numbers_matching {pattern : String} {ignoreCase : Bool} {clause : Clause}
    (h : compiler.matching field pattern ignoreCase = .ok clause) :
  clause.numbers = []
  := by
  rw [matching] at h
  split at h
  case h_1 =>
    cases h
    rw [fanOut, numbers_anyOf]
    simp [numbers]
  case h_2 => cases h

/-! ### Rules -/

/-- The term of a value that a field accepts has the numbers of the value. -/
theorem numbers_toTerm? {operator : Operator} {value : Value}
    (h : field.type.accepts operator value = true) :
  value.toTerm?.toList.flatMap Term.numbers = value.numbers
  := by
  cases value with
  | list => cases h
  | _ => rfl

/-- A string field accepts no numbers. -/
theorem numbers_of_accepts {operator : Operator} {value : Value} (hstring : field.type = .string)
    (h : field.type.accepts operator value = true) :
  value.numbers = []
  := by
  cases value with
  | number | list => simp [FieldType.accepts, hstring] at h
  | _ => rfl

/-- A test for exact values has the numbers of those that its field accepts. -/
theorem numbers_directExact {operator : Operator} {values : List Value} {clause : Clause}
    (hvalues : ∀ value ∈ values, field.type.accepts operator value = true)
    (h : compiler.directExact field values = .ok clause) :
  clause.numbers = values.flatMap Value.numbers
  := by
  by_cases hstring : field.type = .string
  case pos =>
    have hnone : values.flatMap Value.numbers = [] := List.flatMap_eq_nil_iff.mpr
      fun value hvalue => numbers_of_accepts hstring (hvalues value hvalue)
    rw [compiler.directExact_inv hstring h, numbers_anyOf, List.flatMap_map, hnone,
      List.flatMap_eq_nil_iff]
    exact fun target _ => numbers_reconciled _ _ _
  case neg =>
    rw [directExact, if_neg hstring] at h
    cases h
    rw [numbers_oneOf, List.filterMap_eq_flatMap_toList, List.flatMap_assoc]
    apply List.flatMap_congr
    exact fun value hvalue => numbers_toTerm? (hvalues value hvalue)

theorem numbers_directPositive {x : Rule} {clause : Clause} (hfaults : operandFaults field x = [])
    (h : compiler.directPositive field x = .ok clause) :
  clause.numbers = x.numbers
  := by
  have hnumbers {value : Option Value} (hvalue : x.value = value) :
      x.numbers = value.elim [] Value.numbers := by rw [Rule.numbers, hvalue]
  rw [directPositive] at h
  split at h
  case h_1 hpresent =>
    have hnone : x.numbers = [] := by
      obtain ⟨-, hvalue | ⟨b, hvalue⟩⟩ | ⟨hin, -⟩ | ⟨hother, -⟩ := operandFaults_cases hfaults
      · exact hnumbers hvalue
      · exact hnumbers hvalue
      · cases hpresent.symm.trans hin
      · exact absurd hpresent hother
    cases h
    rw [fanOut, numbers_anyOf, hnone, List.flatMap_map, List.flatMap_eq_nil_iff]
    exact fun target _ => compiler.numbers_presence target
  case h_2 hvalue | h_3 hvalue | h_5 hvalue =>
    rw [compiler.numbers_matching h]
    exact (hnumbers hvalue).symm
  case h_4 hvalue =>
    cases h
    exact (hnumbers hvalue).symm
  case h_6 value heq hvalue =>
    obtain ⟨found, hfound, hvalueFaults⟩ :=
      exists_value_of_operandFaults hfaults (by simp [heq]) (by simp [heq])
    cases hvalue.symm.trans hfound
    have haccepts : ∀ v ∈ [value], field.type.accepts x.operator v = true :=
      List.forall_mem_singleton.mpr (accepts_of_valueFaults hvalueFaults)
    rw [compiler.numbers_directExact haccepts h, List.flatMap_singleton]
    exact (hnumbers hvalue).symm
  case h_7 values hin hvalue =>
    obtain ⟨hother, -⟩ | ⟨-, items, hitems, hvalueFaults⟩ | ⟨-, hother, -⟩ :=
      operandFaults_cases hfaults
    · cases hin.symm.trans hother
    · cases hvalue.symm.trans hitems
      have haccepts : ∀ v ∈ values, field.type.accepts x.operator v = true :=
        fun v hv => accepts_of_valueFaults (hvalueFaults v hv)
      rw [compiler.numbers_directExact haccepts h, ← Value.numbersOfItems_eq_flatMap]
      exact (hnumbers hvalue).symm
    · exact absurd hin hother
  case h_8 => cases h

/-- The clause of a rule without faults has the numbers of the rule. -/
theorem numbers_directRule {x : Rule} {clause : Clause} (hfaults : x.faults compiler.schema = [])
    (h : compiler.directRule x = .ok clause) :
  clause.numbers = x.numbers
  := by
  obtain ⟨field, hfield, -, hoperand⟩ := Rule.exists_field_of_faults hfaults
  cases hbound : Bound.ofOperator? x.operator with
  | some bound =>
    obtain ⟨value, hvalue, hvalueFaults⟩ := exists_value_of_operandFaults hoperand
      (positive_ne_of_bound hbound).1 (positive_ne_of_bound hbound).2
    have hterm := numbers_toTerm? (accepts_of_valueFaults hvalueFaults)
    simp only [directRule, hfield, hbound, hvalue, Option.bind_some] at h
    split at h
    case h_1 term heq =>
      cases h
      rw [Rule.numbers, hvalue, Option.elim_some, ← hterm, heq]
      simp [numbers]
    case h_2 => cases h
  | none =>
    obtain ⟨found, positive, hfound, hpositive, rfl⟩ := compiler.directRule_inv hbound h
    cases hfound.symm.trans hfield
    rw [numbers_notIf]
    exact compiler.numbers_directPositive hoperand hpositive

/-! ### Trees -/

/-- The clause of a tree of rules without faults has the numbers of the tree. -/
theorem numbers_direct {q : Query} {clause : Clause}
    (hfaults : ∀ x origin, .rule x origin ∈ q.nodes → x.faults compiler.schema = [])
    (h : compiler.direct q = .ok clause) :
  clause.numbers = q.numbers
  := by
  induction q generalizing clause with
  | rule x origin =>
    have hx := hfaults x origin (Query.mem_nodes_self _)
    rw [compiler.numbers_directRule hx h, Query.numbers_rule]
  | group condition negated children origin ih =>
    rw [direct, directAll_eq_mapM] at h
    obtain ⟨clauses, hclauses, h⟩ := bind_eq_ok_iff.mp h
    cases h
    have hmap : clauses.map numbers = children.map Query.numbers := by
      apply map_eq_map_of_forall₂ (forall₂_of_mapM_eq_ok hclauses)
      intro child hchild part hpart
      apply ih child hchild _ hpart
      intro x origin' hx
      exact hfaults x origin' (Query.rule_mem_nodes_group.mpr ⟨child, hchild, hx⟩)
    rw [numbers_groupClause, Query.numbers_group, List.flatMap_def, List.flatMap_def, hmap]
  | reference ref => cases h

/-- The numbers of a compiled tree are those of its clause. -/
theorem numbers_of_compile {q : Query} {clause : Clause}
    (h : (compiler.compile q).1 = .ok clause) :
  clause.numbers = q.numbers
  := by
  obtain ⟨-, hfaults, hdirect⟩ := compiler.compile_inv h
  exact compiler.numbers_direct (fun _ _ hx => Query.rule_faults_of_faults hfaults hx) hdirect

/-- A null is sent for a tree exactly if it has an infinite number. -/
theorem hasNull_iff_of_compile {q : Query} {clause : Clause}
    (h : (compiler.compile q).1 = .ok clause) :
  clause.toData.hasNull = true ↔ ∃ x ∈ q.numbers, x.isFinite = false
  := by
  rw [hasNull_toData_iff, compiler.numbers_of_compile h]

end Compiler

namespace Query

/-- What becomes of the numbers of a tree that has been parsed. When its text is parsed, there is a
number again in the place of a finite one, but the word for an infinite number is read as a string.
When the tree is compiled, a null is sent exactly if there is an infinite number in some place. -/
theorem numbers_of_parse {schema : Schema} {s : String} {q : Query} (h : parse schema s = .ok q) :
  (∀ path inner x style, q.valueAt? path inner = some (.number x) →
      ∃ r, parse schema (q.print style) = .ok r
        ∧ r.valueAt? path inner
          = some (if x.isFinite then .number x.unsignZero else .string x.text))
    ∧ ∀ (compiler : Compiler) (clause : Clause), (compiler.compile q).1 = .ok clause →
      (clause.toData.hasNull = true
        ↔ ∃ path inner x, q.valueAt? path inner = some (.number x) ∧ x.isFinite = false)
  := by
  constructor
  · intro path inner x style hx
    exact valueAt?_of_parse_print h hx style
  · intro compiler clause hclause
    rw [compiler.hasNull_iff_of_compile hclause]
    constructor
    · rintro ⟨x, hx, hinfinite⟩
      obtain ⟨path, inner, hplace⟩ := mem_numbers_iff.mp hx
      exact ⟨path, inner, x, hplace, hinfinite⟩
    · rintro ⟨path, inner, x, hplace, hinfinite⟩
      exact ⟨x, mem_numbers_iff.mpr ⟨path, inner, hplace⟩, hinfinite⟩

/-- A compiler for a schema with a number. -/
def ages : Compiler where
  schema := people
  source := fun _ => .ok []

/-- A tree with a number and a list of numbers, one of them a negative zero. -/
def someAges : Query :=
  .group .and true
    [.ofRule ⟨"age", .gt, some (.number (Number.ofDigits true ['0'] ['5', '0']))⟩,
      .ofRule ⟨"age", .isIn, some (.list
        [.number (Number.ofDigits true ['0'] []), .number (Number.ofDigits false ['1'] [])])⟩] {}

theorem numbers_of_parse_people :
  parse people "!(age > -0.50 & age in [-0, 1])" = .ok someAges
    ∧ (∃ r, parse people (someAges.print .expanded) = .ok r
      ∧ r.valueAt? [1] [0] = some (.number ⟨false, 0, Nat.zero_le _⟩))
    ∧ ∃ clause, (ages.compile someAges).1 = .ok clause ∧ clause.toData.hasNull = false
  := by
  have hparse : parse people "!(age > -0.50 & age in [-0, 1])" = .ok someAges := by
    decide +kernel
  have hfinite : ∀ x ∈ someAges.numbers, x.isFinite = true := by
    decide +kernel
  have hzero : (if (Number.ofDigits true ['0'] []).isFinite
      then Value.number (Number.ofDigits true ['0'] []).unsignZero
      else .string (Number.ofDigits true ['0'] []).text) = .number ⟨false, 0, Nat.zero_le _⟩ := by
    decide +kernel
  obtain ⟨hreread, hnull⟩ := numbers_of_parse hparse
  obtain ⟨r, hr, hplace⟩ := hreread [1] [0] _ .expanded rfl
  refine ⟨hparse, ⟨r, hr, hplace.trans (congrArg some hzero)⟩, _, rfl, ?_⟩
  rw [Bool.eq_false_iff, Ne, hnull ages _ rfl]
  rintro ⟨path, inner, x, hplace, hx⟩
  rw [hfinite x (mem_numbers_iff.mpr ⟨path, inner, hplace⟩)] at hx
  cases hx

/-- The text of a comparison with a number that has more digits than a finite one. -/
def manyDigits : List Char :=
  "age > 1".toList ++ List.replicate 309 '0'

/-- The comparison with the infinite number. -/
def overflowing : Query :=
  .ofRule ⟨"age", .gt, some (.number ⟨false, infiniteRank, Nat.le_refl _⟩)⟩

/-- A number with too many digits is parsed to the infinite one, which is read again as a string,
and sent as null. -/
theorem numbers_of_manyDigits :
  parse people (String.ofList manyDigits) = .ok overflowing
    ∧ overflowing.valueAt? [] [] = some (.number ⟨false, infiniteRank, Nat.le_refl _⟩)
    ∧ (∃ r, parse people (overflowing.print .expanded) = .ok r
      ∧ r.valueAt? [] [] = some (.string "inf"))
    ∧ overflowing.references = []
    ∧ ∃ clause, (ages.compile overflowing).1 = .ok clause ∧ clause.toData.hasNull = true
  := by
  have hchars : parseChars people manyDigits = .ok overflowing := by
    decide +kernel
  have hparse : parse people (String.ofList manyDigits) = .ok overflowing := by
    rw [parse, String.toList_ofList, hchars]
  refine ⟨hparse, rfl, ⟨.ofRule ⟨"age", .gt, some (.string "inf")⟩, ?_, rfl⟩, rfl, ?_⟩
  · decide +kernel
  · exact ⟨.range "age" .gt (.number ⟨false, infiniteRank, Nat.le_refl _⟩), rfl, by decide⟩

end Query

end Sift
