import Sift.Query.Validation
import Sift.Proofs.Query.Tree

/-!
# Trees without faults

What the checker accepts, told function by function: `accepts_of_valueFaults` for single values,
`operandFaults_cases` for the value of a rule or its absence, `Rule.exists_field_of_faults` for a
rule, and `Query.rule_faults_of_faults` for the rules of a tree.
-/

namespace Sift

/-! ### Values -/

section Values

variable {field : Field} {operator : Operator} {value : Value}

theorem accepts_of_valueFaults (h : valueFaults field operator value = []) :
  field.type.accepts operator value = true
  := by
  rw [valueFaults] at h
  split at h
  case isTrue haccepts => exact haccepts
  case isFalse => cases h

/-- A regex without faults can be written for the engine. -/
theorem toEngine_of_valueFaults {pattern : String} {ignoreCase : Bool}
    (h : valueFaults field operator (.regex pattern ignoreCase) = []) :
  ∃ converted, Pattern.toEngine pattern ignoreCase = .ok converted
  := by
  rw [valueFaults, if_pos (accepts_of_valueFaults h), List.append_eq_nil_iff, regexFaults] at h
  cases hconverted : Pattern.toEngine pattern ignoreCase with
  | ok converted => exact ⟨converted, rfl⟩
  | error fault =>
    rw [hconverted] at h
    cases h.1

end Values

/-! ### Rules -/

section Rules

variable {field : Field} {x : Rule}

/-- A rule without faults tests for presence, with a truth value at most, or for membership in a
list of values without faults, or it compares with a value without faults. -/
theorem operandFaults_cases (h : operandFaults field x = []) :
  (x.operator.positive = .present ∧ (x.value = none ∨ ∃ b, x.value = some (.bool b)))
    ∨ (x.operator.positive = .isIn ∧ ∃ items, x.value = some (.list items)
      ∧ ∀ item ∈ items, valueFaults field x.operator item = [])
    ∨ (x.operator.positive ≠ .present ∧ x.operator.positive ≠ .isIn
      ∧ ∃ value, x.value = some value ∧ valueFaults field x.operator value = [])
  := by
  rw [operandFaults] at h
  split at h
  case h_1 hpresent hvalue => exact .inl ⟨hpresent, .inl hvalue⟩
  case h_2 b hpresent hvalue => exact .inl ⟨hpresent, .inr ⟨b, hvalue⟩⟩
  case h_3 | h_4 | h_6 => cases h
  case h_5 items hin hvalue =>
    rw [List.flatMap_eq_nil_iff] at h
    exact .inr (.inl ⟨hin, items, hvalue, h⟩)
  case h_7 value hvalue _ hpresent _ hin => exact .inr (.inr ⟨hpresent, hin, value, hvalue, h⟩)

/-- An operator that is no test for presence and wants no list needs a value without faults. -/
theorem exists_value_of_operandFaults (h : operandFaults field x = [])
    (hpresent : x.operator.positive ≠ .present) (hin : x.operator.positive ≠ .isIn) :
  ∃ value, x.value = some value ∧ valueFaults field x.operator value = []
  := by
  obtain ⟨hother, -⟩ | ⟨hother, -⟩ | ⟨-, -, hvalue⟩ := operandFaults_cases h
  · exact absurd hother hpresent
  · exact absurd hother hin
  · exact hvalue

/-- Membership needs a list. -/
theorem exists_items_of_operandFaults (h : operandFaults field x = [])
    (hin : x.operator.positive = .isIn) :
  ∃ items, x.value = some (.list items)
  := by
  obtain ⟨hother, -⟩ | ⟨-, items, hvalue, -⟩ | ⟨-, hother, -⟩ := operandFaults_cases h
  · cases hin.symm.trans hother
  · exact ⟨items, hvalue⟩
  · exact absurd hin hother

/-- A rule without faults has a field with its operator, which its value suits. -/
theorem Rule.exists_field_of_faults {schema : Schema} (h : x.faults schema = []) :
  ∃ field, schema.field? x.field = some field ∧ x.operator ∈ schema.operatorsFor field
    ∧ operandFaults field x = []
  := by
  rw [faults] at h
  split at h
  case h_1 => cases h
  case h_2 field hfield =>
    obtain ⟨hallowed, hoperand⟩ := List.append_eq_nil_iff.mp h
    split at hallowed
    case isTrue hmem => exact ⟨field, hfield, List.contains_iff_mem.mp hmem, hoperand⟩
    case isFalse => cases hallowed

end Rules

/-! ### Trees -/

namespace Query

/-- The rules of a group are those of its children. -/
theorem rule_mem_nodes_group {condition : Condition} {negated : Bool}
    {children : List Query} {origin origin' : Origin} {x : Rule} :
  .rule x origin' ∈ (group condition negated children origin).nodes
    ↔ ∃ child ∈ children, .rule x origin' ∈ child.nodes
  := by
  simp [nodes]

/-- The rules of a tree without faults have none. -/
theorem rule_faults_of_faults {schema : Schema} {ancestors : List String} {q : Query}
    (h : q.faults schema ancestors = []) {x : Rule} {origin : Origin}
    (hx : .rule x origin ∈ q.nodes) :
  x.faults schema = []
  := by
  rw [faults, List.flatMap_eq_nil_iff] at h
  have hnode := h _ hx
  rw [nodeFaults, List.append_eq_nil_iff] at hnode
  exact hnode.2

end Query

end Sift
