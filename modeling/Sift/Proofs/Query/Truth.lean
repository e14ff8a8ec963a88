import Sift.Proofs.Query.Tree

/-!
# Truth values of trees

`Query.holds` is the truth value of a tree, given those of its rules and of the names it mentions:
a group is a conjunction or disjunction, complemented if it is negated. Where complementary
operators make complementary rules, `Query.negate` complements the value of a tree
(`holds_negate`). A chain combines the values of its operands, whether or not they are spliced
(`holds_chain`), and the origin of nodes never matters.
-/

namespace Sift

/-- The truth value of operands with the given values. -/
def Condition.combine : Condition → List Bool → Bool
  | and, values => values.all id
  | or, values => values.any id

/-- One operand has its own value under either condition. -/
@[simp]
theorem Condition.combine_singleton (condition : Condition) (b : Bool) :
  condition.combine [b] = b
  := by
  cases condition <;> simp [combine]

/-- Values that are combined part by part are combined altogether. -/
theorem Condition.combine_flatMap {α : Type} (condition : Condition) (parts : α → List Bool)
    (xs : List α) :
  condition.combine (xs.flatMap parts)
    = condition.combine (xs.map fun x => condition.combine (parts x))
  := by
  cases condition with
  | and => simp [combine, List.all_flatMap, List.all_map]
  | or => simp [combine, List.any_flatMap, List.any_map]

/-- The value of a rule, given that of every rule with a positive operator: a complementary
operator stands for the complement. -/
def Rule.holds (positive : Rule → Bool) (x : Rule) : Bool :=
  x.operator.isNegative ^^ positive { x with operator := x.operator.positive }

namespace Query

variable {rules : Rule → Bool} {names : String → Bool}

mutual

/-- The truth value of a tree, given those of rules and names. -/
def holds (rules : Rule → Bool) (names : String → Bool) : Query → Bool
  | rule x _ => rules x
  | group condition negated children _ =>
    negated ^^ condition.combine (holdsAll rules names children)
  | reference ref => ref.negated ^^ names ref.name

/-- The truth values of some trees. -/
def holdsAll (rules : Rule → Bool) (names : String → Bool) : List Query → List Bool
  | [] => []
  | q :: rest => q.holds rules names :: holdsAll rules names rest

end

@[simp]
theorem holdsAll_eq_map (children : List Query) :
  holdsAll rules names children = children.map (holds rules names)
  := by
  induction children with
  | nil => rfl
  | cons _ _ ih => rw [holdsAll, ih, List.map_cons]

/-! ### Negation -/

/-- Complementary operators make complementary rules. -/
def Complementary (rules : Rule → Bool) : Prop :=
  ∀ (x : Rule) (flipped : Operator), x.operator.negated? = some flipped →
    rules { x with operator := flipped } = !rules x

theorem complementary_holds (positive : Rule → Bool) :
  Complementary (Rule.holds positive)
  := by
  rintro ⟨field, op, value⟩ flipped h
  cases op <;> cases h <;> simp [Rule.holds, Operator.isNegative, Operator.positive]

/-- The complement of a tree has the complementary value. -/
theorem holds_negate (hrules : Complementary rules) (q : Query) :
  q.negate.holds rules names = !q.holds rules names
  := by
  cases q with
  | rule x origin =>
    cases h : x.operator.negated? with
    | some flipped => simp [negate, h, holds, hrules x flipped h]
    | none => simp [negate, h, holds]
  | group condition negated children origin =>
    simp only [negate]
    split
    · simp [holds]
    · simp [holds]
  | reference ref => simp [negate, holds]

/-! ### Chains -/

/-- What an operand contributes to a chain has together the value of the operand. -/
theorem combine_spliced (condition : Condition) (q : Query) :
  condition.combine ((spliced condition q).map (holds rules names)) = q.holds rules names
  := by
  cases q with
  | rule => simp [spliced]
  | group own negated children origin =>
    rw [spliced]
    split
    case isTrue h =>
      simp only [Bool.and_eq_true, decide_eq_true_eq, Bool.not_eq_true'] at h
      obtain ⟨⟨⟨rfl, rfl⟩, -⟩, -⟩ := h
      rw [holds, holdsAll_eq_map, Bool.false_xor]
    case isFalse => simp
  | reference => simp [spliced]

/-- A chain combines the values of its operands. -/
theorem holds_chain (condition : Condition) (operands : List Query) :
  (chain condition operands).holds rules names
    = condition.combine (operands.map (holds rules names))
  := by
  have hjoin : (join condition (operands.flatMap (spliced condition))).holds rules names
      = condition.combine (operands.map (holds rules names)) := by
    rw [join, holds, holdsAll_eq_map, Bool.false_xor, List.map_flatMap,
      Condition.combine_flatMap]
    simp only [combine_spliced]
  match operands with
  | [] => exact hjoin
  | [only] => simp [chain]
  | _ :: _ :: _ => exact hjoin

/-! ### Origins -/

@[simp]
theorem holds_setNamed (named : Option Reference) (q : Query) :
  (q.setNamed named).holds rules names = q.holds rules names
  := by
  cases q <;> simp [setNamed, holds]

@[simp]
theorem holds_markChildren (q : Query) :
  q.markChildren.holds rules names = q.holds rules names
  := by
  induction q with
  | rule => simp [markChildren, holds]
  | group condition negated children origin ih =>
    simp only [markChildren, holds, markAll_eq_map, holdsAll_eq_map, List.map_map]
    congr 2
    apply List.map_congr_left ih
  | reference => simp [markChildren, holds]

end Query

end Sift
