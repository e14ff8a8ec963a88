import Sift.Text.Case

/-!
# Operators

The comparison operators of the query language. Five of them have a complementary one, written
with a leading exclamation mark; the four range operators have none, because neither of `x > 1`
and `x <= 1` holds where `x` is missing.
-/

namespace Sift

/-- A comparison operator. -/
inductive Operator where
  | eq | notEq
  | contains | notContains
  | like | notLike
  | isIn | notIn
  | present | absent
  | gt | gte | lt | lte
deriving DecidableEq, Repr

namespace Operator

/-- Every operator, in the order in which they are listed to users. -/
def all : List Operator :=
  [eq, notEq, contains, notContains, like, notLike, isIn, notIn, present, absent,
    gt, gte, lt, lte]

/-- The operator as it is written in a query. -/
def token : Operator → String
  | eq => "="
  | notEq => "!="
  | contains => "contains"
  | notContains => "!contains"
  | like => "like"
  | notLike => "!like"
  | isIn => "in"
  | notIn => "!in"
  | present => "exists"
  | absent => "!exists"
  | gt => ">"
  | gte => ">="
  | lt => "<"
  | lte => "<="

/-- The operator with exactly the given token. -/
def ofExactToken? (s : String) : Option Operator :=
  all.find? fun op => op.token = s

/-- The operator with the given token, where the case of letters does not matter. -/
def ofToken? (s : String) : Option Operator :=
  ofExactToken? (Text.lowercaseAscii s)

/-- The complementary operator. -/
def negated? : Operator → Option Operator
  | eq => some notEq
  | notEq => some eq
  | contains => some notContains
  | notContains => some contains
  | like => some notLike
  | notLike => some like
  | isIn => some notIn
  | notIn => some isIn
  | present => some absent
  | absent => some present
  | gt | gte | lt | lte => none

/-- Whether the operator is the complement of a positive one. -/
def isNegative : Operator → Bool
  | notEq | notContains | notLike | notIn | absent => true
  | _ => false

/-- The positive operator of a complementary pair. -/
def positive : Operator → Operator
  | notEq => eq
  | notContains => contains
  | notLike => like
  | notIn => isIn
  | absent => present
  | op => op

/-- Whether a value has to follow the operator. -/
def requiresValue : Operator → Bool
  | present | absent => false
  | _ => true

/-- Whether the operator wants a list. -/
def isMembership : Operator → Bool
  | isIn | notIn => true
  | _ => false

/-- Whether the operator compares by order. -/
def isRange : Operator → Bool
  | gt | gte | lt | lte => true
  | _ => false

theorem negated?_negated? {op flipped : Operator} (h : op.negated? = some flipped) :
  flipped.negated? = some op
  := by
  cases op <;> cases h <;> rfl

theorem negated?_eq_none_iff {op : Operator} :
  op.negated? = none ↔ op.isRange = true
  := by
  cases op <;> simp [negated?, isRange]

theorem ofExactToken?_token (op : Operator) :
  ofExactToken? op.token = some op
  := by
  cases op <;> decide

end Operator

end Sift
