import Sift.Number.Basic
import Sift.Operator

/-!
# Queries

A `Query` is a tree: its leaves are rules, which compare a field with a `Value`, and references
to saved queries; its inner nodes are groups, which join their children by a `Condition`. Every
rule and group carries an `Origin`, which says how it came out of a saved query.

`Value.agrees` and `Query.agrees` compare two trees, where the sign of zero does not matter.
-/

namespace Sift

/-! ### Values -/

/-- What a field is compared with. -/
inductive Value where
  | string (s : String)
  | number (x : Number)
  | bool (b : Bool)
  | list (items : List Value)
  | regex (pattern : String) (ignoreCase : Bool)
deriving Inhabited

namespace Value

mutual

/-- Equality of values is decided part by part. -/
def decEq : (v w : Value) → Decidable (v = w)
  | string s, string t =>
    if h : s = t then isTrue (by rw [h]) else isFalse (by simp [h])
  | number x, number y =>
    if h : x = y then isTrue (by rw [h]) else isFalse (by simp [h])
  | bool b, bool c =>
    if h : b = c then isTrue (by rw [h]) else isFalse (by simp [h])
  | list items, list others =>
    match decEqItems items others with
    | isTrue h => isTrue (by rw [h])
    | isFalse h => isFalse (by simp [h])
  | regex p i, regex q j =>
    if h : p = q ∧ i = j then isTrue (by rw [h.1, h.2]) else isFalse (by simpa using h)
  | string _, number _ | string _, bool _ | string _, list _ | string _, regex _ _ =>
    isFalse (by simp)
  | number _, string _ | number _, bool _ | number _, list _ | number _, regex _ _ =>
    isFalse (by simp)
  | bool _, string _ | bool _, number _ | bool _, list _ | bool _, regex _ _ =>
    isFalse (by simp)
  | list _, string _ | list _, number _ | list _, bool _ | list _, regex _ _ =>
    isFalse (by simp)
  | regex _ _, string _ | regex _ _, number _ | regex _ _, bool _ | regex _ _, list _ =>
    isFalse (by simp)

/-- Equality of lists of values is decided item by item. -/
def decEqItems : (items others : List Value) → Decidable (items = others)
  | [], [] => isTrue rfl
  | [], _ :: _ => isFalse (by simp)
  | _ :: _, [] => isFalse (by simp)
  | v :: items, w :: others =>
    match decEq v w, decEqItems items others with
    | isTrue h, isTrue k => isTrue (by rw [h, k])
    | isFalse h, _ => isFalse (by simp [h])
    | _, isFalse k => isFalse (by simp [k])

end

instance : DecidableEq Value := decEq

/-- The kind of a value, as it is named in messages. -/
def kind : Value → String
  | string _ => "string"
  | number _ => "number"
  | bool _ => "bool"
  | list _ => "list"
  | regex .. => "regex"

/-- The text of a string. -/
def string? : Value → Option String
  | string s => some s
  | _ => none

/-- The truth value of a `bool`. -/
def bool? : Value → Option Bool
  | bool b => some b
  | _ => none

mutual

/-- The value in which every zero has lost its sign. -/
def unsignZeros : Value → Value
  | number x => number x.unsignZero
  | list items => list (unsignItems items)
  | v => v

/-- The values in which every zero has lost its sign. -/
def unsignItems : List Value → List Value
  | [] => []
  | item :: rest => item.unsignZeros :: unsignItems rest

end

/-- Whether two values are equal up to the sign of zero. -/
def agrees (v w : Value) : Bool :=
  v.unsignZeros = w.unsignZeros

end Value

/-! ### Parts of a tree -/

/-- How the children of a group are joined. -/
inductive Condition where
  | and | or
deriving DecidableEq, Repr

namespace Condition

/-- The sign between two operands. -/
def token : Condition → Char
  | and => '&'
  | or => '|'

/-- The name of a condition. -/
def name : Condition → String
  | and => "and"
  | or => "or"

end Condition

/-- A mention of a saved query. -/
structure Reference where
  name : String
  negated : Bool := false
  /-- Whether the mention stands inside the expansion of a saved query. -/
  isChild : Bool := false
deriving DecidableEq, Inhabited

/-- How a rule or group came out of a saved query. -/
structure Origin where
  /-- The mention whose whole expansion this is. -/
  named : Option Reference := none
  /-- Whether this stands inside the expansion of a saved query. -/
  isChild : Bool := false
deriving DecidableEq, Inhabited

/-- The test of one field. -/
structure Rule where
  field : String
  operator : Operator
  value : Option Value := none
deriving DecidableEq

/-! ### Trees -/

/-- A query. -/
inductive Query where
  | rule (rule : Rule) (origin : Origin)
  | group (condition : Condition) (negated : Bool) (children : List Query) (origin : Origin)
  | reference (reference : Reference)

namespace Query

/-- The empty conjunction, which every document meets. -/
def everything : Query :=
  group .and false [] {}

instance : Inhabited Query where
  default := everything

/-- A rule that is written out. -/
def ofRule (rule : Rule) : Query :=
  .rule rule {}

/-- A group that is written out. -/
def join (condition : Condition) (children : List Query) : Query :=
  group condition false children {}

mutual

/-- Equality of trees is decided part by part. -/
def decEq : (q r : Query) → Decidable (q = r)
  | rule x o, rule y p =>
    if h : x = y ∧ o = p then isTrue (by rw [h.1, h.2]) else isFalse (by simpa using h)
  | group c n xs o, group d m ys p =>
    match decEqList xs ys with
    | isTrue k =>
      if h : c = d ∧ n = m ∧ o = p then isTrue (by rw [h.1, h.2.1, h.2.2, k])
      else isFalse (by simpa [k] using h)
    | isFalse k => isFalse (by simp [k])
  | reference x, reference y =>
    if h : x = y then isTrue (by rw [h]) else isFalse (by simpa using h)
  | rule .., group .. | rule .., reference _ => isFalse (by simp)
  | group .., rule .. | group .., reference _ => isFalse (by simp)
  | reference _, rule .. | reference _, group .. => isFalse (by simp)

/-- Equality of lists of trees is decided tree by tree. -/
def decEqList : (qs rs : List Query) → Decidable (qs = rs)
  | [], [] => isTrue rfl
  | [], _ :: _ => isFalse (by simp)
  | _ :: _, [] => isFalse (by simp)
  | q :: qs, r :: rs =>
    match decEq q r, decEqList qs rs with
    | isTrue h, isTrue k => isTrue (by rw [h, k])
    | isFalse h, _ => isFalse (by simp [h])
    | _, isFalse k => isFalse (by simp [k])

end

instance : DecidableEq Query := decEq

/-- The mention whose whole expansion a node is; a reference is its own. -/
def named : Query → Option Reference
  | rule _ origin => origin.named
  | group _ _ _ origin => origin.named
  | reference ref => some ref

/-- The node as the expansion of `named`; a reference stays as it is. -/
def setNamed (named : Option Reference) : Query → Query
  | rule x origin => rule x { origin with named }
  | group condition negated children origin =>
    group condition negated children { origin with named }
  | reference ref => reference ref

/-- Whether a node stands inside the expansion of a saved query. -/
def isChild : Query → Bool
  | rule _ origin => origin.isChild
  | group _ _ _ origin => origin.isChild
  | reference ref => ref.isChild

mutual

/-- The tree with all nodes marked as parts of an expansion. -/
def markChildren : Query → Query
  | rule x origin => rule x { origin with isChild := true }
  | group condition negated children origin =>
    group condition negated (markAll children) { origin with isChild := true }
  | reference ref => reference { ref with isChild := true }

/-- The trees with all nodes marked as parts of an expansion. -/
def markAll : List Query → List Query
  | [] => []
  | q :: rest => q.markChildren :: markAll rest

end

mutual

/-- All nodes of a tree, each before its children. -/
def nodes : Query → List Query
  | group condition negated children origin =>
    group condition negated children origin :: nodesOfAll children
  | q => [q]

/-- All nodes of some trees, one tree after the other. -/
def nodesOfAll : List Query → List Query
  | [] => []
  | q :: rest => q.nodes ++ nodesOfAll rest

end

/-- The name a reference mentions. -/
def referenceName? : Query → Option String
  | reference ref => some ref.name
  | _ => none

/-- The names of the list without those that occur earlier. -/
def distinct (names : List String) : List String :=
  names.foldl (fun seen name => if seen.contains name then seen else seen ++ [name]) []

/-- The names of the saved queries that a tree mentions, each once, in the order of their first
mention. -/
def references (q : Query) : List String :=
  distinct (q.nodes.filterMap referenceName?)

/-- Whether a tree mentions a saved query. -/
def hasReferences (q : Query) : Bool :=
  q.nodes.any fun node => node.referenceName?.isSome

/-- Whether a node is a rule. -/
def isRule : Query → Bool
  | rule .. => true
  | _ => false

/-- The number of rules in a tree. -/
def ruleCount (q : Query) : Nat :=
  q.nodes.countP isRule

mutual

/-- The tree in which every zero has lost its sign. -/
def unsignZeros : Query → Query
  | rule x origin => rule { x with value := x.value.map Value.unsignZeros } origin
  | group condition negated children origin =>
    group condition negated (unsignAll children) origin
  | reference ref => reference ref

/-- The trees in which every zero has lost its sign. -/
def unsignAll : List Query → List Query
  | [] => []
  | q :: rest => q.unsignZeros :: unsignAll rest

end

/-- Whether two trees are equal up to the sign of zero. -/
def agrees (q r : Query) : Bool :=
  q.unsignZeros = r.unsignZeros

/-! ### Negation -/

/-- The logical complement of a tree. A rule takes the complementary operator; a range rule has
none and is wrapped into a negated group, which the next negation takes off again. -/
def negate : Query → Query
  | rule x origin =>
    match x.operator.negated? with
    | some operator => rule { x with operator } origin
    | none => group .and true [rule x origin] {}
  | group condition negated children origin =>
    match negated, origin.named, children with
    | true, none, [only] => only
    | _, _, _ => group condition (!negated) children origin
  | reference ref => reference { ref with negated := !ref.negated }

end Query

end Sift
