import Sift.Query.Basic
import Sift.Number.Decimal

/-!
# Text of queries

`Query.print` writes a tree as the text of a query. In the style `collapsed` the expansion of a
saved query is written as its name, in the style `expanded` it is written out. Parentheses stand
where a group is negated or joins its children differently from the group around it.
-/

namespace Sift

/-- How the expansions of saved queries are written. -/
inductive Style where
  | collapsed | expanded
deriving DecidableEq, Repr

namespace Value

/-- The contents of a string with a backslash before every quote and backslash. -/
def escape : List Char → List Char
  | [] => []
  | c :: cs => if c = '"' ∨ c = '\\' then '\\' :: c :: escape cs else c :: escape cs

/-- A value without parts. -/
def printScalar : Value → List Char
  | string s => '"' :: escape s.toList ++ ['"']
  | number x => x.text.toList
  | bool true => "true".toList
  | bool false => "false".toList
  | regex pattern ignoreCase =>
    '/' :: pattern.toList ++ '/' :: if ignoreCase then ['i'] else []
  | list _ => "[]".toList

mutual

/-- The characters of a value. -/
def chars : Value → List Char
  | list items => '[' :: [',', ' '].intercalate (charsOfItems items) ++ [']']
  | v => v.printScalar

/-- The characters of each of some values. -/
def charsOfItems : List Value → List (List Char)
  | [] => []
  | item :: rest => item.chars :: charsOfItems rest

end

/-- The text of a value. -/
def print (v : Value) : String :=
  String.ofList v.chars

instance : ToString Value where
  toString := print

end Value

/-- The characters of a mention. -/
def Reference.chars (ref : Reference) : List Char :=
  if ref.negated then '!' :: ref.name.toList else ref.name.toList

/-- The characters of a rule. -/
def Rule.chars (rule : Rule) : List Char :=
  rule.field.toList ++ ' ' :: rule.operator.token.toList
    ++ match rule.value with
      | some value => ' ' :: value.chars
      | none => []

namespace Query

/-- The characters between two operands. -/
def separator (condition : Condition) : List Char :=
  [' ', condition.token, ' ']

/-- A group without children. At the root it is empty unless it is negated. -/
def emptyGroup (parent : Option Condition) (negated : Bool) : List Char :=
  if negated then "!()".toList
  else if parent.isNone then []
  else "()".toList

/-- The operands of a group with what has to stand around them. -/
def wrap (parent : Option Condition) (condition : Condition) (negated : Bool)
    (operands : List Char) : List Char :=
  if negated then '!' :: '(' :: operands ++ [')']
  else if parent.any (· ≠ condition) then '(' :: operands ++ [')']
  else operands

/-- The name that a node is written as, if it is written as one. -/
def shownName (style : Style) (q : Query) : Option Reference :=
  match style with
  | .collapsed => q.named
  | .expanded => none

mutual

/-- The characters of a tree that stands in a group with the condition `parent`. -/
def chars (style : Style) (parent : Option Condition) : Query → List Char
  | rule x origin =>
    match (rule x origin).shownName style with
    | some ref => ref.chars
    | none => x.chars
  | reference ref => ref.chars
  | group condition negated children origin =>
    match (group condition negated children origin).shownName style with
    | some ref => ref.chars
    | none =>
      match children with
      | [] => emptyGroup parent negated
      | _ :: _ =>
        wrap parent condition negated
          ((separator condition).intercalate (charsOfAll style condition children))

/-- The characters of each child of a group with the condition `parent`. -/
def charsOfAll (style : Style) (parent : Condition) : List Query → List (List Char)
  | [] => []
  | q :: rest => q.chars style (some parent) :: charsOfAll style parent rest

end

/-- The text of a tree. -/
def print (style : Style) (q : Query) : String :=
  String.ofList (q.chars style none)

instance : ToString Query where
  toString := print .expanded

end Query

end Sift
