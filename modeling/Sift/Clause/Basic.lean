import Sift.Data.Basic
import Sift.Operator
import Sift.Query.Basic

/-!
# Clauses

A `Clause` is a query in the form that a search engine takes. `Clause.toData` writes it as the
document that is sent to the engine, in which empty parts of a Boolean clause are left out.
-/

namespace Sift

/-- A term of a field. -/
inductive Term where
  | string (s : String)
  | number (x : Number)
  | bool (b : Bool)
deriving DecidableEq

/-- The bound that a range sets. -/
inductive Bound where
  | gt | gte | lt | lte
deriving DecidableEq, Repr

/-- A query in the form that a search engine takes. -/
inductive Clause where
  | term (field : String) (value : Term)
  | terms (field : String) (values : List Term)
  | bool (must mustNot should : List Clause)
  | range (field : String) (bound : Bound) (value : Term)
  | regexp (field pattern : String)
  | queryString (fields : List String) (query : String)
  | hasField (field : String)
  | matchNone
  | matchAll

/-! ### Parts -/

namespace Bound

/-- The name of a bound. -/
def name : Bound → String
  | gt => "gt"
  | gte => "gte"
  | lt => "lt"
  | lte => "lte"

/-- The bound that a range operator sets. -/
def ofOperator? : Operator → Option Bound
  | .gt => some gt
  | .gte => some gte
  | .lt => some lt
  | .lte => some lte
  | _ => none

end Bound

/-- The term that a value is, unless it is a list or a regex. -/
def Value.toTerm? : Value → Option Term
  | string s => some (.string s)
  | number x => some (.number x)
  | bool b => some (.bool b)
  | list _ => none
  | regex .. => none

/-! ### Clauses -/

namespace Clause

/-- All of some clauses. -/
def all (clauses : List Clause) : Clause := bool clauses [] []

/-- Some of some clauses. -/
def any (clauses : List Clause) : Clause := bool [] [] clauses

/-- The complement of a clause. -/
def not (clause : Clause) : Clause := bool [] [clause] []

/-- The complement of a clause if `negated` is set, or else the clause. -/
def notIf (negated : Bool) (clause : Clause) : Clause :=
  if negated then clause.not else clause

/-- Some of some clauses; a single one stays as it is. -/
def anyOf : List Clause → Clause
  | [only] => only
  | clauses => any clauses

/-! ### Documents -/

/-- A record of one entry. -/
def entry (key : String) (d : Data) : Data :=
  .record [(key, d)]

/-- A term as it is sent. An infinite number is sent as null. -/
def termData : Term → Data
  | .string s => .text s
  | .number x => .ofNumber x
  | .bool b => .bool b

/-- The entry of a list, unless the list is empty. -/
def listEntry (key : String) (items : List Data) : List (String × Data) :=
  if items.isEmpty then [] else [(key, .list items)]

mutual

/-- A clause as it is sent. -/
def toData : Clause → Data
  | term field value => entry "term" (entry field (termData value))
  | terms field values => entry "terms" (entry field (.list (values.map termData)))
  | bool must mustNot should =>
    entry "bool" (.record (
      listEntry "must" (allToData must) ++ listEntry "must_not" (allToData mustNot)
        ++ listEntry "should" (allToData should)
        ++ if should.isEmpty then [] else [("minimum_should_match", .int 1)]))
  | range field bound value => entry "range" (entry field (entry bound.name (termData value)))
  | regexp field pattern => entry "regexp" (entry field (entry "value" (.text pattern)))
  | queryString fields query =>
    entry "query_string"
      (.record [("query", .text query), ("fields", .list (fields.map .text))])
  | hasField field => entry "exists" (entry "field" (.text field))
  | matchNone => entry "match_none" (.record [])
  | matchAll => entry "match_all" (.record [])

/-- Some clauses as they are sent. -/
def allToData : List Clause → List Data
  | [] => []
  | clause :: rest => clause.toData :: allToData rest

end

end Clause

end Sift
