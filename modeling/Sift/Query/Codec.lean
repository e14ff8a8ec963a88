import Sift.Query.Basic
import Sift.Data.Basic

/-!
# Queries as data

`Query.toData` writes a tree as a record for other programs, and `Query.ofData?` reads such a
record; likewise for values and references. What says nothing is left out when it is written and
may be missing when it is read. In place of a record the list of its values is read as well.
-/

namespace Sift

/-! ### Values -/

namespace Value

mutual

/-- A value as a record of its kind and its contents. -/
def toData : Value → Data
  | string s => .record [("type", .text "string"), ("value", .text s)]
  | number x => .record [("type", .text "number"), ("value", .ofNumber x)]
  | bool b => .record [("type", .text "bool"), ("value", .bool b)]
  | list items => .record [("type", .text "list"), ("value", .list (itemsToData items))]
  | regex pattern ignoreCase =>
    .record [("type", .text "regex"),
      ("value", .record [("pattern", .text pattern), ("case_insensitive", .bool ignoreCase)])]

/-- Some values as records. -/
def itemsToData : List Value → List Data
  | [] => []
  | item :: rest => item.toData :: itemsToData rest

end

/-- A regex, whose letters' case matters unless it is said otherwise. -/
def regexOfData? (d : Data) : Option Value := do
  let entries ← d.entries? ["pattern", "case_insensitive"]
  return .regex (← Data.required entries "pattern" Data.text?)
    (← Data.defaulted entries "case_insensitive" false Data.bool?)

/-- The value that a record describes. `isNothing` says what may stand under the name of a kind,
and `fuel` bounds the depth. -/
def decode? (isNothing : Data → Bool) : Nat → Data → Option Value
  | 0, _ => none
  | fuel + 1, d => do
    let entries ← d.entries? ["type", "value"]
    let kind ← Data.required entries "type" (Data.name? isNothing)
    Data.required entries "value" fun d =>
      if kind = "string" then d.text?.map string
      else if kind = "number" then d.number?.map number
      else if kind = "bool" then d.bool?.map bool
      else if kind = "list" then (d.list? >>= List.mapM (decode? isNothing fuel)).map list
      else if kind = "regex" then regexOfData? d
      else none

/-- The value that a record describes. -/
def ofData? (d : Data) : Option Value :=
  decode? Data.isNull (d.depth + 1) d

/-- The value that a record in a tree describes. -/
def ofPart? (d : Data) : Option Value :=
  decode? Data.isVacant (d.depth + 1) d

end Value

/-! ### Parts of a tree -/

namespace Reference

/-- The entries of a mention. -/
def toEntries (ref : Reference) : List (String × Data) :=
  [("name", .text ref.name), ("negated", .bool ref.negated)]
    ++ if ref.isChild then [("isChild", .bool true)] else []

/-- A mention as a record. -/
def toData (ref : Reference) : Data :=
  .record ref.toEntries

/-- The mention that some entries describe. -/
def ofEntries? (entries : List (String × Data)) : Option Reference := do
  return {
    name := ← Data.required entries "name" Data.text?
    negated := ← Data.defaulted entries "negated" false Data.bool?
    isChild := ← Data.defaulted entries "isChild" false Data.bool? }

/-- The keys of a mention. -/
def keys : List String := ["name", "negated", "isChild"]

/-- The mention that a record describes. -/
def ofData? (d : Data) : Option Reference :=
  d.entries? keys >>= ofEntries?

end Reference

namespace Origin

/-- The entries that say how a node came out of a saved query. -/
def toEntries (origin : Origin) : List (String × Data) :=
  (origin.named.map fun ref => ("named", ref.toData)).toList
    ++ [("isChild", .bool origin.isChild)]

/-- How a node came out of a saved query, as its entries say. -/
def ofEntries? (entries : List (String × Data)) : Option Origin := do
  return {
    named := ← Data.optional entries "named" Reference.ofData?
    isChild := ← Data.defaulted entries "isChild" false Data.bool? }

end Origin

namespace Rule

/-- The entries of a rule. -/
def toEntries (rule : Rule) : List (String × Data) :=
  [("field", .text rule.field), ("operator", .text rule.operator.token)]
    ++ (rule.value.map fun value => ("value", value.toData)).toList

/-- The keys of a rule and of its origin. -/
def keys : List String := ["field", "operator", "value", "named", "isChild"]

/-- The rule that some entries describe. -/
def ofEntries? (entries : List (String × Data)) : Option Rule := do
  return {
    field := ← Data.required entries "field" Data.text?
    operator := ← Data.required entries "operator"
      fun d => d.name? Data.isVacant >>= Operator.ofExactToken?
    value := ← Data.optional entries "value" Value.ofPart? }

end Rule

/-- The condition of the given name. -/
def Condition.ofName? (s : String) : Option Condition :=
  [Condition.and, Condition.or].find? fun condition => condition.name = s

/-! ### Trees -/

namespace Query

mutual

/-- A tree as a record. -/
def toData : Query → Data
  | rule x origin => .record (("kind", .text "rule") :: x.toEntries ++ origin.toEntries)
  | group condition negated children origin =>
    .record ([("kind", .text "ruleset"), ("condition", .text condition.name),
      ("not", .bool negated), ("children", .list (allToData children))] ++ origin.toEntries)
  | reference ref => .record (("kind", .text "reference") :: ref.toEntries)

/-- Some trees as records. -/
def allToData : List Query → List Data
  | [] => []
  | q :: rest => q.toData :: allToData rest

end

/-- The keys of a group and of its origin. -/
def groupKeys : List String := ["condition", "not", "children", "named", "isChild"]

/-- The kinds of nodes. -/
def kinds : List String := ["rule", "ruleset", "reference"]

/-- The kind of a node, which below the root may be given by its number. -/
def kind? (isRoot : Bool) : Data → Option String
  | .int n => if isRoot || n < 0 then none else kinds[n.toNat]?
  | d => d.text?

/-- The kind of a node and what else its record or list holds. -/
def split? (isRoot : Bool) : Data → Option (String × Data)
  | .record entries => do
    return (← Data.required entries "kind" (kind? isRoot), .record entries)
  | .list (d :: rest) => do return (← kind? isRoot d, .list rest)
  | _ => none

/-- The tree that a record describes; `fuel` bounds its depth. -/
def decode? : Nat → Bool → Data → Option Query
  | 0, _, _ => none
  | fuel + 1, isRoot, d => do
    let (kind, d) ← split? isRoot d
    if kind = "rule" then
      let entries ← d.entries? Rule.keys
      return rule (← Rule.ofEntries? entries) (← Origin.ofEntries? entries)
    else if kind = "ruleset" then
      let entries ← d.entries? groupKeys
      let condition ← Data.required entries "condition"
        fun d => d.name? Data.isVacant >>= Condition.ofName?
      let negated ← Data.defaulted entries "not" false Data.bool?
      let children ← Data.defaulted entries "children" []
        fun d => d.list? >>= List.mapM (decode? fuel false)
      return group condition negated children (← Origin.ofEntries? entries)
    else if kind = "reference" then
      return reference (← Reference.ofData? d)
    else none

/-- The tree that a record describes. -/
def ofData? (d : Data) : Option Query :=
  decode? (d.depth + 1) true d

end Query

end Sift
