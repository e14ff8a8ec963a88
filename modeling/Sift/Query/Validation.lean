import Sift.Query.Basic
import Sift.Schema.Basic
import Sift.Pattern.Engine

/-!
# Validation

`Query.faults` lists everything that is wrong with a tree under a schema, in the order of the
tree: fields that do not exist, operators that a field does not have, values of a wrong kind, and
expansions of saved queries inside themselves.
-/

namespace Sift

/-- Something that is wrong with a tree. -/
inductive Fault where
  | unknownField (field : String)
  | operatorNotAllowed (field : String) (operator : Operator)
  | missingValue (field : String) (operator : Operator)
  | unexpectedValue (field : String) (operator : Operator) (found : String)
  | typeMismatch (field expected found : String)
  | listRequired (field : String) (operator : Operator)
  | valueNotInOptions (field value : String)
  | invalidRegex (field pattern : String) (fault : Pattern.Fault)
  | cyclicReference (name : String)
deriving DecidableEq

namespace Fault

/-- The wording of a fault. -/
def message : Fault → String
  | unknownField field => "Unknown field: " ++ field
  | operatorNotAllowed field operator =>
    "Operator '" ++ operator.token ++ "' is not allowed for field " ++ field
  | missingValue field operator =>
    "Operator '" ++ operator.token ++ "' on field " ++ field ++ " requires a value"
  | unexpectedValue field operator found =>
    "Operator '" ++ operator.token ++ "' on field " ++ field ++ " takes no " ++ found ++ " value"
  | typeMismatch field expected found =>
    "Type mismatch on field " ++ field ++ ": expected " ++ expected ++ ", found " ++ found
  | listRequired field operator =>
    "Operator '" ++ operator.token ++ "' on field " ++ field ++ " requires a list value"
  | valueNotInOptions field value =>
    "Value '" ++ value ++ "' is not an option of field " ++ field
  | invalidRegex field pattern fault =>
    "Invalid regex on field " ++ field ++ ": Cannot translate regex /" ++ pattern ++ "/: "
      ++ fault.message
  | cyclicReference name => "Cyclic reference to named query " ++ name

/-- The wording of several faults together. -/
def summary (faults : List Fault) : String :=
  "Validation failed: " ++ "; ".intercalate (faults.map message)

end Fault

/-! ### Values -/

/-- Whether an operator can take a regex. -/
def Operator.takesRegex (operator : Operator) : Bool :=
  operator.positive = .contains || operator.positive = .like

/-- Whether an operator asks for one of the values offered for a field. -/
def Operator.picksOption (operator : Operator) : Bool :=
  operator.positive = .eq || operator.positive = .isIn

/-- Whether a single value is of the type of a field. -/
def FieldType.accepts (type : FieldType) (operator : Operator) : Value → Bool
  | .string _ => type = .string || type = .date
  | .number _ => type = .number || type = .date
  | .bool _ => type = .boolean
  | .regex .. => type = .string && operator.takesRegex
  | .list _ => false

/-- The words for the values that a type accepts. -/
def FieldType.expected (type : FieldType) (operator : Operator) : String :=
  match type with
  | .string => if operator.takesRegex then "string or regex" else "string"
  | .number => "number"
  | .date => "date string or number"
  | .boolean => "bool"

/-- The fault of a regex that cannot be written for the engine. -/
def regexFaults (field : Field) : Value → List Fault
  | .regex pattern ignoreCase =>
    match Pattern.toEngine pattern ignoreCase with
    | .ok _ => []
    | .error fault => [.invalidRegex field.name pattern fault]
  | _ => []

/-- The fault of a string that is not among the values listed for a field, where the case of
letters does not matter. -/
def optionFaults (field : Field) (operator : Operator) (value : Value) : List Fault :=
  match field.valueOptions, value with
  | .listed options, .string s =>
    let listed := (options.map Text.lowercase).contains (Text.lowercase s)
    if operator.picksOption && !listed then [.valueNotInOptions field.name s] else []
  | _, _ => []

/-- The faults of a single value. -/
def valueFaults (field : Field) (operator : Operator) (value : Value) : List Fault :=
  if field.type.accepts operator value then
    regexFaults field value ++ optionFaults field operator value
  else [.typeMismatch field.name (field.type.expected operator) value.kind]

/-- The faults of the value of a rule, or of its absence. -/
def operandFaults (field : Field) (rule : Rule) : List Fault :=
  match rule.operator.positive, rule.value with
  | .present, none => []
  | .present, some (.bool _) => []
  | .present, some other => [.unexpectedValue rule.field rule.operator other.kind]
  | _, none => [.missingValue rule.field rule.operator]
  | .isIn, some (.list items) => items.flatMap (valueFaults field rule.operator)
  | .isIn, some _ => [.listRequired rule.field rule.operator]
  | _, some value => valueFaults field rule.operator value

/-! ### Trees -/

/-- The faults of a rule. -/
def Rule.faults (schema : Schema) (rule : Rule) : List Fault :=
  match schema.field? rule.field with
  | none => [.unknownField rule.field]
  | some field =>
    (if (schema.operatorsFor field).contains rule.operator then []
      else [.operatorNotAllowed rule.field rule.operator])
    ++ operandFaults field rule

namespace Query

/-- The fault of a node that is the expansion of a saved query being expanded around it. -/
def cycleFaults (ancestors : List String) (q : Query) : List Fault :=
  match q.named with
  | some ref => if ancestors.contains ref.name then [.cyclicReference ref.name] else []
  | none => []

/-- The faults of a node without those of its children. -/
def nodeFaults (schema : Schema) (ancestors : List String) (q : Query) : List Fault :=
  q.cycleFaults ancestors ++
    match q with
    | rule x _ => x.faults schema
    | _ => []

/-- Everything that is wrong with a tree inside the expansions of the saved queries
`ancestors`. -/
def faults (schema : Schema) (ancestors : List String) (q : Query) : List Fault :=
  q.nodes.flatMap (nodeFaults schema ancestors)

end Query

end Sift
