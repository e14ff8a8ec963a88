import Sift.Operator
import Sift.Table

/-!
# Schemas

A `Schema` names the fields that queries may test, with the type of their values and the
operators allowed on them, and the kinds of documents that can be searched. `Schema.operatorsFor`
settles which operators a field has.
-/

namespace Sift

/-- The type of the values of a field. -/
inductive FieldType where
  | string | number | boolean | date
deriving DecidableEq, Repr

namespace FieldType

/-- Every type. -/
def all : List FieldType :=
  [string, number, boolean, date]

/-- The name of a type. -/
def name : FieldType → String
  | string => "string"
  | number => "number"
  | boolean => "boolean"
  | date => "date"

/-- The type of the given name. -/
def ofName? (s : String) : Option FieldType :=
  all.find? fun type => type.name = s

/-- The operators of a type when a schema says nothing else. -/
def operators : FieldType → List Operator
  | string =>
    [.eq, .notEq, .contains, .notContains, .like, .notLike, .isIn, .notIn, .present, .absent]
  | number => [.eq, .notEq, .gt, .gte, .lt, .lte, .isIn, .notIn, .present, .absent]
  | boolean => [.eq, .notEq, .present, .absent]
  | date => [.eq, .notEq, .gt, .gte, .lt, .lte, .present, .absent]

end FieldType

/-- Where the values offered for a field come from. -/
inductive ValueOptions where
  | free
  | listed (options : List String)
  | dynamic (source : String)
deriving DecidableEq

/-- A field that queries may test. -/
structure Field where
  name : String
  type : FieldType
  displayName : Option String := none
  /-- The operators allowed on the field; none means that its type settles them. -/
  operators : List Operator := []
  defaultOperator : Option Operator := none
  /-- Whether a document may lack the field. -/
  nullable : Bool := true
  options : List String := []
  dynamicSource : Option String := none
deriving DecidableEq

/-- Where the values offered for a field come from; a dynamic source goes before a list. -/
def Field.valueOptions (field : Field) : ValueOptions :=
  match field.dynamicSource with
  | some source => .dynamic source
  | none => if field.options.isEmpty then .free else .listed field.options

/-- A kind of documents, with the fields that a search over whole documents looks at. -/
structure Entity where
  name : String
  index : Option String := none
  documentFields : List String := []
deriving DecidableEq

/-- What queries may talk about. -/
structure Schema where
  fields : Table Field := Table.empty
  /-- The operators of each type, by the name of the type. -/
  operatorMap : Option (Table (List Operator)) := none
  entities : List Entity := []
  /-- The field that a query without an operator is about. -/
  defaultField : Option String := none
  /-- The field that stands for the fields of a whole document. -/
  documentField : Option String := none

namespace Schema

/-- The field of a name. -/
def field? (schema : Schema) (name : String) : Option Field :=
  schema.fields.get? name

/-- Whether there is a field of a name. -/
def hasField (schema : Schema) (name : String) : Bool :=
  schema.fields.contains name

/-- The first entity of a name. -/
def entity? (schema : Schema) (name : String) : Option Entity :=
  schema.entities.find? fun entity => entity.name = name

/-- Whether a name is that of the field that stands for whole documents. -/
def isDocumentField (schema : Schema) (name : String) : Bool :=
  schema.documentField = some name

/-- The field that a query without an operator is about. -/
def shorthandField? (schema : Schema) : Option Field :=
  schema.defaultField >>= schema.field?

/-- The operators of a type. -/
def typeOperators (schema : Schema) (type : FieldType) : List Operator :=
  match schema.operatorMap >>= fun map => map.get? type.name with
  | some operators => operators
  | none => type.operators

/-- The operators allowed on a field: its own if it has any, else those of its type, which on a
field that no document lacks leave out the tests for presence. -/
def operatorsFor (schema : Schema) (field : Field) : List Operator :=
  if !field.operators.isEmpty then field.operators
  else if field.nullable then schema.typeOperators field.type
  else (schema.typeOperators field.type).filter Operator.requiresValue

/-- The operator of a field when none is written. -/
def defaultOperatorFor (schema : Schema) (field : Field) : Option Operator :=
  match field.defaultOperator with
  | some op => some op
  | none => (schema.operatorsFor field).head?

end Schema

end Sift
