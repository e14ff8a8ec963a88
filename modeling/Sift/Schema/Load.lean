import Sift.Schema.Basic
import Sift.Data.Json
import Sift.Data.Yaml
import Sift.Disk

/-!
# Loading schemas

`Schema.ofData` reads a schema from the contents of a JSON or YAML text and checks that it holds
together: a field stands under its own name, which may be left out, and the default field and the
document field are fields. `Schema.ofFile` reads one from a file. `Field.toData` and
`Entity.toData` write the parts again.
-/

namespace Sift

/-- Why a schema cannot be loaded. -/
inductive SchemaError where
  | unreadable
  | unknownField (field : String)
  | nameMismatch (key name : String)
  | missingFile
  | unsupportedFormat
deriving DecidableEq

/-- The wording of an error. -/
def SchemaError.message : SchemaError → String
  | unreadable => "Parse error"
  | unknownField field => "Unknown field referenced by spec: " ++ field
  | nameMismatch key name =>
    "Field key '" ++ key ++ "' does not match field name '" ++ name ++ "'"
  | missingFile => "IO error"
  | unsupportedFormat => "Unsupported spec format"

/-- An operator, by its exact token. -/
def Operator.ofData? (d : Data) : Option Operator :=
  d.name? Data.isNull >>= Operator.ofExactToken?

/-- A list of operators. -/
def Operator.listOfData? (d : Data) : Option (List Operator) :=
  d.list? >>= List.mapM Operator.ofData?

/-- The tokens of some operators. -/
def Operator.listToData (operators : List Operator) : Data :=
  .list (operators.map fun op => .text op.token)

namespace Field

/-- The keys of a field. -/
def keys : List String :=
  ["name", "displayName", "type", "operators", "defaultOperator", "nullable", "options",
    "dynamicSource"]

/-- A field as it stands in a schema, where its name may be left out. -/
def ofData? (d : Data) : Option Field := do
  let entries ← d.entries? keys
  return {
    name := ← Data.defaulted entries "name" "" Data.text?
    displayName := ← Data.optional entries "displayName" Data.text?
    type := ← Data.required entries "type"
      fun d => d.name? Data.isNull >>= FieldType.ofName?
    operators := ← Data.defaulted entries "operators" [] Operator.listOfData?
    defaultOperator := ← Data.optional entries "defaultOperator" Operator.ofData?
    nullable := ← Data.defaulted entries "nullable" true Data.bool?
    options := ← Data.defaulted entries "options" [] Data.texts?
    dynamicSource := ← Data.optional entries "dynamicSource" Data.text? }

/-- The entries of a field, without those that say nothing. -/
def toData (field : Field) : Data :=
  let entries : List (String × Option Data) := [
    ("name", some (.text field.name)),
    ("displayName", field.displayName.map .text),
    ("type", some (.text field.type.name)),
    ("operators",
      if field.operators.isEmpty then none else some (Operator.listToData field.operators)),
    ("defaultOperator", field.defaultOperator.map fun op => .text op.token),
    ("nullable", some (.bool field.nullable)),
    ("options",
      if field.options.isEmpty then none else some (.list (field.options.map .text))),
    ("dynamicSource", field.dynamicSource.map .text)]
  .record (entries.filterMap fun entry => entry.2.map fun d => (entry.1, d))

end Field

namespace Entity

/-- The keys of an entity. -/
def keys : List String := ["name", "index", "documentFields"]

/-- An entity as it stands in a schema. -/
def ofData? (d : Data) : Option Entity := do
  let entries ← d.entries? keys
  return {
    name := ← Data.required entries "name" Data.text?
    index := ← Data.optional entries "index" Data.text?
    documentFields := ← Data.defaulted entries "documentFields" [] Data.texts? }

/-- The entries of an entity, without an index it does not have. -/
def toData (entity : Entity) : Data :=
  .record (
    ("name", .text entity.name)
      :: (entity.index.map fun index => ("index", Data.text index)).toList
      ++ [("documentFields", .list (entity.documentFields.map .text))])

end Entity

namespace Schema

/-- A map whose keys are of interest only if `key?` knows them. -/
def tableOfData? {α : Type} (key? : String → Option String) (value? : Data → Option α)
    (d : Data) : Option (Table α) := do
  let entries ← d.record?
  let pairs ← entries.mapM fun entry => do
    return (← key? entry.1, ← value? entry.2)
  return Table.ofList pairs

/-- The keys of a schema. -/
def keys : List String := ["fields", "operatorMap", "entities", "defaultField", "documentField"]

/-- A schema as it is written, before it is checked. -/
def ofRawData? (d : Data) : Option Schema := do
  let entries ← d.entries? keys
  return {
    fields := ← Data.defaulted entries "fields" Table.empty (tableOfData? some Field.ofData?)
    operatorMap := ← Data.optional entries "operatorMap"
      (tableOfData? (fun s => (FieldType.ofName? s).map FieldType.name) Operator.listOfData?)
    entities := ← Data.defaulted entries "entities" []
      fun d => d.list? >>= List.mapM Entity.ofData?
    defaultField := ← Data.optional entries "defaultField" Data.text?
    documentField := ← Data.optional entries "documentField" Data.text? }

/-- The field under the key `key`, with its name filled in. -/
def nameField (key : String) (field : Field) : Except SchemaError Field :=
  if field.name = "" then .ok { field with name := key }
  else if field.name = key then .ok field
  else .error (.nameMismatch key field.name)

/-- Checks that a name, if there is one, is that of a field. -/
def checkField (fields : Table Field) : Option String → Except SchemaError Unit
  | none => .ok ()
  | some name => if fields.contains name then .ok () else .error (.unknownField name)

/-- The schema with the names of its fields filled in, if it holds together. -/
def check (schema : Schema) : Except SchemaError Schema := do
  let entries ← schema.fields.entries.mapM fun entry => do
    return (entry.1, ← nameField entry.1 entry.2)
  let fields := Table.ofList entries
  checkField fields schema.defaultField
  checkField fields schema.documentField
  return { schema with fields }

/-- The schema that some contents describe. -/
def ofData (d : Data) : Except SchemaError Schema :=
  match ofRawData? d with
  | some schema => schema.check
  | none => .error .unreadable

/-- The schema of a JSON text. -/
def ofJson (s : String) : Except SchemaError Schema :=
  match Json.read? s with
  | some d => ofData d
  | none => .error .unreadable

/-- The schema of a YAML text. -/
def ofYaml (s : String) : Except SchemaError Schema :=
  match Yaml.read? s with
  | some d => ofData d
  | none => .error .unreadable

/-- The schema in a file, whose extension says how it is written. -/
def ofFile (disk : Disk) (path : Path) : Except SchemaError Schema :=
  match disk.read? path with
  | none => .error .missingFile
  | some s =>
    match path.extension? with
    | some "json" => ofJson s
    | some "yaml" | some "yml" => ofYaml s
    | _ => .error .unsupportedFormat

end Schema

end Sift
