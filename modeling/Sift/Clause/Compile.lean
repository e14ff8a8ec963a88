import Sift.Clause.Basic
import Sift.Clause.Lookup
import Sift.Query.Parser
import Sift.Query.Validation

/-!
# Compilation

`Compiler.compile` turns a tree into a clause for the search engine. The tree must mention no
saved query and have no faults. Tests for exact values are made on the keyword field that stands
beside a field, with those of its stored values that are equal up to case; a rule about the
document field is made on all fields of the document.
-/

namespace Sift

/-- Why a tree cannot be compiled. -/
inductive CompileError where
  | unresolved (name : String)
  | invalid (faults : List Fault)
  | unsupported (error : QueryError)
  | unknownEntity (name : String)
  | lookup (error : LookupError)
deriving DecidableEq

/-- The wording of an error. -/
def CompileError.message : CompileError → String
  | unresolved name => "Unresolved named query reference: " ++ name
  | invalid faults => "Query is invalid: " ++ Fault.summary faults
  | unsupported error => "Query is invalid: " ++ error.message
  | unknownEntity name => "Unknown entity: " ++ name
  | lookup error => error.message

/-- How trees are compiled. -/
structure CompileConfig where
  /-- What is behind the name of a field in that of its keyword field. -/
  keywordSuffix : String := ".keyword"
  /-- Whether the text of a search for words is put into lower case. -/
  lowercaseQueryString : Bool := true

/-- What a tree is compiled against. -/
structure Compiler where
  schema : Schema
  source : ValueSource
  config : CompileConfig := {}
  /-- The fields of a document, on which a rule about the document field is made. -/
  documentFields : List String := []

/-- A compilation may fail, and remembers the values it has asked for. -/
abbrev Compiling : Type → Type :=
  ExceptT CompileError (StateM Memo)

/-! ### Patterns of wildcards -/

/-- The characters that have to be escaped in a pattern. -/
def patternSigns : List Char :=
  ['.', '+', '(', ')', '|', '[', ']', '\x7b', '\x7d', '^', '$', '\\', '/']

/-- The regular expression of one character of a text with wildcards. -/
def wildcardPiece (c : Char) : List Char :=
  if c = '*' ∨ c = '%' then ['.', '*']
  else if c = '?' ∨ c = '_' then ['.']
  else if patternSigns.contains c then ['\\', c]
  else [c]

/-- The regular expression of a text with wildcards, between anchors: `*` and `%` stand for any
run of characters, `?` and `_` for any single one. -/
def likePattern (text : List Char) : List Char :=
  '^' :: text.flatMap wildcardPiece ++ ['$']

/-! ### Search for words -/

/-- Whether a text is a single word. -/
def isWord (cs : List Char) : Bool :=
  !cs.isEmpty && cs.all fun c => Text.isAlphanumeric c || c = '_'

/-- A text with a backslash before every backslash and quote. -/
def escapePhrase (cs : List Char) : List Char :=
  cs.flatMap fun c => if c = '\\' ∨ c = '"' then ['\\', c] else [c]

/-- The search for a text: a word may be a part of a longer one, anything else is a phrase. -/
def wordsQuery (cs : List Char) : List Char :=
  if isWord cs then '*' :: cs ++ ['*'] else '"' :: escapePhrase cs ++ ['"']

namespace Compiler

/-! ### Fields -/

/-- The fields on which a rule about a field is made. -/
def targets (compiler : Compiler) (field : Field) : List String :=
  if compiler.schema.isDocumentField field.name && !compiler.documentFields.isEmpty then
    compiler.documentFields
  else [field.name]

/-- The keyword field beside a field. -/
def keyword (compiler : Compiler) (field : String) : String :=
  field ++ compiler.config.keywordSuffix

/-- A clause that holds of one of the fields on which a rule is made. -/
def fanOut (compiler : Compiler) (field : Field) (clause : String → Clause) : Clause :=
  Clause.anyOf ((compiler.targets field).map clause)

/-! ### Rules -/

/-- A test for presence; a string must also not be empty. -/
def presence (compiler : Compiler) (field : Field) (target : String) : Clause :=
  if field.type = .string then
    .all [.hasField target, .not (.term (compiler.keyword target) (.string ""))]
  else .hasField target

/-- A search for words. -/
def words (compiler : Compiler) (field : Field) (s : String) : Clause :=
  let s := if compiler.config.lowercaseQueryString then Text.lowercase s else s
  .queryString (compiler.targets field) (String.ofList (wordsQuery s.toList))

/-- A match with a pattern. -/
def matching (compiler : Compiler) (field : Field) (pattern : String) (ignoreCase : Bool) :
    Except CompileError Clause :=
  match Pattern.toEngine pattern ignoreCase with
  | .ok converted =>
    .ok (compiler.fanOut field fun target => .regexp (compiler.keyword target) converted)
  | .error fault => .error (.unsupported (.badPattern pattern fault))

/-- A test for one of some terms. -/
def oneOf (field : String) : List Term → Clause
  | [only] => .term field only
  | terms => .terms field terms

/-- The stored values of a keyword field. -/
def storedValues (compiler : Compiler) (field : String) : Compiling (List String) :=
  fun memo =>
    let (result, memo) := memo.values compiler.source field
    (result.mapError .lookup, memo)

/-- The test that a keyword field has one of the stored values among `wanted`, which are in lower
case. -/
def reconciled (field : String) (stored wanted : List String) : Clause :=
  let matched := stored.filter fun value => wanted.contains (Text.lowercase value)
  if matched.isEmpty then .matchNone else oneOf field (matched.map .string)

/-- The test that a field has one of some stored values, up to case. -/
def reconcile (compiler : Compiler) (wanted : List String) (target : String) :
    Compiling Clause := do
  let field := compiler.keyword target
  return reconciled field (← compiler.storedValues field) wanted

/-- The test that a field has one of some values. -/
def exact (compiler : Compiler) (field : Field) (values : List Value) : Compiling Clause :=
  if field.type = .string then do
    let wanted := (values.filterMap Value.string?).map Text.lowercase
    return Clause.anyOf (← (compiler.targets field).mapM (compiler.reconcile wanted))
  else return oneOf field.name (values.filterMap Value.toTerm?)

/-- The error of a rule whose value cannot be compiled. -/
def unsupportedRule (rule : Rule) : CompileError :=
  let found := (rule.value.map Value.kind).getD "nothing"
  .unsupported (.malformedValue
    (rule.field ++ " " ++ rule.operator.positive.token ++ " " ++ found))

/-- The clause of a rule as if its operator were the positive one. -/
def positiveClause (compiler : Compiler) (field : Field) (rule : Rule) : Compiling Clause :=
  match rule.operator.positive, rule.value with
  | .present, _ => return compiler.fanOut field (compiler.presence field)
  | .contains, some (.regex pattern ignoreCase) =>
    liftM (compiler.matching field pattern ignoreCase)
  | .like, some (.regex pattern ignoreCase) =>
    liftM (compiler.matching field pattern ignoreCase)
  | .contains, some (.string s) => return compiler.words field s
  | .like, some (.string s) =>
    liftM (compiler.matching field (String.ofList (likePattern s.toList)) true)
  | .eq, some value => compiler.exact field [value]
  | .isIn, some (.list values) => compiler.exact field values
  | _, _ => throw (unsupportedRule rule)

/-- Whether a rule is a test for presence with the value false. -/
def isDenial (rule : Rule) : Bool :=
  rule.operator.positive = .present && rule.value = some (.bool false)

/-- The clause of a rule. -/
def rule (compiler : Compiler) (rule : Rule) : Compiling Clause :=
  match compiler.schema.field? rule.field with
  | none => throw (.unsupported (.unknownField rule.field))
  | some field =>
    match Bound.ofOperator? rule.operator with
    | some bound =>
      match rule.value.bind Value.toTerm? with
      | some term => return .range field.name bound term
      | none => throw (.unsupported (.syntaxError 0 "value"))
    | none => do
      let clause ← compiler.positiveClause field rule
      return clause.notIf (rule.operator.isNegative != isDenial rule)

/-! ### Trees -/

/-- The clause of a group without children. -/
def emptyClause : Condition → Clause
  | .and => .matchAll
  | .or => .matchNone

/-- The clause of a group that has children. -/
def joined (condition : Condition) (children : List Clause) : Clause :=
  match condition with
  | .and => .all children
  | .or => .any children

/-- The clause of a group. -/
def groupClause (condition : Condition) (negated : Bool) (children : List Clause) : Clause :=
  (if children.isEmpty then emptyClause condition else joined condition children).notIf negated

mutual

/-- The clause of a tree. -/
def query (compiler : Compiler) : Query → Compiling Clause
  | .rule x _ => compiler.rule x
  | .group condition negated children _ => do
    return groupClause condition negated (← compiler.queries children)
  | .reference ref => throw (.unresolved ref.name)

/-- The clauses of some trees, one after the other. -/
def queries (compiler : Compiler) : List Query → Compiling (List Clause)
  | [] => return []
  | q :: rest => do
    let clause ← compiler.query q
    let clauses ← compiler.queries rest
    return clause :: clauses

end

/-- The clause of a tree that has been checked. -/
def compiling (compiler : Compiler) (q : Query) : Compiling Clause :=
  match q.references with
  | name :: _ => throw (.unresolved name)
  | [] =>
    match q.faults compiler.schema [] with
    | [] => compiler.query q
    | faults => throw (.invalid faults)

/-- The clause of a tree, and the keyword fields that the source was asked for. -/
def compile (compiler : Compiler) (q : Query) : Except CompileError Clause × List String :=
  let (result, memo) := (compiler.compiling q).run.run {}
  (result, memo.asked)

/-- The clause of a tree about the documents of an entity, and the keyword fields that the source
was asked for. -/
def compileFor (compiler : Compiler) (entity : String) (q : Query) :
    Except CompileError Clause × List String :=
  match compiler.schema.entity? entity with
  | none => (.error (.unknownEntity entity), [])
  | some found => { compiler with documentFields := found.documentFields }.compile q

end Compiler

end Sift
