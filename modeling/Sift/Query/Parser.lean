import Sift.Query.Basic
import Sift.Schema.Basic
import Sift.Pattern.Engine
import Sift.Syntax.Phrase
import Sift.Syntax.Delimiter
import Sift.Text.Blank

/-!
# Reading queries

`Query.parse` reads the text of a query against a schema. The delimiters of the text are checked
first, then it is read as a phrase, and then the phrase is turned into a tree by
`Syntax.Sentence.toQuery`: names are looked up in the schema, values are read, and a chain of
operands takes in the operands of a chain of the same kind.
-/

namespace Sift

/-- Why a text is no query. -/
inductive QueryError where
  | syntaxError (place : Nat) (expected : String)
  | unknownField (field : String)
  | unknownOperator (field operator : String)
  | malformedValue (token : String)
  | unmatchedParen (place : Nat)
  | badPattern (pattern : String) (fault : Pattern.Fault)
deriving DecidableEq

/-- The wording of an error. -/
def QueryError.message : QueryError → String
  | syntaxError place expected =>
    "Syntax error at position " ++ toString place ++ ": expected " ++ expected
  | unknownField field => "Unknown field: " ++ field
  | unknownOperator field operator =>
    "Unknown operator '" ++ operator ++ "' for field " ++ field
  | malformedValue token => "Malformed value: " ++ token
  | unmatchedParen place => "Unmatched parenthesis at position " ++ toString place
  | badPattern pattern fault => "Cannot translate regex /" ++ pattern ++ "/: " ++ fault.message

/-- Whether a name can be that of a saved query. -/
def isReferenceName : List Char → Bool
  | [] => false
  | c :: rest => c.isUpper && rest.all fun d => d.isAlphanum || d = '_'

namespace Query

/-! ### Chains -/

/-- The operands that an operand contributes to a chain: its own, if it is a chain of the same
kind that is neither negated nor empty nor the expansion of a saved query, or else itself. -/
def spliced (condition : Condition) : Query → List Query
  | group c negated children origin =>
    if c = condition && !negated && origin.named.isNone && !children.isEmpty then children
    else [group c negated children origin]
  | q => [q]

/-- A chain of operands. A single operand is returned as it is. -/
def chain (condition : Condition) : List Query → Query
  | [only] => only
  | operands => join condition (operands.flatMap (spliced condition))

end Query

namespace Syntax

/-! ### Values -/

/-- The contents of a quoted string, where a backslash before a quote or backslash is left out. -/
def unescape : List Char → List Char
  | [] => []
  | c :: rest =>
    if c = '\\' then
      match rest with
      | [] => [c]
      | d :: rest =>
        if d = '"' ∨ d = '\x27' ∨ d = '\\' then d :: unescape rest
        else c :: d :: unescape rest
    else c :: unescape rest

/-- The value of a literal that is neither a list nor a regex. -/
def Scalar.toValue : Scalar → Value
  | quoted raw => .string (String.ofList (unescape raw))
  | number negative whole fraction => .number (Number.ofDigits negative whole fraction)
  | boolean b => .bool b
  | bare text => .string (String.ofList text)

/-- The value of a list item. -/
def Item.toValue : Item → Except QueryError Value
  | scalar s => .ok s.toValue
  | malformed text => .error (.malformedValue (String.ofList (Text.trim text)))

/-- The value of a regex, which must be one that the search engine can match. -/
def RegexLiteral.toValue (literal : RegexLiteral) : Except QueryError Value :=
  if literal.flags = [] ∨ literal.flags = ['i'] then
    let pattern := String.ofList literal.body
    let ignoreCase := literal.flags = ['i']
    match Pattern.toEngine pattern ignoreCase with
    | .ok _ => .ok (.regex pattern ignoreCase)
    | .error fault => .error (.badPattern pattern fault)
  else .error (.malformedValue (String.ofList literal.text))

/-- The value of a literal. -/
def Literal.toValue : Literal → Except QueryError Value
  | scalar s => .ok s.toValue
  | list items => (items.mapM Item.toValue).map .list
  | regex literal => literal.toValue

/-! ### Phrases -/

/-- The rule about the default field with its default operator. -/
def shorthand (schema : Schema) (literal : List Char) (place : Nat) :
    Except QueryError Query :=
  match schema.shorthandField? with
  | none => .error (.syntaxError place "comparison")
  | some field =>
    let operator := (schema.defaultOperatorFor field).getD .contains
    .ok (.ofRule ⟨field.name, operator, some (.string (String.ofList literal))⟩)

/-- The rule that a comparison states. -/
def comparisonRule (schema : Schema) (fieldText operatorText : List Char) (operatorEnd : Nat)
    (value : Option Literal) : Except QueryError Query :=
  let field := String.ofList fieldText
  if !schema.hasField field then .error (.unknownField field)
  else
    match Operator.ofToken? (String.ofList operatorText) with
    | none => .error (.unknownOperator field (String.ofList operatorText))
    | some operator =>
      match value with
      | some literal =>
        literal.toValue.map fun value => .ofRule ⟨field, operator, some value⟩
      | none =>
        if operator.requiresValue then .error (.syntaxError operatorEnd "value")
        else .ok (.ofRule ⟨field, operator, none⟩)

/-- What a lone identifier means: a saved query, or if it is the whole text, what is looked for
in the default field. -/
def nameQuery (schema : Schema) (whole text : List Char) (start : Nat) :
    Except QueryError Query :=
  let name := String.ofList text
  if schema.hasField name then .error (.syntaxError (start + byteCount text) "operator")
  else if isReferenceName text then .ok (.reference { name })
  else if text = whole then shorthand schema text start
  else .error (.syntaxError start "comparison, group or named query")

mutual

/-- The tree of a phrase in the text `whole`. -/
def Phrase.toQuery (schema : Schema) (whole : List Char) : Phrase → Except QueryError Query
  | .anyOf operands => (allToQueries schema whole operands).map (Query.chain .or)
  | .allOf operands => (allToQueries schema whole operands).map (Query.chain .and)
  | .not operand => (operand.toQuery schema whole).map Query.negate
  | .empty => .ok .everything
  | .group inner => inner.toQuery schema whole
  | .comparison field operator operatorEnd value =>
    comparisonRule schema field operator operatorEnd value
  | .name text start => nameQuery schema whole text start

/-- The trees of some phrases in the text `whole`. -/
def allToQueries (schema : Schema) (whole : List Char) :
    List Phrase → Except QueryError (List Query)
  | [] => .ok []
  | phrase :: rest =>
    match phrase.toQuery schema whole with
    | .error e => .error e
    | .ok q => (allToQueries schema whole rest).map (q :: ·)

end

/-- The tree of a whole text. -/
def Sentence.toQuery (schema : Schema) (whole : List Char) :
    Sentence → Except QueryError Query
  | freeText raw start => shorthand schema (unescape raw) start
  | phrase p => p.toQuery schema whole
  | blank => .ok .everything

end Syntax

/-! ### Texts -/

namespace Query

/-- The error that a fault of the delimiters is. -/
def delimiterError : Syntax.DelimiterFault → QueryError
  | .openLiteral firstLine => .malformedValue (String.ofList firstLine)
  | .unmatched place => .unmatchedParen place

/-- The error that a text is rejected with after a trace. -/
def traceError (trace : Syntax.Trace) : QueryError :=
  .syntaxError trace.furthest trace.describe

/-- Reads the text of a query whose delimiters are in order. -/
def parseDelimited (schema : Schema) (cs : List Char) : Except QueryError Query :=
  match Syntax.sentence cs with
  | .error trace => .error (traceError trace)
  | .ok sentence => sentence.toQuery schema (Text.trim cs)

/-- Reads the characters of a query. A blank text is met by every document. -/
def parseChars (schema : Schema) (cs : List Char) : Except QueryError Query :=
  if (Text.trim cs).isEmpty then .ok everything
  else
    match Syntax.checkDelimiters cs with
    | .error fault => .error (delimiterError fault)
    | .ok () => parseDelimited schema cs

/-- Reads the text of a query. -/
def parse (schema : Schema) (s : String) : Except QueryError Query :=
  parseChars schema s.toList

end Query

end Sift
