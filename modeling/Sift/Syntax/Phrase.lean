import Sift.Syntax.Token

/-!
# Phrases

A `Phrase` is a query as it is written, before its names and values are looked at. `readQuery`
reads one: `|` binds weaker than `&`, and `&` weaker than `!`. A lone quoted string is a query of
its own.
-/

namespace Sift.Syntax

/-- An item of a list, which may be no literal. -/
inductive Item where
  | scalar (scalar : Scalar)
  | malformed (text : List Char)
deriving DecidableEq

/-- A value as it is written. -/
inductive Literal where
  | scalar (scalar : Scalar)
  | list (items : List Item)
  | regex (regex : RegexLiteral)
deriving DecidableEq

/-- A query as it is written. A comparison knows where its operator ends, and a name where it
begins. -/
inductive Phrase where
  | anyOf (operands : List Phrase)
  | allOf (operands : List Phrase)
  | not (operand : Phrase)
  | empty
  | group (inner : Phrase)
  | comparison (field operator : List Char) (operatorEnd : Nat) (value : Option Literal)
  | name (text : List Char) (start : Nat)

/-- A whole text: a lone quoted string, which begins at `start`, or a phrase, or nothing. -/
inductive Sentence where
  | freeText (raw : List Char) (start : Nat)
  | phrase (phrase : Phrase)
  | blank

open Reader

/-! ### Values -/

/-- Reads a quoted string. -/
def readQuoted : Reader (List Char) :=
  construct .quoted (lexeme quoted)

/-- Reads a literal that may stand in a list. -/
def readScalar : Reader Scalar :=
  ((Scalar.quoted <$> readQuoted).or (construct .number (lexeme number))).or
    ((construct .boolean (lexeme boolean)).or
      (Scalar.bare <$> construct .bare (lexeme bare)))

/-- Reads a list item. What is no literal is read up to the next separator. -/
def readItem : Reader Item :=
  (do
    let scalar ← construct .scalar readScalar
    layout
    before [',', ']']
    return Item.scalar scalar).or
  (Item.malformed <$> lexeme fun cs => some (malformed cs))

/-- Reads a list. -/
def readList : Reader (List Item) :=
  construct .list <|
    (do
      sign '['
      layout
      sign ']'
      return []).or
    (do
      sign '['
      layout
      let items ← separated ',' readItem
      layout
      sign ']'
      return items)

/-- Reads a value. -/
def readLiteral : Reader Literal :=
  construct .value <|
    (Literal.regex <$> construct .regex (lexeme regex)).or <|
    (Literal.scalar <$> (Scalar.quoted <$> readQuoted)).or <|
    (Literal.list <$> readList).or <|
    (Literal.scalar <$> construct .number (lexeme number)).or <|
    (Literal.scalar <$> construct .boolean (lexeme boolean)).or <|
    (fun text => Literal.scalar (.bare text)) <$> construct .bare (lexeme bare)

/-! ### Phrases -/

/-- Reads an identifier. -/
def readIdentifier : Reader (List Char) :=
  construct .identifier (lexeme identifier)

/-- Reads a comparison. -/
def readComparison : Reader Phrase :=
  construct .comparison do
    let field ← readIdentifier
    layout
    let op ← construct .operator (lexeme operator)
    let operatorEnd ← place
    layout
    let value ← optional readLiteral
    return .comparison field op operatorEnd value

/-- Reads a lone identifier. -/
def readName : Reader Phrase :=
  construct .name do
    let start ← place
    let text ← readIdentifier
    return .name text start

/-- Reads a parenthesis around what `inner` reads, or around nothing. -/
def readGroup (inner : Reader Phrase) : Reader Phrase :=
  construct .group do
    sign '('
    layout
    let found ← optional inner
    layout
    sign ')'
    return found.elim .empty .group

/-- Reads an operand without its exclamation mark. -/
def readPrimary (inner : Reader Phrase) : Reader Phrase :=
  construct .primary ((readGroup inner).or (readComparison.or readName))

/-- Reads an operand. -/
def readOperand (inner : Reader Phrase) : Reader Phrase :=
  construct .operand do
    let negation ← optional (construct .negation (sign '!'))
    layout
    let phrase ← readPrimary inner
    return if negation.isSome then .not phrase else phrase

/-- Reads operands joined by `&`. -/
def readAllOf (inner : Reader Phrase) : Reader Phrase :=
  construct .allOf (Phrase.allOf <$> separated '&' (readOperand inner))

/-- Reads operands joined by `|`. -/
def readAnyOf (inner : Reader Phrase) : Reader Phrase :=
  construct .anyOf (Phrase.anyOf <$> separated '|' (readAllOf inner))

/-- Reads a phrase in which groups are nested less than `depth` times. -/
def readPhrase : Nat → Reader Phrase
  | 0 => readAnyOf fun _ trace => (none, trace)
  | depth + 1 => readAnyOf (readPhrase depth)

/-- Reads a quoted string that is all there is. -/
def readFreeText : Reader Sentence :=
  construct .freeText do
    let start ← place
    let raw ← readQuoted
    layout
    beforeEnd
    return .freeText raw start

/-- Reads a whole text. Groups are nested less deeply than the text is long. -/
def readQuery : Reader Sentence :=
  construct .query do
    layout
    let found ← optional
      (readFreeText.or fun cursor trace =>
        (Sentence.phrase <$> readPhrase cursor.rest.length) cursor trace)
    layout
    atEnd
    return found.getD .blank

/-- The sentence that a text is, or else the trace of what was looked for. -/
def sentence (cs : List Char) : Except Trace Sentence :=
  match readQuery ⟨0, cs⟩ {} with
  | (some (found, _), _) => .ok found
  | (none, trace) => .error trace

end Sift.Syntax
