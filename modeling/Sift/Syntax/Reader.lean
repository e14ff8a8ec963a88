/-!
# Readers

A `Reader` takes a part of a text and hands on the rest, as a `Cursor`. It also keeps a `Trace`:
the furthest place at which some construct was looked for in vain, and the constructs that were
looked for there. The trace never influences what is read; it is there to say what was expected
when a text is rejected.
-/

namespace Sift.Syntax

/-! ### Constructs -/

/-- A part of the language that can be expected at a place in a text, in the order in which
expectations are listed. -/
inductive Construct where
  | endOfInput | query | freeText | anyOf | allOf | operand | negation | primary | group
  | comparison | name | identifier | operator | value | scalar | regex | quoted | list
  | number | boolean | bare
deriving DecidableEq, Repr

namespace Construct

/-- Every construct in order. -/
def all : List Construct :=
  [endOfInput, query, freeText, anyOf, allOf, operand, negation, primary, group, comparison,
    name, identifier, operator, value, scalar, regex, quoted, list, number, boolean, bare]

/-- The words for a construct in an error message. -/
def describe : Construct → String
  | endOfInput => "end of input"
  | anyOf | allOf | operand | primary => "expression"
  | negation => "'!'"
  | group => "'('"
  | comparison => "comparison"
  | identifier | name => "identifier"
  | operator => "operator"
  | value | scalar | bare => "value"
  | regex => "regex literal"
  | quoted | freeText => "quoted string"
  | list => "list"
  | number => "number"
  | boolean => "boolean"
  | query => "token"

end Construct

/-! ### Traces -/

/-- The furthest place at which a construct was looked for in vain, and what was looked for. -/
structure Trace where
  furthest : Nat := 0
  expected : List Construct := []

namespace Trace

/-- The number of constructs expected at a place. -/
def countAt (trace : Trace) (place : Nat) : Nat :=
  if place = trace.furthest then trace.expected.length else 0

/-- Notes that a construct is missing at a place where `before` constructs had been expected when
it was looked for. It takes the place of its own parts, unless only one of them was noted, which
then says more. -/
def note (trace : Trace) (construct : Construct) (place before : Nat) : Trace :=
  if trace.countAt place = before + 1 then trace
  else if place < trace.furthest then trace
  else if place = trace.furthest then
    { trace with expected := trace.expected.take before ++ [construct] }
  else { furthest := place, expected := [construct] }

/-- A list in which equal neighbours have been merged. -/
def merge : List String → List String
  | a :: b :: rest => if a = b then merge (b :: rest) else a :: merge (b :: rest)
  | short => short

/-- The words for what was expected at the furthest place. -/
def describe (trace : Trace) : String :=
  if trace.expected.isEmpty then "end of input"
  else
    let found := Construct.all.filter fun construct => trace.expected.contains construct
    " or ".intercalate (merge (found.map Construct.describe))

end Trace

/-! ### Cursors -/

/-- The number of bytes that some characters take. -/
def byteCount (cs : List Char) : Nat :=
  cs.foldr (fun c n => c.utf8Size + n) 0

/-- A place in a text: the number of bytes before it, and what follows. -/
structure Cursor where
  offset : Nat
  rest : List Char

/-- A part of a text at its beginning: what it stands for, its characters, and what follows. -/
structure Lexeme (α : Type) where
  value : α
  text : List Char
  rest : List Char

/-- The place behind the characters `text`. -/
def Cursor.advance (cursor : Cursor) (text rest : List Char) : Cursor where
  offset := cursor.offset + byteCount text
  rest

/-- Whether a character separates tokens without being part of one. -/
def isLayout (c : Char) : Bool :=
  c = ' ' || c = '\t' || c = '\r' || c = '\n'

/-- The place behind the layout at a place. -/
def Cursor.skip (cursor : Cursor) : Cursor :=
  cursor.advance (cursor.rest.takeWhile isLayout) (cursor.rest.dropWhile isLayout)

/-! ### Readers -/

/-- What reads a part of a text, and notes what it looks for in vain. -/
def Reader (α : Type) : Type :=
  Cursor → Trace → Option (α × Cursor) × Trace

namespace Reader

variable {α β : Type}

/-- Reads nothing. -/
def done (a : α) : Reader α :=
  fun cursor trace => (some (a, cursor), trace)

/-- Reads one part and then another that may depend on it. -/
def andThen (first : Reader α) (second : α → Reader β) : Reader β :=
  fun cursor trace =>
    match first cursor trace with
    | (some (a, cursor), trace) => second a cursor trace
    | (none, trace) => (none, trace)

instance : Monad Reader where
  pure := done
  bind := andThen

/-- Reads what `first` reads, or else what `second` reads at the same place. -/
def or (first second : Reader α) : Reader α :=
  fun cursor trace =>
    match first cursor trace with
    | (some found, trace) => (some found, trace)
    | (none, trace) => second cursor trace

/-- Reads a part that may be missing. -/
def optional (reader : Reader α) : Reader (Option α) :=
  (some <$> reader).or (done none)

/-- The number of bytes before the present place. -/
def place : Reader Nat :=
  fun cursor trace => (some (cursor.offset, cursor), trace)

/-- Skips layout. -/
def layout : Reader Unit :=
  fun cursor trace => (some ((), cursor.skip), trace)

/-- Reads what a function on the text finds. -/
def lexeme (find : List Char → Option (Lexeme α)) : Reader α :=
  fun cursor trace =>
    match find cursor.rest with
    | some found => (some (found.value, cursor.advance found.text found.rest), trace)
    | none => (none, trace)

/-- Reads one given character. -/
def sign (c : Char) : Reader Unit :=
  lexeme fun
    | d :: rest => if d = c then some ⟨(), [d], rest⟩ else none
    | [] => none

/-- Checks that the text goes on with one of some characters, and reads nothing. -/
def before (cs : List Char) : Reader Unit :=
  fun cursor trace =>
    (if cursor.rest.head?.any cs.contains then some ((), cursor) else none, trace)

/-- Reads a construct and notes it if it is missing. -/
def construct (kind : Construct) (reader : Reader α) : Reader α :=
  fun cursor trace =>
    match reader cursor trace with
    | (some found, trace) => (some found, trace)
    | (none, after) =>
      (none, after.note kind cursor.offset (trace.countAt cursor.offset))

/-- Reads the end of the text. -/
def atEnd : Reader Unit :=
  construct .endOfInput fun cursor trace =>
    (if cursor.rest.isEmpty then some ((), cursor) else none, trace)

/-- Reads the end of the text without leaving the present place. -/
def beforeEnd : Reader Unit :=
  fun cursor trace =>
    match atEnd cursor trace with
    | (some _, trace) => (some ((), cursor), trace)
    | (none, trace) => (none, trace)

/-- Reads at most `count` further operands, each behind a sign. -/
def operands (c : Char) (operand : Reader α) : Nat → Reader (List α)
  | 0 => done []
  | count + 1 =>
    (do
      layout
      sign c
      layout
      let first ← operand
      let others ← operands c operand count
      return first :: others).or (done [])

/-- Reads one or more operands with a sign between each two. -/
def separated (c : Char) (operand : Reader α) : Reader (List α) := do
  let first ← operand
  let others ← fun cursor trace => operands c operand cursor.rest.length cursor trace
  return first :: others

end Reader

end Sift.Syntax
