import Sift.Syntax.Reader
import Sift.Text.Letter
import Sift.Number.Decimal

/-!
# Tokens

The parts of a query that are written without layout between their characters: identifiers,
operators, and the literals `Scalar` and `RegexLiteral`. Each function finds the token that a
text begins with.
-/

namespace Sift.Syntax

/-- A literal that is neither a list nor a regex. -/
inductive Scalar where
  | quoted (raw : List Char)
  | number (negative : Bool) (whole fraction : List Char)
  | boolean (b : Bool)
  | bare (text : List Char)
deriving DecidableEq

/-- A regex between slashes, with the letters behind it. -/
structure RegexLiteral where
  body : List Char
  flags : List Char
deriving DecidableEq

/-- The text of a regex. -/
def RegexLiteral.text (literal : RegexLiteral) : List Char :=
  '/' :: literal.body ++ '/' :: literal.flags

/-! ### Runs of characters -/

/-- The lexeme of all characters at the beginning that belong to a class. -/
def run (test : Char → Bool) (cs : List Char) : Lexeme (List Char) :=
  ⟨cs.takeWhile test, cs.takeWhile test, cs.dropWhile test⟩

/-- The same, where there must be one such character. -/
def someRun (test : Char → Bool) (cs : List Char) : Option (Lexeme (List Char)) :=
  if (cs.takeWhile test).isEmpty then none else some (run test cs)

/-! ### Names and operators -/

/-- Whether an identifier may begin with a character. -/
def isIdentifierStart (c : Char) : Bool :=
  c.isAlpha || c = '_'

/-- Whether an identifier may go on with a character. -/
def isIdentifierChar (c : Char) : Bool :=
  c.isAlphanum || c = '_' || c = '.'

/-- An identifier. -/
def identifier : List Char → Option (Lexeme (List Char))
  | c :: rest =>
    if isIdentifierStart c then
      let tail := run isIdentifierChar rest
      some ⟨c :: tail.value, c :: tail.text, tail.rest⟩
    else none
  | [] => none

/-- Whether a character can be part of an operator that is no word. -/
def isOperatorSign (c : Char) : Bool :=
  ['=', '<', '>', '!', '~', '^', '$', '#', '+'].contains c

/-- An operator that is a word, with the exclamation mark it may have. -/
def wordOperator (cs : List Char) : Option (Lexeme (List Char)) :=
  match cs with
  | [] => none
  | c :: rest =>
    if c = '!' then
      (someRun Char.isAlpha rest).map fun word => ⟨c :: word.value, c :: word.text, word.rest⟩
    else someRun Char.isAlpha cs

/-- A token in the place of an operator: a word or a run of signs. -/
def operator (cs : List Char) : Option (Lexeme (List Char)) :=
  match wordOperator cs with
  | some found => some found
  | none => someRun isOperatorSign cs

/-! ### Literals -/

/-- The contents of a quoted string up to its closing quote, which a backslash before it takes
for a part of the contents. -/
def quotedBody (quote : Char) : List Char → List Char × List Char
  | [] => ([], [])
  | c :: rest =>
    if c = '\\' then
      match rest with
      | [] => ([c], [])
      | d :: rest =>
        let (body, rest) := quotedBody quote rest
        (c :: d :: body, rest)
    else if c = quote then ([], c :: rest)
    else
      let (body, rest) := quotedBody quote rest
      (c :: body, rest)

/-- A string in quotes of either kind. -/
def quoted : List Char → Option (Lexeme (List Char))
  | quote :: rest =>
    if quote = '"' ∨ quote = '\x27' then
      match quotedBody quote rest with
      | (body, closing :: rest) => some ⟨body, quote :: body ++ [closing], rest⟩
      | (_, []) => none
    else none
  | [] => none

/-- Whether a character ends a line. -/
def isLineEnd (c : Char) : Bool :=
  c = '\n' || c = '\r'

/-- The contents of a regex up to its closing slash or the end of the line. -/
def regexBody : List Char → List Char × List Char
  | [] => ([], [])
  | c :: rest =>
    if c = '\\' then
      match rest with
      | [] => ([c], [])
      | d :: rest =>
        let (body, rest) := regexBody rest
        (c :: d :: body, rest)
    else if c = '/' || isLineEnd c then ([], c :: rest)
    else
      let (body, rest) := regexBody rest
      (c :: body, rest)

/-- A regex with its flags. -/
def regex : List Char → Option (Lexeme RegexLiteral)
  | '/' :: rest =>
    match regexBody rest with
    | (body, '/' :: rest) =>
      let flags := run Char.isAlpha rest
      let literal : RegexLiteral := ⟨body, flags.value⟩
      some ⟨literal, literal.text, flags.rest⟩
    | _ => none
  | _ => none

/-- Whether a character can be part of a bare word. -/
def isBare (c : Char) : Bool :=
  c.isAlphanum || Text.isWordLetter c || ['_', '.', '-', '@', ':', '*', '%', '?'].contains c

/-- A bare word. -/
def bare (cs : List Char) : Option (Lexeme (List Char)) :=
  someRun isBare cs

/-- Whether a text does not go on with a bare word. -/
def endsWord (cs : List Char) : Bool :=
  !cs.head?.any isBare

/-- The fraction that a number goes on with, if it does. -/
def fraction (cs : List Char) : Lexeme (List Char) :=
  match cs with
  | '.' :: rest =>
    match someRun Char.isDigit rest with
    | some digits => ⟨digits.value, '.' :: digits.text, digits.rest⟩
    | none => ⟨[], [], cs⟩
  | _ => ⟨[], [], cs⟩

/-- A number, which ends where no bare word could go on. -/
def number (cs : List Char) : Option (Lexeme Scalar) :=
  let negative := cs.head? = some '-'
  let signText := if negative then ['-'] else []
  match someRun Char.isDigit (if negative then cs.drop 1 else cs) with
  | none => none
  | some whole =>
    let part := fraction whole.rest
    if endsWord part.rest then
      some ⟨.number negative whole.value part.value, signText ++ whole.text ++ part.text,
        part.rest⟩
    else none

/-- A truth value, which ends where no bare word could go on. -/
def boolean : List Char → Option (Lexeme Scalar)
  | 't' :: 'r' :: 'u' :: 'e' :: rest =>
    if endsWord rest then some ⟨.boolean true, ['t', 'r', 'u', 'e'], rest⟩ else none
  | 'f' :: 'a' :: 'l' :: 's' :: 'e' :: rest =>
    if endsWord rest then some ⟨.boolean false, ['f', 'a', 'l', 's', 'e'], rest⟩ else none
  | _ => none

/-- The characters of a list item that is no literal. -/
def malformed (cs : List Char) : Lexeme (List Char) :=
  run (fun c => !(c = ',' || c = ']' || isLineEnd c)) cs

end Sift.Syntax
