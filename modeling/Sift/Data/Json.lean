import Sift.Data.Basic
import Sift.Number.Decimal

/-!
# JSON

`Json.read?` reads a JSON text, `Json.compact` writes one without spaces, and `Json.indented`
writes one that has an entry a line. A record keeps its entries in order, and all of them when a
key stands twice. A string with half a character in it is unreadable, and so is a record with such
a key; what stands beside it can be read all the same.
-/

namespace Sift.Json

/-! ### Reading -/

/-- The text behind the layout it begins with. -/
def skip (cs : List Char) : List Char :=
  cs.dropWhile fun c => c = ' ' || c = '\t' || c = '\n' || c = '\r'

/-- The value of a hexadecimal digit. -/
def hexDigit? (c : Char) : Option Nat :=
  if c.isDigit then some (c.toNat - 48)
  else if 'a' ≤ c ∧ c ≤ 'f' then some (c.toNat - 87)
  else if 'A' ≤ c ∧ c ≤ 'F' then some (c.toNat - 55)
  else none

/-- The number written by four hexadecimal digits, and the text behind them. -/
def hexQuad? : List Char → Option (Nat × List Char)
  | a :: b :: c :: d :: rest => do
    let a ← hexDigit? a
    let b ← hexDigit? b
    let c ← hexDigit? c
    let d ← hexDigit? d
    return (((a * 16 + b) * 16 + c) * 16 + d, rest)
  | _ => none

/-- The second half of a character of two halves, which has an escape of its own, and the text
behind it. -/
def secondHalf? : List Char → Option (Nat × List Char)
  | '\\' :: 'u' :: rest =>
    (hexQuad? rest).filter fun found => 0xDC00 ≤ found.1 && found.1 < 0xE000
  | _ => none

/-- The character written by the digits behind `\u`, which is none if they write half a character
and the other half does not follow. -/
def unicodeEscape? (cs : List Char) : Option (Option Char × List Char) := do
  let (n, rest) ← hexQuad? cs
  if 0xD800 ≤ n && n < 0xDC00 then
    match secondHalf? rest with
    | some (low, rest) =>
      return (some (Char.ofNat (0x10000 + (n - 0xD800) * 0x400 + (low - 0xDC00))), rest)
    | none => return (none, rest)
  else if 0xDC00 ≤ n && n < 0xE000 then return (none, rest)
  else return (some (Char.ofNat n), rest)

/-- The character written by the text behind a backslash. -/
def escape? : List Char → Option (Option Char × List Char)
  | '"' :: rest => some (some '"', rest)
  | '\\' :: rest => some (some '\\', rest)
  | '/' :: rest => some (some '/', rest)
  | 'b' :: rest => some (some (Char.ofNat 8), rest)
  | 'f' :: rest => some (some (Char.ofNat 12), rest)
  | 'n' :: rest => some (some '\n', rest)
  | 'r' :: rest => some (some '\r', rest)
  | 't' :: rest => some (some '\t', rest)
  | 'u' :: rest => unicodeEscape? rest
  | _ => none

/-- The contents of a string whose opening quote is behind us, and the text behind its closing
quote; `fuel` bounds the number of characters. -/
def string? : Nat → List Char → Option (List (Option Char) × List Char)
  | 0, _ => none
  | fuel + 1, cs =>
    match cs with
    | [] => none
    | '"' :: rest => some ([], rest)
    | '\\' :: rest => do
      let (c, rest) ← escape? rest
      let (more, rest) ← string? fuel rest
      return (c :: more, rest)
    | c :: rest =>
      if c.toNat < 32 then none
      else do
        let (more, rest) ← string? fuel rest
        return (some c :: more, rest)

/-- The text that some characters make, unless half a one is among them. -/
def textOf? (found : List (Option Char)) : Option String :=
  (found.mapM id).map String.ofList

/-- The record with some entries, which is unreadable if a key is no text. -/
def recordOf (found : List (Option String × Data)) : Data :=
  match found.mapM fun entry => entry.1.map (·, entry.2) with
  | some entries => .record entries
  | none => .unreadable

/-- The digits a text begins with, of which there must be one, and the text behind them. -/
def digits? (cs : List Char) : Option (List Char × List Char) :=
  match cs.span Char.isDigit with
  | ([], _) => none
  | found => some found

/-- The fraction a number may have. -/
def fraction? : List Char → Option (Option (List Char) × List Char)
  | '.' :: rest => do
    let (digits, rest) ← digits? rest
    return (some digits, rest)
  | cs => some (none, cs)

/-- The exponent a number may have. -/
def exponent? (cs : List Char) : Option (Option Int × List Char) :=
  match cs with
  | e :: rest =>
    if e = 'e' || e = 'E' then do
      let (negative, rest) := match rest with
        | '-' :: rest => (true, rest)
        | '+' :: rest => (false, rest)
        | rest => (false, rest)
      let (digits, rest) ← digits? rest
      let n : Int := Number.digitsValue digits
      return (some (if negative then -n else n), rest)
    else some (none, cs)
  | [] => some (none, cs)

/-- The natural that `n` becomes by the digits put behind it as long as it fits into 64 bits, and
the digits that are left. -/
def takeDigits (n : Nat) : List Char → Nat × List Char
  | [] => (n, [])
  | c :: rest =>
    let next := 10 * n + (c.toNat - 48)
    if next < UInt64.size then takeDigits next rest else (n, c :: rest)

/-- The power of ten with the given exponent. -/
def powerOfTen (exponent : Nat) : Number :=
  .ofDecimal false 1 exponent

/-- The greatest exponent of a power of ten. -/
def greatestExponent : Nat := 308

/-- A number times a power of ten, rounded once for each power that it is multiplied with or
divided by; there is none beyond the finite ones. `fuel` bounds the number of divisions. -/
def scale? : Nat → Number → Int → Option Number
  | 0, x, _ => some x
  | fuel + 1, x, exponent =>
    if x.isZero then some x
    else if greatestExponent < exponent then none
    else if 0 ≤ exponent then
      let product := x.times (powerOfTen exponent.toNat)
      if product.isFinite then some product else none
    else if -greatestExponent ≤ exponent then
      some (x.dividedBy (powerOfTen (-exponent).toNat))
    else scale? fuel (x.dividedBy (powerOfTen greatestExponent)) (exponent + greatestExponent)

/-- The number with the given parts: whole if it is written so and fits into 64 bits. Otherwise
the digits that fit are rounded to a number, and that is scaled. -/
def assemble (negative : Bool) (whole : List Char) (fraction : Option (List Char))
    (exponent : Option Int) : Data :=
  let (n, left) := takeDigits 0 whole
  if fraction.isNone && exponent.isNone && left.isEmpty
      && (!negative || (0 < n && 2 * n ≤ UInt64.size)) then
    .int (if negative then -n else n)
  else
    let places := fraction.getD []
    let (n, ignored) := takeDigits n places
    let shift : Int := left.length - (places.length - ignored.length)
    (scale? 4 (.ofRatio negative n 1) (shift + exponent.getD 0)).elim .unreadable .number

/-- A number, and the text behind it. -/
def number? (cs : List Char) : Option (Data × List Char) := do
  let (negative, cs) := match cs with
    | '-' :: rest => (true, rest)
    | cs => (false, cs)
  let (whole, cs) ← digits? cs
  if 1 < whole.length && whole.head? = some '0' then none
  else
    let (fraction, cs) ← fraction? cs
    let (exponent, cs) ← exponent? cs
    return (assemble negative whole fraction exponent, cs)

mutual

/-- A value, and the text behind it; `fuel` bounds the number of steps. -/
def value? : Nat → List Char → Option (Data × List Char)
  | 0, _ => none
  | fuel + 1, cs =>
    match skip cs with
    | '"' :: rest => do
      let (s, rest) ← string? (rest.length + 1) rest
      return ((textOf? s).elim .unreadable .text, rest)
    | '[' :: rest =>
      match skip rest with
      | ']' :: rest => some (.list [], rest)
      | rest => do
        let (items, rest) ← items? fuel rest
        return (.list items, rest)
    | '\x7b' :: rest =>
      match skip rest with
      | '\x7d' :: rest => some (.record [], rest)
      | rest => do
        let (entries, rest) ← entries? fuel rest
        return (recordOf entries, rest)
    | 't' :: 'r' :: 'u' :: 'e' :: rest => some (.bool true, rest)
    | 'f' :: 'a' :: 'l' :: 's' :: 'e' :: rest => some (.bool false, rest)
    | 'n' :: 'u' :: 'l' :: 'l' :: rest => some (.null, rest)
    | cs => number? cs

/-- The items of a list up to its closing bracket. -/
def items? : Nat → List Char → Option (List Data × List Char)
  | 0, _ => none
  | fuel + 1, cs => do
    let (item, rest) ← value? fuel cs
    match skip rest with
    | ',' :: rest =>
      let (items, rest) ← items? fuel rest
      return (item :: items, rest)
    | ']' :: rest => return ([item], rest)
    | _ => none

/-- The entries of a record up to its closing brace. -/
def entries? : Nat → List Char → Option (List (Option String × Data) × List Char)
  | 0, _ => none
  | fuel + 1, cs =>
    match skip cs with
    | '"' :: rest => do
      let (key, rest) ← string? (rest.length + 1) rest
      match skip rest with
      | ':' :: rest =>
        let (d, rest) ← value? fuel rest
        let entry := (textOf? key, d)
        match skip rest with
        | ',' :: rest =>
          let (entries, rest) ← entries? fuel rest
          return (entry :: entries, rest)
        | '\x7d' :: rest => return ([entry], rest)
        | _ => none
      | _ => none
    | _ => none

end

/-- The contents of a JSON text. -/
def read? (s : String) : Option Data :=
  let cs := s.toList
  match value? (2 * cs.length + 2) cs with
  | some (d, rest) => if (skip rest).isEmpty then some d else none
  | none => none

/-! ### Writing -/

/-- The hexadecimal digit of a natural below sixteen. -/
def hexDigit (n : Nat) : Char :=
  Char.ofNat (if n < 10 then 48 + n else 87 + n)

/-- A character as it is written between quotes. -/
def escape (c : Char) : List Char :=
  if c = '"' then ['\\', '"']
  else if c = '\\' then ['\\', '\\']
  else if c = '\n' then ['\\', 'n']
  else if c = '\r' then ['\\', 'r']
  else if c = '\t' then ['\\', 't']
  else if c.toNat = 8 then ['\\', 'b']
  else if c.toNat = 12 then ['\\', 'f']
  else if c.toNat < 32 then
    ['\\', 'u', '0', '0', hexDigit (c.toNat / 16), hexDigit (c.toNat % 16)]
  else [c]

/-- A text in quotes. -/
def quote (s : String) : List Char :=
  '"' :: s.toList.flatMap escape ++ ['"']

/-- A number, so written that it reads back as a number that is not whole. Infinity is null. -/
def number (x : Number) : List Char :=
  if x.isFinite then
    let d := if x.isZero then ⟨0, 0⟩ else Number.shortest x.rank
    let magnitude :=
      if d.exponent < -20 || 20 < d.exponent then
        Nat.toDigits 10 d.digits ++ 'e' :: (toString d.exponent).toList
      else if d.text.contains '.' then d.text
      else d.text ++ ['.', '0']
    if x.negative then '-' :: magnitude else magnitude
  else "null".toList

/-- A value that has no parts. -/
def scalar : Data → List Char
  | .null => "null".toList
  | .bool true => "true".toList
  | .bool false => "false".toList
  | .int n => (toString n).toList
  | .number x => number x
  | .text s => quote s
  | .word s => quote s
  | .list _ => ['[', ']']
  | .record _ => ['\x7b', '\x7d']
  | .tagged _ _ => "null".toList
  | .unreadable => "null".toList

mutual

/-- A value without spaces. -/
def compactChars : Data → List Char
  | .list items => '[' :: [','].intercalate (compactItems items) ++ [']']
  | .record entries => '\x7b' :: [','].intercalate (compactEntries entries) ++ ['\x7d']
  | .tagged _ d => compactChars d
  | d => scalar d

/-- The items of a list without spaces. -/
def compactItems : List Data → List (List Char)
  | [] => []
  | item :: rest => compactChars item :: compactItems rest

/-- The entries of a record without spaces. -/
def compactEntries : List (String × Data) → List (List Char)
  | [] => []
  | (key, d) :: rest => (quote key ++ ':' :: compactChars d) :: compactEntries rest

end

/-- The JSON text of a value, without spaces. -/
def compact (d : Data) : String :=
  String.ofList (compactChars d)

/-- A new line, indented by `level` steps. -/
def newline (level : Nat) : List Char :=
  '\n' :: List.replicate (2 * level) ' '

mutual

/-- A value with an item or entry a line. -/
def indentedChars (level : Nat) : Data → List Char
  | .list [] => scalar (.list [])
  | .list (item :: rest) =>
    '[' :: newline (level + 1)
      ++ (',' :: newline (level + 1)).intercalate (indentedItems (level + 1) (item :: rest))
      ++ newline level ++ [']']
  | .record [] => scalar (.record [])
  | .record (entry :: rest) =>
    '\x7b' :: newline (level + 1)
      ++ (',' :: newline (level + 1)).intercalate (indentedEntries (level + 1) (entry :: rest))
      ++ newline level ++ ['\x7d']
  | .tagged _ d => indentedChars level d
  | d => scalar d

/-- The items of a list, one a line. -/
def indentedItems (level : Nat) : List Data → List (List Char)
  | [] => []
  | item :: rest => indentedChars level item :: indentedItems level rest

/-- The entries of a record, one a line. -/
def indentedEntries (level : Nat) : List (String × Data) → List (List Char)
  | [] => []
  | (key, d) :: rest =>
    (quote key ++ ':' :: ' ' :: indentedChars level d) :: indentedEntries level rest

end

/-- The JSON text of a value, with an item or entry a line and two spaces for each level. -/
def indented (d : Data) : String :=
  String.ofList (indentedChars 0 d)

end Sift.Json
