import Sift.Text.Ranges

/-!
# Forms of regular expressions

A `Form` is a regular expression without the ways of writing it. Each kind of expression has a
function that builds its form, such as `Form.ofParts` and `Form.ofAlternatives`; these simplify
what is built: texts that stand side by side become one, nested sequences and alternatives are
flattened, a choice between characters becomes a class, and what several alternatives begin with
is taken out in front of them.
-/

namespace Sift.Pattern

open Text (Ranges)

/-- What holds between two characters. -/
inductive Assertion where
  | textStart | textEnd | wordStart | wordEnd
deriving DecidableEq

/-- A regular expression. -/
inductive Form where
  | empty
  | literal (cs : List Char)
  | oneOf (ranges : Ranges)
  | assertion (a : Assertion)
  | repetition (low : Nat) (high : Option Nat) (isLazy : Bool) (inner : Form)
  | capture (number : Nat) (inner : Form)
  | sequence (parts : List Form)
  | choice (alternatives : List Form)
deriving Inhabited

namespace Form

/-! ### Equality -/

mutual

/-- Whether two forms are the same. -/
def same : Form → Form → Bool
  | empty, empty => true
  | literal cs, literal ds => cs == ds
  | oneOf a, oneOf b => a == b
  | assertion a, assertion b => a = b
  | repetition low high isLazy inner, repetition low' high' isLazy' inner' =>
    low == low' && high == high' && isLazy == isLazy' && same inner inner'
  | capture n inner, capture n' inner' => n == n' && same inner inner'
  | sequence parts, sequence parts' => sameAll parts parts'
  | choice parts, choice parts' => sameAll parts parts'
  | _, _ => false

/-- Whether two lists hold the same forms. -/
def sameAll : List Form → List Form → Bool
  | [], [] => true
  | part :: rest, part' :: rest' => same part part' && sameAll rest rest'
  | _, _ => false

end

/-! ### Lengths -/

/-- The number of bytes that a code point takes. -/
def width (n : Nat) : Nat :=
  if n < 0x80 then 1 else if n < 0x800 then 2 else if n < 0x10000 then 3 else 4

/-- The number of bytes that some characters take. -/
def byteCount (cs : List Char) : Nat :=
  cs.foldr (fun c n => width c.toNat + n) 0

mutual

/-- The least number of bytes that a form matches, if it matches anything. -/
def minLength : Form → Option Nat
  | empty => some 0
  | literal cs => some (byteCount cs)
  | oneOf ranges => ranges.head?.map fun range => width range.1
  | assertion _ => some 0
  | repetition low _ _ inner => inner.minLength.map (low * ·)
  | capture _ inner => inner.minLength
  | sequence parts => totalMin parts
  | choice alternatives => leastMin alternatives

/-- The sum of the least numbers of bytes of some forms. -/
def totalMin : List Form → Option Nat
  | [] => some 0
  | part :: rest => do return (← part.minLength) + (← totalMin rest)

/-- The least of the least numbers of bytes of some forms, each of which must match something. -/
def leastMin : List Form → Option Nat
  | [] => none
  | [part] => part.minLength
  | part :: rest => do return min (← part.minLength) (← leastMin rest)

end

mutual

/-- The greatest number of bytes that a form matches, if there is one. -/
def maxLength : Form → Option Nat
  | empty => some 0
  | literal cs => some (byteCount cs)
  | oneOf ranges => ranges.getLast?.map fun range => width range.2
  | assertion _ => some 0
  | repetition _ high _ inner => do return (← high) * (← inner.maxLength)
  | capture _ inner => inner.maxLength
  | sequence parts => totalMax parts
  | choice alternatives => greatestMax alternatives

/-- The sum of the greatest numbers of bytes of some forms. -/
def totalMax : List Form → Option Nat
  | [] => some 0
  | part :: rest => do return (← part.maxLength) + (← totalMax rest)

/-- The greatest of the greatest numbers of bytes of some forms. -/
def greatestMax : List Form → Option Nat
  | [] => none
  | [part] => part.maxLength
  | part :: rest => do return max (← part.maxLength) (← greatestMax rest)

end

/-! ### Building -/

/-- One of the characters of a class; a class of one character is that character. -/
def ofClass (ranges : Ranges) : Form :=
  match ranges with
  | [(low, high)] => if low = high then literal [Char.ofNat low] else oneOf ranges
  | _ => oneOf ranges

/-- A form from `low` to `high` times. What matches no character need not be matched twice. -/
def ofRepetition (low : Nat) (high : Option Nat) (isLazy : Bool) (inner : Form) : Form :=
  let (low, high) :=
    if inner.maxLength = some 0 then (min low 1, some (min (high.getD 1) 1)) else (low, high)
  if low = 0 && high = some 0 then empty
  else if low = 1 && high = some 1 then inner
  else repetition low high isLazy inner

/-- The parts of a form that stand one behind the other. -/
def parts : Form → List Form
  | empty => []
  | sequence parts => parts
  | form => [form]

/-- Some parts with texts that stand side by side made into one. -/
def joinLiterals : List Form → List Form
  | [] => []
  | part :: rest =>
    match part, joinLiterals rest with
    | literal cs, literal ds :: rest => literal (cs ++ ds) :: rest
    | part, rest => part :: rest

/-- Several forms one behind the other. -/
def ofParts (forms : List Form) : Form :=
  match joinLiterals (forms.flatMap parts) with
  | [] => empty
  | [part] => part
  | parts => sequence parts

/-- The alternatives of a form. -/
def alternatives : Form → List Form
  | choice alternatives => alternatives
  | form => [form]

/-- The character that a form matches, if it is one. -/
def char? : Form → Option Char
  | literal [c] => some c
  | _ => none

/-- The characters one of which a form matches, if it is a class. -/
def class? : Form → Option Ranges
  | oneOf ranges => some ranges
  | _ => none

/-- The class of some characters. -/
def classOf (cs : List Char) : Ranges :=
  cs.foldl (fun ranges c => ranges.union [(c.toNat, c.toNat)]) []

/-- The alternatives as one class, if all are characters or all are classes. -/
def asClass? (forms : List Form) : Option Ranges :=
  match forms.mapM char? with
  | some cs => some (classOf cs)
  | none => (forms.mapM class?).map fun classes => classes.foldl Ranges.union []

/-- The parts that two lists begin with alike. -/
def commonParts : List Form → List Form → List Form
  | part :: rest, part' :: rest' => if same part part' then part :: commonParts rest rest' else []
  | _, _ => []

/-- The parts of a sequence. -/
def sequence? : Form → Option (List Form)
  | sequence parts => some parts
  | _ => none

/-- The parts that all alternatives begin with, if each of these is a sequence, and what follows
them in each. -/
def commonStart? (forms : List Form) : Option (List Form × List Form) := do
  let first :: rest ← forms.mapM sequence? | none
  let common := rest.foldl commonParts first
  if common.isEmpty then none
  else return (common, (first :: rest).map fun parts => ofParts (parts.drop common.length))

/-- One of several forms that have not been simplified together; `fuel` bounds how often parts are
taken out in front of them. -/
def choose : Nat → List Form → Form
  | 0, forms => choice forms
  | fuel + 1, forms =>
    match forms.flatMap alternatives with
    | [] => oneOf []
    | [form] => form
    | forms =>
      match asClass? forms with
      | some ranges => ofClass ranges
      | none =>
        match commonStart? forms with
        | some (common, rest) => ofParts (common ++ [choose fuel rest])
        | none => choice forms

/-- One of several forms. -/
def ofAlternatives (forms : List Form) : Form :=
  choose (forms.length + 2) forms

end Form

end Sift.Pattern
