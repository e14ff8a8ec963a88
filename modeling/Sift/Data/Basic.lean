import Sift.Number.Basic

/-!
# Data

`Data` is what a JSON or YAML text holds, before it is read as anything in particular. The
functions `Data.text?`, `Data.bool?`, … read one value; `Data.required`, `Data.defaulted` and
`Data.optional` read one entry of a record, where a key that stands twice is refused.
-/

namespace Sift

/-- The contents of a JSON or YAML text. A `word` is a scalar of YAML without quotes, whose kind
is settled by what is asked of it, and `tagged` is a value of YAML behind a tag. What is
`unreadable` may stand where nobody looks, but cannot be read as anything: a text with half a
character in it, say, or a record with a key that is no text. -/
inductive Data where
  | null
  | bool (b : Bool)
  | int (n : Int)
  | number (x : Number)
  | text (s : String)
  | word (s : String)
  | list (items : List Data)
  | record (entries : List (String × Data))
  | tagged (tag : String) (d : Data)
  | unreadable
deriving Inhabited

namespace Data

/-! ### One value -/

/-- Whether a word is one for the absence of a value. -/
def isNullWord (s : String) : Bool :=
  ["~", "null", "Null", "NULL"].contains s

/-- The tag of words for the absence of a value. -/
def nullTag : String := "tag:yaml.org,2002:null"

/-- A value that may be absent, given how to read one that is not. A tagged word is absent only
under the tag for that, which no other word may bear. -/
def present? {α : Type} (read : Data → Option α) : Data → Option (Option α)
  | null => some none
  | word s => if s = "" || isNullWord s then some none else (read (word s)).map some
  | tagged tag (word s) =>
    if tag = nullTag then if isNullWord s then some none else none
    else (read (tagged tag (word s))).map some
  | d => (read d).map some

/-- A text. -/
def text? : Data → Option String
  | text s => some s
  | word s => some s
  | tagged _ d => d.text?
  | _ => none

/-- A truth value. -/
def bool? : Data → Option Bool
  | bool b => some b
  | word s =>
    if ["true", "True", "TRUE"].contains s then some true
    else if ["false", "False", "FALSE"].contains s then some false
    else none
  | tagged _ d => d.bool?
  | _ => none

/-- A whole number, which may be wanted where any number is. -/
def int? : Data → Option Int
  | int n => some n
  | _ => none

/-- A number of double precision. -/
def number? : Data → Option Number
  | int n => some (Number.ofDecimal (n < 0) n.natAbs 0)
  | number x => some x
  | _ => none

/-- The items of a list; an empty word is an empty list. -/
def list? : Data → Option (List Data)
  | list items => some items
  | word s => if s = "" then some [] else none
  | tagged _ d => d.list?
  | _ => none

/-- The entries of a record; an empty word is an empty record. -/
def record? : Data → Option (List (String × Data))
  | record entries => some entries
  | word s => if s = "" then some [] else none
  | tagged _ d => d.record?
  | _ => none

/-- The entries of a record with the given keys, which may also be a list of the values of the
first of them. -/
def entries? (keys : List String) : Data → Option (List (String × Data))
  | list items => if items.length ≤ keys.length then some (keys.zip items) else none
  | tagged _ d => d.entries? keys
  | d => d.record?

/-- A list of texts. -/
def texts? (d : Data) : Option (List String) :=
  d.list? >>= List.mapM text?

/-- A number of double precision as a value; there is none for an infinite one. -/
def ofNumber (x : Number) : Data :=
  if x.isFinite then number x else null

/-! ### Names for one of several things -/

/-- The name behind the exclamation mark of a tag that is not a global one. -/
def localName? (tag : String) : Option String :=
  match tag.toList with
  | '!' :: name => some (String.ofList name)
  | _ => none

/-- Whether a value of YAML stands for nothing. -/
def isVoidWord : Data → Bool
  | word s => s = "" || isNullWord s
  | _ => false

/-- The name of one of several things: a text, or a tag before nothing, or a record with nothing
under the name as its key; `isNothing` says what counts there. -/
def name? (isNothing : Data → Bool) : Data → Option String
  | text s => some s
  | word s => some s
  | record [(key, d)] => if isNothing d then some key else none
  | tagged tag d =>
    match localName? tag with
    | some name => if isVoidWord d then some name else none
    | none => d.text?
  | _ => none

/-- Whether a value is null. -/
def isNull : Data → Bool
  | null => true
  | _ => false

/-- Whether a value is null or a record without entries. -/
def isVacant : Data → Bool
  | null => true
  | record [] => true
  | _ => false

/-! ### One entry of a record -/

/-- The entry of a key that may be missing but not stand twice. -/
def member? (entries : List (String × Data)) (key : String) : Option (Option Data) :=
  match entries.filter fun entry => entry.1 = key with
  | [] => some none
  | [entry] => some (some entry.2)
  | _ => none

variable {α : Type}

/-- The value of a key that must be there. -/
def required (entries : List (String × Data)) (key : String) (read : Data → Option α) :
    Option α :=
  match member? entries key with
  | some (some d) => read d
  | _ => none

/-- The value of a key, or else `default`. -/
def defaulted (entries : List (String × Data)) (key : String) (default : α)
    (read : Data → Option α) : Option α :=
  match member? entries key with
  | some (some d) => read d
  | some none => some default
  | none => none

/-- The value of a key that may be missing or null. -/
def optional (entries : List (String × Data)) (key : String) (read : Data → Option α) :
    Option (Option α) :=
  match member? entries key with
  | some (some d) => d.present? read
  | some none => some none
  | none => none

/-! ### Depth -/

mutual

/-- How deeply lists and records are nested. -/
def depth : Data → Nat
  | list items => depthItems items + 1
  | record entries => depthEntries entries + 1
  | tagged _ d => d.depth + 1
  | _ => 0

/-- The greatest depth of some items. -/
def depthItems : List Data → Nat
  | [] => 0
  | item :: rest => max item.depth (depthItems rest)

/-- The greatest depth of some entries. -/
def depthEntries : List (String × Data) → Nat
  | [] => 0
  | (_, d) :: rest => max d.depth (depthEntries rest)

end

end Data

end Sift
