import Sift.Data.Yaml.Node

/-!
# YAML

`Yaml.read?` reads a YAML text of at most one document. A scalar without quotes becomes a word,
whose kind is left open, and an alias stands for the node with its anchor. A record with a key
that is no scalar is unreadable, and so is an alias for a node in which it stands itself.

Anchors are numbered. A new one takes the number of different names before it, also where its name
has stood before; and what a number stands for is the last node that has taken it, for the aliases
before that node too.
-/

namespace Sift.Yaml

/-! ### Tags -/

/-- The whole tag that a handle and a suffix write. -/
def wholeTag? (handles : Node.Handles) : String × String → Option String
  | (start, suffix) =>
    if start.isEmpty then some suffix else (handles.lookup start).map (· ++ suffix)

/-- The tag of truth values. -/
def boolTag : String := "tag:yaml.org,2002:bool"

/-- The scalar with a tag. The lines below a bar are a word under the tag of truth values. -/
def taggedScalar (tag : String) (style : Style) (s : String) : Data :=
  let isWord := style = .plain || (style = .literal && tag = boolTag && !s.isEmpty)
  .tagged tag (if isWord then .word s else .text s)

/-- A scalar without a tag. -/
def untaggedScalar (style : Style) (s : String) : Data :=
  if style = .plain then .word s else .text s

/-- A scalar with or without a tag; a lone exclamation mark is none. -/
def scalarData (tag : Option String) (style : Style) (s : String) : Data :=
  match tag with
  | some tag => if tag = "!" then untaggedScalar style s else taggedScalar tag style s
  | none => untaggedScalar style s

/-- A list or record with or without a tag. -/
def withTag (tag : Option String) (d : Data) : Data :=
  tag.elim d (.tagged · d)

/-! ### Anchors -/

/-- The numbers of the names of anchors, one for each name. -/
abbrev Numbers : Type := List (String × Nat)

/-- Gives a name the next number. -/
def Numbers.add (numbers : Numbers) (name : String) : Numbers :=
  if (numbers.lookup name).isSome then
    numbers.map fun entry => if entry.1 = name then (name, numbers.length) else entry
  else numbers ++ [(name, numbers.length)]

/-- A node whose tags are written in full and whose anchors and aliases are numbers. -/
inductive Linked where
  | mention (number : Nat)
  | scalar (anchor : Option Nat) (d : Data)
  | list (anchor : Option Nat) (tag : Option String) (items : List Linked)
  | record (anchor : Option Nat) (tag : Option String) (entries : List (Linked × Linked))
deriving Inhabited

namespace Linked

/-- The number of the anchor among some properties, the whole tag, and the numbers from here on. -/
def ofProperties? (handles : Node.Handles) (numbers : Numbers) (own : Properties) :
    Option (Option Nat × Option String × Numbers) := do
  let tag ← match own.tag with
    | some tag => (wholeTag? handles tag).map some
    | none => some none
  match own.anchor with
  | some name => return (some numbers.length, tag, numbers.add name)
  | none => return (none, tag, numbers)

mutual

/-- The node with its links, and the numbers of the anchors up to its end. -/
def ofNode? (handles : Node.Handles) (numbers : Numbers) :
    Node → Option (Linked × Numbers)
  | .mention name => do return (.mention (← numbers.lookup name), numbers)
  | .scalar own style s => do
    let (anchor, tag, numbers) ← ofProperties? handles numbers own
    return (.scalar anchor (scalarData tag style s), numbers)
  | .list own items => do
    let (anchor, tag, numbers) ← ofProperties? handles numbers own
    let (items, numbers) ← ofItems? handles numbers items
    return (.list anchor tag items, numbers)
  | .record own entries => do
    let (anchor, tag, numbers) ← ofProperties? handles numbers own
    let (entries, numbers) ← ofEntries? handles numbers entries
    return (.record anchor tag entries, numbers)

/-- Some items with their links. -/
def ofItems? (handles : Node.Handles) (numbers : Numbers) :
    List Node → Option (List Linked × Numbers)
  | [] => some ([], numbers)
  | item :: rest => do
    let (item, numbers) ← ofNode? handles numbers item
    let (rest, numbers) ← ofItems? handles numbers rest
    return (item :: rest, numbers)

/-- Some entries with their links. -/
def ofEntries? (handles : Node.Handles) (numbers : Numbers) :
    List (Node × Node) → Option (List (Linked × Linked) × Numbers)
  | [] => some ([], numbers)
  | (key, d) :: rest => do
    let (key, numbers) ← ofNode? handles numbers key
    let (d, numbers) ← ofNode? handles numbers d
    let (rest, numbers) ← ofEntries? handles numbers rest
    return ((key, d) :: rest, numbers)

end

/-- The number of a node's anchor, if it has one, with the node. -/
def numbered (anchor : Option Nat) (node : Linked) : List (Nat × Linked) :=
  (anchor.map (·, node)).toList

mutual

/-- The nodes with anchors in a node, in the order in which they begin. -/
def anchored : Linked → List (Nat × Linked)
  | .mention _ => []
  | .scalar anchor d => numbered anchor (.scalar anchor d)
  | .list anchor tag items =>
    numbered anchor (.list anchor tag items) ++ anchoredItems items
  | .record anchor tag entries =>
    numbered anchor (.record anchor tag entries) ++ anchoredEntries entries

/-- The nodes with anchors in some items. -/
def anchoredItems : List Linked → List (Nat × Linked)
  | [] => []
  | item :: rest => item.anchored ++ anchoredItems rest

/-- The nodes with anchors in some entries. -/
def anchoredEntries : List (Linked × Linked) → List (Nat × Linked)
  | [] => []
  | (key, d) :: rest => key.anchored ++ d.anchored ++ anchoredEntries rest

end

mutual

/-- What a node holds, where `known` says what the numbers of anchors stand for. -/
def toData (known : List (Nat × Data)) : Linked → Data
  | .mention number => (known.lookup number).getD .unreadable
  | .scalar _ d => d
  | .list _ tag items => withTag tag (.list (itemsToData known items))
  | .record _ tag entries =>
    withTag tag ((entriesToData? known entries).elim .unreadable .record)

/-- What some items hold. -/
def itemsToData (known : List (Nat × Data)) : List Linked → List Data
  | [] => []
  | item :: rest => item.toData known :: itemsToData known rest

/-- What some entries hold, if their keys are texts. -/
def entriesToData? (known : List (Nat × Data)) :
    List (Linked × Linked) → Option (List (String × Data))
  | [] => some []
  | (key, d) :: rest => do
    let key ← (key.toData known).text?
    return (key, d.toData known) :: (← entriesToData? known rest)

end

/-- What the numbers of anchors stand for, when aliases are followed `steps` times. -/
def follow (nodes : List (Nat × Linked)) : Nat → List (Nat × Data)
  | 0 => []
  | steps + 1 =>
    let known := follow nodes steps
    nodes.map fun entry => (entry.1, entry.2.toData known)

/-- What the root of a document holds. Aliases need be followed no more often than there are
anchors, for one that can be followed further stands in itself. -/
def rootData (root : Linked) : Data :=
  let nodes := root.anchored.reverse
  root.toData (follow nodes nodes.length)

end Linked

/-! ### Documents -/

/-- The contents of a YAML text. -/
def read? (s : String) : Option Data := do
  let (handles, root) ← Node.ofTokens? (← Token.scan? s)
  return (← Linked.ofNode? handles [] root).1.rootData

end Sift.Yaml
