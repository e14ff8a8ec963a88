import Sift.Data.Yaml.Token

/-!
# Nodes of YAML

A `Node` is a scalar, list or record with its tag and anchor, or an alias for a node with an
anchor. `Node.ofTokens?` reads the only document of a text from its tokens.
-/

namespace Sift.Yaml

/-- What stands before a node: an anchor, and a tag as its handle and suffix. -/
structure Properties where
  anchor : Option String := none
  tag : Option (String × String) := none
deriving DecidableEq

/-- A node of a document. -/
inductive Node where
  | mention (name : String)
  | scalar (properties : Properties) (style : Style) (s : String)
  | list (properties : Properties) (items : List Node)
  | record (properties : Properties) (entries : List (Node × Node))
deriving Inhabited

namespace Node

/-- A node that is left out. -/
def missing : Node := .scalar {} .plain ""

/-! ### Properties -/

/-- The anchor and the tag before a node, in either order. -/
def properties : List Token → Properties × List Token
  | .anchor name :: .tag start suffix :: rest => (⟨some name, some (start, suffix)⟩, rest)
  | .anchor name :: rest => (⟨some name, none⟩, rest)
  | .tag start suffix :: .anchor name :: rest => (⟨some name, some (start, suffix)⟩, rest)
  | .tag start suffix :: rest => (⟨none, some (start, suffix)⟩, rest)
  | tokens => ({}, tokens)

/-- Whether a text goes on with one of the tokens before which a node is left out. -/
def isBefore (ends : List Token) (tokens : List Token) : Bool :=
  tokens.head?.any ends.contains

/-! ### Trees -/

mutual

/-- A node, and the tokens behind it. In a `block` lists and records may be in block style, and
where `flat` is set the items of a list may be no further right than what they belong to. `fuel`
bounds the number of steps. -/
def node? : Nat → Bool → Bool → List Token → Option (Node × List Token)
  | 0, _, _, _ => none
  | fuel + 1, block, flat, tokens =>
    match tokens with
    | .mention name :: rest => some (.mention name, rest)
    | tokens =>
      let (own, tokens) := properties tokens
      match tokens with
      | .scalar style s :: rest => some (.scalar own style s, rest)
      | .flowList :: rest => do
        let (items, rest) ← flowItems? fuel true rest
        return (.list own items, rest)
      | .flowRecord :: rest => do
        let (entries, rest) ← flowEntries? fuel true rest
        return (.record own entries, rest)
      | tokens => do
        if flat && tokens.head? = some .item then
          let (items, rest) ← flatItems? fuel tokens
          return (.list own items, rest)
        else if block && tokens.head? = some .blockList then
          let (items, rest) ← blockItems? fuel (tokens.drop 1)
          return (.list own items, rest)
        else if block && tokens.head? = some .blockRecord then
          let (entries, rest) ← blockEntries? fuel (tokens.drop 1)
          return (.record own entries, rest)
        else if own = {} then none
        else return (.scalar own .plain "", tokens)

/-- The items of a list in block style. -/
def blockItems? : Nat → List Token → Option (List Node × List Token)
  | 0, _ => none
  | fuel + 1, tokens =>
    match tokens with
    | .blockEnd :: rest => some ([], rest)
    | .item :: rest => do
      let (item, rest) ←
        if isBefore [.item, .blockEnd] rest then some (missing, rest)
        else node? fuel true false rest
      let (items, rest) ← blockItems? fuel rest
      return (item :: items, rest)
    | _ => none

/-- The items of a list in block style that is no further right than its key. -/
def flatItems? : Nat → List Token → Option (List Node × List Token)
  | 0, _ => none
  | fuel + 1, tokens =>
    match tokens with
    | .item :: rest => do
      let (item, rest) ←
        if isBefore [.item, .key, .value, .blockEnd] rest then some (missing, rest)
        else node? fuel true false rest
      let (items, rest) ← flatItems? fuel rest
      return (item :: items, rest)
    | tokens => some ([], tokens)

/-- A key or value in block style, which may be left out. -/
def blockPart? : Nat → List Token → Option (Node × List Token)
  | 0, _ => none
  | fuel + 1, tokens =>
    if isBefore [.key, .value, .blockEnd] tokens then some (missing, tokens)
    else node? fuel true true tokens

/-- The entries of a record in block style. -/
def blockEntries? : Nat → List Token → Option (List (Node × Node) × List Token)
  | 0, _ => none
  | fuel + 1, tokens =>
    match tokens with
    | .blockEnd :: rest => some ([], rest)
    | .key :: rest => do
      let (key, rest) ← blockPart? fuel rest
      let (d, rest) ← match rest with
        | .value :: rest => blockPart? fuel rest
        | rest => some (missing, rest)
      let (entries, rest) ← blockEntries? fuel rest
      return ((key, d) :: entries, rest)
    | _ => none

/-- The tokens behind the comma between two items or entries; none stands before the first. -/
def afterComma? (isFirst : Bool) : List Token → Option (List Token)
  | .comma :: rest => if isFirst then some (.comma :: rest) else some rest
  | tokens => if isFirst then some tokens else none

/-- The items of a list between brackets. An item with a key is a record of one entry. -/
def flowItems? : Nat → Bool → List Token → Option (List Node × List Token)
  | 0, _, _ => none
  | fuel + 1, isFirst, tokens =>
    match tokens with
    | .flowListEnd :: rest => some ([], rest)
    | tokens => do
      match ← afterComma? isFirst tokens with
      | .flowListEnd :: rest => return ([], rest)
      | .key :: rest =>
        let (key, rest) ←
          if isBefore [.value, .comma, .flowListEnd] rest then some (missing, rest.drop 1)
          else node? fuel false false rest
        let (d, rest) ← match rest with
          | .value :: rest =>
            if isBefore [.comma, .flowListEnd] rest then some (missing, rest)
            else node? fuel false false rest
          | rest => some (missing, rest)
        let (items, rest) ← flowItems? fuel false rest
        return (.record {} [(key, d)] :: items, rest)
      | rest =>
        let (item, rest) ← node? fuel false false rest
        let (items, rest) ← flowItems? fuel false rest
        return (item :: items, rest)

/-- A key or value between braces, which may be left out. -/
def flowPart? (ends : List Token) : Nat → List Token → Option (Node × List Token)
  | 0, _ => none
  | fuel + 1, tokens =>
    if isBefore ends tokens then some (missing, tokens) else node? fuel false false tokens

/-- The entries of a record between braces. -/
def flowEntries? : Nat → Bool → List Token → Option (List (Node × Node) × List Token)
  | 0, _, _ => none
  | fuel + 1, isFirst, tokens =>
    match tokens with
    | .flowRecordEnd :: rest => some ([], rest)
    | tokens => do
      match ← afterComma? isFirst tokens with
      | .flowRecordEnd :: rest => return ([], rest)
      | .key :: rest =>
        let (key, rest) ← flowPart? [.value, .comma, .flowRecordEnd] fuel rest
        let (d, rest) ← match rest with
          | .value :: rest => flowPart? [.comma, .flowRecordEnd] fuel rest
          | rest => some (missing, rest)
        let (entries, rest) ← flowEntries? fuel false rest
        return ((key, d) :: entries, rest)
      | rest =>
        let (key, rest) ← node? fuel false false rest
        let (entries, rest) ← flowEntries? fuel false rest
        return ((key, missing) :: entries, rest)

end

/-! ### Documents -/

/-- The handles of tags and what they stand for. -/
abbrev Handles : Type := List (String × String)

/-- The handles that need not be declared. -/
def usualHandles : Handles := [("!", "!"), ("!!", "tag:yaml.org,2002:")]

/-- The handles declared before a document and the tokens behind them. There may be one version,
and no handle twice. -/
def directives? (versioned : Bool) (handles : Handles) :
    List Token → Option (Handles × List Token)
  | .version :: rest => if versioned then none else directives? true handles rest
  | .handle name start :: rest =>
    if (handles.lookup name).isSome then none
    else directives? versioned (handles ++ [(name, start)]) rest
  | tokens => some (handles, tokens)

/-- Whether a document begins with a mark or a directive rather than its contents. -/
def isExplicit : List Token → Bool
  | .version :: _ => true
  | .handle .. :: _ => true
  | .documentStart :: _ => true
  | _ => false

/-- Whether a document has no contents before some tokens. -/
def endsDocument (tokens : List Token) : Bool :=
  tokens.isEmpty || isExplicit tokens || tokens.head? = some .documentEnd

/-- The root of a document and the tokens behind it. -/
def root? (tokens : List Token) : Option (Node × List Token) :=
  node? (3 * tokens.length + 3) true false tokens

/-- The root of the only document of a text and the handles declared for it. -/
def ofTokens? (tokens : List Token) : Option (Handles × Node) := do
  if tokens.isEmpty then return (usualHandles, missing)
  else
    let (handles, behind) ← directives? false [] tokens
    let (root, rest) ← match behind with
      | .documentStart :: rest => if endsDocument rest then some (missing, rest) else root? rest
      | _ => if isExplicit tokens then none else root? tokens
    if rest.all (· == .documentEnd) then return (handles ++ usualHandles, root) else none

end Node

end Sift.Yaml
