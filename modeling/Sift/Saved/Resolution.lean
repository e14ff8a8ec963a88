import Sift.Saved.Store
import Sift.Query.Parser
import Sift.Query.Printer
import Sift.Query.Path

/-!
# Expanding and collapsing saved queries

`resolve` puts the trees of saved queries in the place of their names, level by level: a saved
query may mention others, but not itself, and only so many levels deep. `collapse` goes the other
way: it saves a part of a tree and leaves the name in its place.
-/

namespace Sift

/-- Why names cannot be expanded or a tree cannot be collapsed. -/
inductive ResolveError where
  | unknownQuery (name : String)
  | cyclic (name : String)
  | tooDeep (maxDepth : Nat)
  | badText (name : String) (error : QueryError)
  | invalidName (name : String)
  | invalidPath (path : List Nat)
  | storeFailed (error : StoreError)
  | badQuery (error : QueryError)
deriving DecidableEq

/-- The wording of an error. -/
def ResolveError.message : ResolveError → String
  | unknownQuery name => "Unknown named query: " ++ name
  | cyclic name => "Cyclic named query reference: " ++ name
  | tooDeep maxDepth => "Named query nesting exceeds " ++ toString maxDepth ++ " levels"
  | badText name error => "Named query " ++ name ++ " does not parse: " ++ error.message
  | invalidName name => "Invalid named query name: " ++ name
  | invalidPath path => "No node at path [" ++ ", ".intercalate (path.map toString) ++ "]"
  | storeFailed error => "Named query lookup failed: " ++ error.message
  | badQuery error => error.message

/-! ### Expanding -/

/-- The expansion of a mention in its place. -/
def Reference.expansion (ref : Reference) (expanded : Query) : Query :=
  (if ref.negated then expanded.negate else expanded).markChildren.setNamed
    (some { name := ref.name, negated := ref.negated })

namespace Query

mutual

/-- The tree in which every name with an expansion has been expanded. -/
def substitute (expansions : List (String × Query)) : Query → Query
  | rule x origin => rule x origin
  | group condition negated children origin =>
    group condition negated (substituteAll expansions children) origin
  | reference ref =>
    match expansions.lookup ref.name with
    | some expanded => ref.expansion expanded
    | none => reference ref

/-- The trees in which every name with an expansion has been expanded. -/
def substituteAll (expansions : List (String × Query)) : List Query → List Query
  | [] => []
  | q :: rest => q.substitute expansions :: substituteAll expansions rest

end

end Query

/-- A computation that may fail and that notes the names it looks up, in order. -/
abbrev Resolving : Type → Type :=
  ExceptT ResolveError (StateM (List String))

/-- How names are looked up: the schema of the texts, the queries that the names mean, and how
many levels there may be. -/
structure Resolver where
  schema : Schema
  find : String → Except StoreError (Option SavedQuery)
  maxDepth : Nat := 32

namespace Resolver

/-- The tree of the saved query that a name means. -/
def lookUp (resolver : Resolver) (name : String) : Resolving Query := do
  modify (· ++ [name])
  match resolver.find name with
  | .error e => throw (.storeFailed e)
  | .ok none => throw (.unknownQuery name)
  | .ok (some found) =>
    match Query.parse resolver.schema found.text with
    | .error e => throw (.badText name e)
    | .ok q => return q

/-- Expands the names in a tree inside the expansions of `ancestors`, where `levels` more levels
are allowed. Each name is expanded to the end before the next is looked up. -/
def resolveWithin (resolver : Resolver) : Nat → List String → Query → Resolving Query
  | levels, ancestors, q =>
    if q.references.isEmpty then return q
    else
      match q.references.find? ancestors.contains with
      | some name => throw (.cyclic name)
      | none =>
        match levels with
        | 0 => throw (.tooDeep resolver.maxDepth)
        | levels + 1 => do
          let expansions ← q.references.mapM fun name => do
            let parsed ← resolver.lookUp name
            let expanded ← resolver.resolveWithin levels (ancestors ++ [name]) parsed
            return (name, expanded)
          return q.substitute expansions

/-- Expands the names in a tree inside the expansions of `ancestors`. -/
def resolve (resolver : Resolver) (ancestors : List String) (q : Query) : Resolving Query :=
  resolver.resolveWithin (resolver.maxDepth - ancestors.length) ancestors q

/-- Reads the text of a query and expands its names. -/
def expandText (resolver : Resolver) (s : String) : Resolving Query :=
  match Query.parse resolver.schema s with
  | .error e => throw (.badQuery e)
  | .ok q => resolver.resolve [] q

/-- The tree in which the names have been expanded, without the names that were looked up. -/
def resolve? (resolver : Resolver) (ancestors : List String) (q : Query) :
    Except ResolveError Query :=
  ((resolver.resolve ancestors q).run.run []).1

end Resolver

/-! ### Collapsing -/

/-- The saved query that a part of a tree becomes. Names inside it stay names. -/
def Query.toSaved (q : Query) (name : String) (scope : Scope) : SavedQuery where
  name
  text := (q.setNamed none).print .collapsed
  owner := scope.owner
  entity := scope.entity

/-- Saves the part of a tree at a path under a name, and puts the name in its place. -/
def collapse {σ : Type} (save : SavedQuery → σ → Except StoreError SavedQuery × σ)
    (schema : Schema) (scope : Scope) (root : Query) (path : List Nat) (name : String)
    (store : σ) : Except ResolveError (Query × SavedQuery) × σ :=
  if !isReferenceName name.toList || schema.hasField name then
    (.error (.invalidName name), store)
  else
    match root.at? path with
    | none => (.error (.invalidPath path), store)
    | some part =>
      if part.references.contains name then (.error (.cyclic name), store)
      else
        match save (part.toSaved name scope) store with
        | (.error e, store) => (.error (.storeFailed e), store)
        | (.ok saved, store) =>
          match root.replaceAt? path (.reference { name, isChild := part.isChild }) with
          | some (_, root) => (.ok (root, saved), store)
          | none => (.error (.invalidPath path), store)

end Sift
