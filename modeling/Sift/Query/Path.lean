import Sift.Query.Basic

/-!
# Paths

A path leads from a tree to one of its nodes by the index of a child at each step. `Query.at?`
reads the node at a path and `Query.replaceAt?` puts another one in its place.
-/

namespace Sift.Query

/-- The node at a path. -/
def at? : Query → List Nat → Option Query
  | q, [] => some q
  | group _ _ children _, i :: path =>
    match children[i]? with
    | some child => child.at? path
    | none => none
  | _, _ :: _ => none

/-- The node at a path, and the tree in which `new` stands in its place. -/
def replaceAt? : Query → List Nat → Query → Option (Query × Query)
  | q, [], new => some (q, new)
  | group condition negated children origin, i :: path, new =>
    match children[i]? with
    | some child =>
      (child.replaceAt? path new).map fun found =>
        (found.1, group condition negated (children.set i found.2) origin)
    | none => none
  | _, _ :: _, _ => none

/-- The tree in which `f` has changed the node at a path. -/
def changeAt? (q : Query) (path : List Nat) (f : Query → Query) : Option Query :=
  (q.at? path).bind fun node => (q.replaceAt? path (f node)).map (·.2)

end Sift.Query
