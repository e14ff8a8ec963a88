import Sift.Data.Basic

/-!
# Saved queries

A `SavedQuery` is the text of a query under a name. It belongs to the documents of one entity and
may have an owner. Who looks a name up does so in a `Scope`, which settles what is visible and,
by `SavedQuery.rank`, which of several visible queries of a name is meant.
-/

namespace Sift

/-- Who looks up a name, and for which documents. -/
structure Scope where
  entity : String
  owner : Option String := none
deriving DecidableEq

/-- The text of a query under a name. -/
structure SavedQuery where
  /-- The key of the record; an empty one is to be filled in by the store. -/
  id : String := ""
  name : String
  text : String
  /-- Whose query it is; no one's is everyone's. -/
  owner : Option String := none
  /-- The documents it is about. -/
  entity : String := ""
  /-- Whether it comes with the system. -/
  isSystem : Bool := false
deriving DecidableEq, Inhabited

namespace SavedQuery

/-- Whether a query can be looked up in a scope. -/
def visibleIn (query : SavedQuery) (scope : Scope) : Bool :=
  query.entity = scope.entity
    && (query.owner.isNone || query.isSystem || scope.owner = query.owner)

/-- The order of preference among the queries of a name; the least is meant. One's own query goes
before one of the system, and that before a shared one. -/
def rank (query : SavedQuery) (scope : Scope) : Nat :=
  if query.owner.isSome && query.owner = scope.owner then 0
  else if query.isSystem then 1
  else 2

/-- Whether two records have the same place: the same name for the same documents and owner. -/
def sameSlot (a b : SavedQuery) : Bool :=
  a.name = b.name && a.entity = b.entity && a.owner = b.owner

/-- The record with `id` for its key if it has none. -/
def withId (query : SavedQuery) (id : String) : SavedQuery :=
  if query.id = "" then { query with id } else query

/-- A saved query as a record. -/
def toData (query : SavedQuery) : Data :=
  .record ([("id", .text query.id), ("name", .text query.name), ("text", .text query.text)]
    ++ (query.owner.map fun owner => ("owner", Data.text owner)).toList
    ++ [("entity", .text query.entity), ("isSystem", .bool query.isSystem)])

/-- The keys of a saved query. -/
def keys : List String := ["id", "name", "text", "owner", "entity", "isSystem"]

/-- The saved query that a record describes. -/
def ofData? (d : Data) : Option SavedQuery := do
  let entries ← d.entries? keys
  return {
    id := ← Data.defaulted entries "id" "" Data.text?
    name := ← Data.required entries "name" Data.text?
    text := ← Data.required entries "text" Data.text?
    owner := ← Data.optional entries "owner" Data.text?
    entity := ← Data.defaulted entries "entity" "" Data.text?
    isSystem := ← Data.defaulted entries "isSystem" false Data.bool? }

end SavedQuery

/-- The scope that a record describes. -/
def Scope.ofData? (d : Data) : Option Scope := do
  let entries ← d.entries? ["entity", "owner"]
  return {
    entity := ← Data.required entries "entity" Data.text?
    owner := ← Data.optional entries "owner" Data.text? }

end Sift
