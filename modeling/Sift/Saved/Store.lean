import Sift.Saved.Basic
import Sift.Table

/-!
# Stores of saved queries

A `Store` holds saved queries by their ids. `Store.upsert` keeps at most one record for each name,
entity and owner: a query without an id takes over the one of the record in its place, and any
other record there is evicted. `Store.find` looks a name up in a scope. A store lists its records
in some order, and nothing promises which: of the best queries of a name, the one listed first is
meant.
-/

namespace Sift

/-- Why a store cannot do what it is asked to. -/
inductive StoreError where
  | fileAccess
  | unavailable (message : String)
deriving DecidableEq

/-- The wording of an error. -/
def StoreError.message : StoreError → String
  | fileAccess => "IO error"
  | unavailable message => "Store unavailable: " ++ message

/-- Saved queries by their ids. -/
structure Store where
  records : Table SavedQuery := Table.empty

instance : Inhabited Store where
  default := {}

namespace Store

/-- The store without records. -/
def empty : Store := {}

/-- The record of an id. -/
def get? (store : Store) (id : String) : Option SavedQuery :=
  store.records.get? id

/-- The number of records. -/
def size (store : Store) : Nat :=
  store.records.size

/-- The store in which a record stands under its id. -/
def insert (store : Store) (query : SavedQuery) : Store where
  records := store.records.insert query.id query

/-- The store that holds some records, of which those without an id get one of `newIds`. -/
def ofQueries (queries : List SavedQuery) (newIds : List String) : Store :=
  (queries.zip newIds).foldl (fun store pair => store.insert (pair.1.withId pair.2)) empty

/-- The better of two candidates for a name, the first one winning a tie. -/
def better (scope : Scope) (best : Option SavedQuery) (query : SavedQuery) : Option SavedQuery :=
  match best with
  | none => some query
  | some found => if query.rank scope < found.rank scope then some query else some found

/-- The best of the visible queries of a name. -/
def select (queries : List SavedQuery) (name : String) (scope : Scope) : Option SavedQuery :=
  (queries.filter fun query => query.name = name && query.visibleIn scope).foldl
    (better scope) none

/-- The query that a name means in a scope, as the records are listed. -/
def find (store : Store) (name : String) (scope : Scope) : Option SavedQuery :=
  select store.records.values name scope

/-- The id under which a query is to be stored: its own, or else that of the record in its place,
or else a new one. -/
def idFor (store : Store) (newId : String) (query : SavedQuery) : String :=
  if query.id ≠ "" then query.id
  else
    match store.records.values.find? fun other => other.sameSlot query with
    | some other => if other.id = "" then newId else other.id
    | none => newId

/-- The id of another record in the place of a query. -/
def rival? (store : Store) (query : SavedQuery) : Option String :=
  (store.records.values.find? fun other => other.id ≠ query.id && other.sameSlot query).map
    SavedQuery.id

/-- What saving a query comes to: the record as it is stored, the id of another record that had
to go, and the store. -/
structure Upsert where
  query : SavedQuery
  evicted : Option String
  store : Store

/-- Saves a query in its place; `newId` is for a query that has no id and finds none. -/
def upsert (store : Store) (newId : String) (query : SavedQuery) : Upsert :=
  let query := { query with id := store.idFor newId query }
  let evicted := store.rival? query
  let records := evicted.elim store.records store.records.erase
  ⟨query, evicted, ⟨records.insert query.id query⟩⟩

/-- Saves a query, and returns it as it is stored. -/
def save (newId : String) (query : SavedQuery) (store : Store) :
    Except StoreError SavedQuery × Store :=
  let result := store.upsert newId query
  (.ok result.query, result.store)

/-- Deletes the record of an id, and says whether there was one. -/
def delete (store : Store) (id : String) : Bool × Store :=
  (store.records.contains id, ⟨store.records.erase id⟩)

end Store

end Sift
