import Sift.Table

/-!
# Stored values

To compare without regard to case, the compiler asks which values a field has in the index. A
`ValueSource` answers such questions, a `Memo` keeps the answers during one compilation, and a
`Cache` keeps them from one compilation to the next.
-/

namespace Sift

/-- Why the values of a field cannot be had. -/
inductive LookupError where
  | failed (field message : String)
  | unavailable (message : String)
deriving DecidableEq

/-- The wording of an error. -/
def LookupError.message : LookupError → String
  | failed field message => "Distinct value lookup for " ++ field ++ " failed: " ++ message
  | unavailable message => "Search engine unavailable: " ++ message

/-- What answers which values a field has. -/
abbrev ValueSource : Type := String → Except LookupError (List String)

/-! ### Within one compilation -/

/-- The values of the fields asked for so far, and the fields for which the source was asked, in
order. -/
structure Memo where
  known : Table (List String) := Table.empty
  asked : List String := []

/-- The values of a field, for which the source is asked only if they are not known. -/
def Memo.values (source : ValueSource) (field : String) (memo : Memo) :
    Except LookupError (List String) × Memo :=
  match memo.known.get? field with
  | some values => (.ok values, memo)
  | none =>
    let asked := memo.asked ++ [field]
    match source field with
    | .ok values => (.ok values, { known := memo.known.insert field values, asked })
    | .error e => (.error e, { memo with asked })

/-! ### Between compilations -/

/-- The values of the fields asked for since the cache was cleared, and the fields for which the
source was ever asked, in order. If `keeps` is not set, every entry is out of date at once. -/
structure Cache where
  keeps : Bool := true
  entries : Table (List String) := Table.empty
  asked : List String := []

namespace Cache

/-- The values of a field that are up to date. -/
def fresh? (cache : Cache) (field : String) : Option (List String) :=
  if cache.keeps then cache.entries.get? field else none

/-- Whether the source has to be asked for a field. -/
def misses (cache : Cache) (field : String) : Bool :=
  (cache.fresh? field).isNone

/-- The values of a field, for which the source is asked only if none are up to date. A failure
is not kept. -/
def values (source : ValueSource) (field : String) (cache : Cache) :
    Except LookupError (List String) × Cache :=
  match cache.fresh? field with
  | some values => (.ok values, cache)
  | none =>
    let asked := cache.asked ++ [field]
    match source field with
    | .ok values => (.ok values, { cache with entries := cache.entries.insert field values, asked })
    | .error e => (.error e, { cache with asked })

/-- The cache without entries. -/
def clear (cache : Cache) : Cache :=
  { cache with entries := Table.empty }

/-- A cache as a source for one compilation, in which each field is asked for once. -/
def toSource (cache : Cache) (source : ValueSource) : ValueSource :=
  fun field => (cache.values source field).1

/-- The cache after it has been asked for some fields. -/
def afterAsking (source : ValueSource) (fields : List String) (cache : Cache) : Cache :=
  fields.foldl (fun cache field => (cache.values source field).2) cache

end Cache

end Sift
