import Sift.Proofs.Query.Path
import Sift.Saved.Resolution

/-!
# Taking a part out of a tree

Collapsing saves a part of a tree and leaves a name in its place. All that can go wrong with the
tree is found out before anything is saved (`collapse_cases`), so over a store in memory, which
saves whatever it is given, collapsing is all or nothing: `collapse_savesOnce` says that a failure
leaves the store as it was, and that a success saves one query and changes the tree at the path of
the part only.
-/

namespace Sift

variable {σ τ : Type} {schema : Schema} {scope : Scope} {root : Query} {path : List Nat}
  {name : String}

/-! ### Any store -/

/-- Collapsing does nothing if the name is none for a saved query, or if there is no part or it
mentions the name. Otherwise it saves the part, and if that succeeds puts the name in its place. -/
theorem collapse_cases (save : SavedQuery → σ → Except StoreError SavedQuery × σ) (schema : Schema)
    (scope : Scope) (root : Query) (path : List Nat) (name : String) (store : σ) :
  (∃ e, collapse save schema scope root path name store = (.error e, store))
    ∨ ∃ part root', root.at? path = some part ∧ name ∉ part.references
      ∧ root.replaceAt? path (.reference { name, isChild := part.isChild }) = some (part, root')
      ∧ collapse save schema scope root path name store
        = match save (part.toSaved name scope) store with
          | (.error e, after) => (.error (.storeFailed e), after)
          | (.ok saved, after) => (.ok (root', saved), after)
  := by
  rw [collapse]
  split
  case isTrue => exact .inl ⟨_, rfl⟩
  case isFalse =>
    split
    case h_1 => exact .inl ⟨_, rfl⟩
    case h_2 part hpart =>
      split
      case isTrue => exact .inl ⟨_, rfl⟩
      case isFalse hname =>
        -- The part has been read at the path, so the name can be put there.
        obtain ⟨root', hreplace⟩ := Query.exists_replaceAt?_of_at? hpart
          (.reference { name, isChild := part.isChild })
        refine .inr ⟨part, root', hpart, by simpa using hname, hreplace, ?_⟩
        rcases save (part.toSaved name scope) store with ⟨_ | _, _⟩
        · rfl
        · simp only [hreplace]

/-- Collapsing touches a store only to save: where saving does the same, but for what is left out of
sight, collapsing does so, too. -/
theorem collapse_project {save : SavedQuery → σ → Except StoreError SavedQuery × σ}
    {save' : SavedQuery → τ → Except StoreError SavedQuery × τ} {project : τ → σ}
    (h : ∀ query state, save query (project state) = (save' query state).map id project)
    (state : τ) :
  collapse save schema scope root path name (project state)
    = (collapse save' schema scope root path name state).map id project
  := by
  rw [collapse, collapse]
  split
  case isTrue => rfl
  case isFalse =>
    cases root.at? path with
    | none => rfl
    | some part =>
      simp only
      split
      case isTrue => rfl
      case isFalse =>
        rw [h]
        rcases save' (part.toSaved name scope) state with ⟨_ | saved, after⟩
        · rfl
        · simp only [Prod.map, id]
          split
          · rfl
          · rfl

/-! ### A store in memory -/

/-- Saves a query in a store, and notes that it was to be saved. -/
def Store.saveNoting (newId : String) (query : SavedQuery) (state : Store × List SavedQuery) :
    Except StoreError SavedQuery × (Store × List SavedQuery) :=
  let (result, store) := state.1.save newId query
  (result, store, state.2 ++ [query])

/-- What it means that a part of a tree has become a saved query: the query bears the name, and has
no id yet; the name stands in the place of the part; and nothing else has changed in the tree. -/
structure Extracted (scope : Scope) (root : Query) (path : List Nat) (name : String)
    (query : SavedQuery) (root' : Query) : Prop where
  name_eq : query.name = name
  entity_eq : query.entity = scope.entity
  owner_eq : query.owner = scope.owner
  id_eq : query.id = ""
  part : ∃ part, root.at? path = some part
    ∧ root'.at? path = some (.reference { name, negated := false, isChild := part.isChild })
  apart : ∀ other, ¬path <+: other → ¬other <+: path → root'.at? other = root.at? other

theorem extracted_toSaved {part root' : Query} (hpart : root.at? path = some part)
    (hreplace : root.replaceAt? path (.reference { name, isChild := part.isChild })
      = some (part, root')) :
  Extracted scope root path name (part.toSaved name scope) root'
  := by
  have hat := Query.at?_append_of_replaceAt? hreplace []
  rw [List.append_nil] at hat
  refine ⟨rfl, rfl, rfl, rfl, ⟨part, hpart, hat⟩, ?_⟩
  intro other hbelow habove
  exact Query.at?_of_replaceAt?_of_apart hreplace hbelow habove

/-- Collapsing over a store in memory is all or nothing. If it fails, nothing was to be saved and
the store is as it was. If it succeeds, one query was saved, with the result that saving it has; the
name stands in the place of the part, and beside the path the tree is as it was. -/
theorem collapse_savesOnce (newId : String) (schema : Schema) (scope : Scope) (root : Query)
    (path : List Nat) (name : String) (store : Store) :
  ∃ result after saves,
    collapse (Store.save newId) schema scope root path name store = (result, after)
    ∧ collapse (Store.saveNoting newId) schema scope root path name (store, [])
      = (result, after, saves)
    ∧ match result with
      | .error _ => after = store ∧ saves = []
      | .ok (root', saved) => ∃ query, saves = [query]
        ∧ store.save newId query = (.ok saved, after)
        ∧ Extracted scope root path name query root'
  := by
  have hsame (query : SavedQuery) (state : Store × List SavedQuery) :
      Store.save newId query state.1 = (Store.saveNoting newId query state).map id Prod.fst := rfl
  have hproject : collapse (Store.save newId) schema scope root path name store
      = (collapse (Store.saveNoting newId) schema scope root path name (store, [])).map id
        Prod.fst := collapse_project hsame (store, [])
  obtain ⟨e, hnoting⟩ | ⟨part, root', hpart, -, hreplace, hnoting⟩ :=
    collapse_cases (Store.saveNoting newId) schema scope root path name (store, [])
  · rw [hnoting] at hproject
    exact ⟨.error e, store, [], hproject, hnoting, rfl, rfl⟩
  · -- A store in memory saves whatever it is given.
    obtain ⟨saved, after, hsave⟩ :
        ∃ saved after, store.save newId (part.toSaved name scope) = (.ok saved, after) :=
      ⟨_, _, rfl⟩
    rw [Store.saveNoting, hsave] at hnoting
    rw [hnoting] at hproject
    refine ⟨.ok (root', saved), after, [part.toSaved name scope], hproject, hnoting, ?_⟩
    exact ⟨_, rfl, hsave, extracted_toSaved hpart hreplace⟩

end Sift
