import Mathlib.Data.List.Basic
import Sift.Proofs.Query.Tree

/-!
# Canonical trees

Reading a text makes trees by `chain` and `negate` only. `Canonical` describes them: no name of an
expansion, no group of one child but the negated one around a range rule, and no group that could
be spliced into the group around it. Both ways of making trees keep them canonical
(`Canonical.chain`, `Canonical.negate`), and the complement of the complement of a canonical tree is
the tree itself (`Canonical.negate_negate`).
-/

namespace Sift.Query

/-! ### Chains -/

theorem spliced_ne_nil (condition : Condition) (q : Query) :
  spliced condition q ≠ []
  := by
  cases q with
  | rule => exact List.cons_ne_nil _ _
  | group c negated children origin =>
    rw [spliced]
    split
    case isTrue h =>
      simp only [Bool.and_eq_true] at h
      simpa using h.2
    case isFalse => exact List.cons_ne_nil _ _
  | reference => exact List.cons_ne_nil _ _

theorem length_le_flatMap_spliced (condition : Condition) (operands : List Query) :
  operands.length ≤ (operands.flatMap (spliced condition)).length
  := by
  induction operands with
  | nil => exact Nat.le_refl _
  | cons q operands ih =>
    have hpos := List.length_pos_of_ne_nil (spliced_ne_nil condition q)
    rw [List.flatMap_cons, List.length_append, List.length_cons]
    omega

/-- Two or more operands become a group. -/
theorem chain_of_two_le {condition : Condition} {operands : List Query}
    (h : 2 ≤ operands.length) :
  chain condition operands = join condition (operands.flatMap (spliced condition))
  := by
  match operands, h with
  | _ :: _ :: _, _ => rfl

/-- A chain contributes to a chain of its kind what its operands contribute. -/
theorem spliced_chain {condition : Condition} {operands : List Query} (hne : operands ≠ []) :
  spliced condition (chain condition operands) = operands.flatMap (spliced condition)
  := by
  match operands, hne with
  | [only], _ => simp [chain]
  | first :: second :: others, _ =>
    have hlength := length_le_flatMap_spliced condition (first :: second :: others)
    have hflat : ((first :: second :: others).flatMap (spliced condition)).isEmpty = false := by
      rw [List.isEmpty_eq_false_iff]
      apply List.ne_nil_of_length_pos
      simp only [List.length_cons] at hlength
      omega
    rw [chain_of_two_le (by simp), join, spliced, hflat]
    simp

/-- Two or more operands that contribute themselves become the children of a group, and its
complement is the group with the flag. -/
theorem chain_of_flat {condition : Condition} {operands : List Query} (hlength : 2 ≤ operands.length)
    (hflat : ∀ q ∈ operands, spliced condition q = [q]) (negated : Bool) :
  (if negated then (chain condition operands).negate else chain condition operands)
    = group condition negated operands {}
  := by
  have hspliced : operands.flatMap (spliced condition) = operands := by
    rw [List.flatMap_congr hflat]
    exact List.flatMap_singleton' operands
  rw [chain_of_two_le hlength, hspliced, join]
  cases negated with
  | false => rfl
  | true =>
    rw [if_pos rfl, Query.negate]
    · rfl
    · rintro only - - rfl
      simp at hlength

/-! ### Canonical trees -/

/-- Whether a tree is one that reading a text can make, of rules and names that are as they should
be. -/
inductive Canonical (good : Rule → Prop) (known : String → Prop) : Query → Prop where
  | rule {x : Rule} (hx : good x) : Canonical good known (rule x {})
  | reference {name : String} (hname : known name) (negated : Bool) :
    Canonical good known (reference { name, negated })
  | empty (negated : Bool) : Canonical good known (group .and negated [] {})
  | range {x : Rule} (hx : good x) (hrange : x.operator.negated? = none) :
    Canonical good known (group .and true [Query.rule x {}] {})
  | group {condition : Condition} (negated : Bool) {children : List Query}
    (hlength : 2 ≤ children.length) (hchildren : ∀ q ∈ children, Canonical good known q)
    (hflat : ∀ q ∈ children, spliced condition q = [q]) :
    Canonical good known (group condition negated children {})

namespace Canonical

variable {good : Rule → Prop} {known : String → Prop}

/-- A canonical tree stays canonical if less is asked of its rules and names. -/
theorem mono {good' : Rule → Prop} {known' : String → Prop} {q : Query}
    (h : Canonical good known q) (hgood : ∀ x, good x → good' x)
    (hknown : ∀ name, known name → known' name) :
  Canonical good' known' q
  := by
  induction h with
  | rule hx => exact .rule (hgood _ hx)
  | reference hname negated => exact .reference (hknown _ hname) negated
  | empty negated => exact .empty negated
  | range hx hrange => exact .range (hgood _ hx) hrange
  | group negated hlength _ hflat ih => exact .group negated hlength ih hflat

/-- The complement of a canonical tree is canonical. -/
theorem negate {q : Query} (h : Canonical good known q)
    (hgood : ∀ x operator, good x → x.operator.negated? = some operator →
      good { x with operator }) :
  Canonical good known q.negate
  := by
  cases h with
  | rule hx =>
    rw [Query.negate]
    split
    case h_1 operator hoperator => exact .rule (hgood _ operator hx hoperator)
    case h_2 hrange => exact .range hx hrange
  | reference hname negated => exact .reference hname _
  | empty negated => cases negated <;> exact .empty _
  | range hx hrange => exact .rule hx
  | group negated hlength hchildren hflat =>
    rw [Query.negate]
    · exact .group _ hlength hchildren hflat
    · rintro only - - rfl
      simp at hlength

/-- Complementing twice gives a canonical tree back: the only group that a complement unwraps is
one that a complement has wrapped. -/
theorem negate_negate {q : Query} (h : Canonical good known q) :
  q.negate.negate = q
  := by
  cases h with
  | @rule x =>
    cases hoperator : x.operator.negated? with
    | none => simp only [Query.negate, hoperator]
    | some operator => simp only [Query.negate, hoperator, Operator.negated?_negated? hoperator]
  | reference => simp only [Query.negate, Bool.not_not]
  | empty negated => cases negated <;> rfl
  | range hx hrange => simp only [Query.negate, hrange]
  | @group condition negated children hlength =>
    have htoggle (flag : Bool) : (Query.group condition flag children {}).negate
        = .group condition (!flag) children {} := by
      rw [Query.negate]
      rintro only - - rfl
      simp at hlength
    rw [htoggle, htoggle, Bool.not_not]

/-- What a canonical tree contributes to a chain is canonical and contributes itself. -/
theorem spliced {condition : Condition} {q : Query} (h : Canonical good known q) :
  ∀ r ∈ spliced condition q, Canonical good known r ∧ Query.spliced condition r = [r]
  := by
  intro r hr
  by_cases hq : Query.spliced condition q = [q]
  · rw [hq, List.mem_singleton] at hr
    rw [hr]
    exact ⟨h, hq⟩
  · cases h with
    | rule => exact absurd rfl hq
    | reference => exact absurd rfl hq
    | empty negated => exact absurd (by simp [Query.spliced]) hq
    | range => exact absurd (by simp [Query.spliced]) hq
    | group negated hlength hchildren hflat =>
      rw [Query.spliced] at hr hq
      split at hr
      case isTrue hsame =>
        simp only [Bool.and_eq_true, decide_eq_true_eq] at hsame
        obtain ⟨⟨⟨rfl, -⟩, -⟩, -⟩ := hsame
        exact ⟨hchildren r hr, hflat r hr⟩
      case isFalse hother => exact absurd (if_neg hother) hq

/-- A chain of canonical trees is canonical. -/
theorem chain {condition : Condition} {operands : List Query} (hne : operands ≠ [])
    (h : ∀ q ∈ operands, Canonical good known q) :
  Canonical good known (chain condition operands)
  := by
  match operands, hne with
  | [only], _ => exact h only (by simp)
  | first :: second :: others, _ =>
    have hlength := length_le_flatMap_spliced condition (first :: second :: others)
    have hparts : ∀ r ∈ (first :: second :: others).flatMap (Query.spliced condition),
        Canonical good known r ∧ Query.spliced condition r = [r] := by
      intro r hr
      obtain ⟨q, hq, hr⟩ := List.mem_flatMap.1 hr
      exact (h q hq).spliced r hr
    rw [chain_of_two_le (by simp), join]
    apply Canonical.group
    · exact Nat.le_trans (by simp) hlength
    · exact fun r hr => (hparts r hr).1
    · exact fun r hr => (hparts r hr).2

end Canonical

end Sift.Query
