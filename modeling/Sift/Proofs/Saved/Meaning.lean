import Sift.Proofs.Query.Truth
import Sift.Proofs.Saved.Expansion

/-!
# Meaning of names

`Resolver.Means` relates a tree to its truth value when each name stands for the tree that it
means, and the names in that for theirs. A tree has at most one such value (`means_unique`), and
`Resolver.resolve?_means` says that a tree whose names have been expanded mentions no names and
has the value of the tree before.
-/

namespace Sift

namespace Query

variable {rules : Rule → Bool} {names : String → Bool}

/-- An expansion in the place of a mention has the value of the tree, complemented if the mention
is negated. -/
theorem holds_expansion (hrules : Complementary rules) (ref : Reference) (expanded : Query) :
  (ref.expansion expanded).holds rules names = (ref.negated ^^ expanded.holds rules names)
  := by
  rw [Reference.expansion]
  split
  · rename_i hnegated
    simp [holds_negate hrules, hnegated]
  · rename_i hnegated
    simp [hnegated]

/-- A tree in which every name is expanded to a tree without references has none. -/
theorem references_substitute {expansions : List (String × Query)} {q : Query}
    (h : ∀ name ∈ q.references, ∃ expanded, expansions.lookup name = some expanded
      ∧ expanded.references = []) :
  (q.substitute expansions).references = []
  := by
  induction q with
  | rule => rfl
  | group condition negated children origin ih =>
    rw [substitute, substituteAll_eq_map, references_group_eq_nil_iff, List.forall_mem_map]
    intro child hchild
    apply ih child hchild
    intro name hname
    exact h name (mem_references_group.mpr ⟨child, hchild, hname⟩)
  | reference ref =>
    obtain ⟨expanded, hlookup, hnil⟩ := h ref.name (by simp)
    rw [substitute, hlookup]
    exact (references_eq_nil_congr fun _ => mem_references_expansion).mpr hnil

end Query

namespace Resolver

variable {resolver : Resolver} {positive : Rule → Bool}

mutual

/-- The value of a tree in which each name stands for the tree that it means. -/
inductive Means (resolver : Resolver) (positive : Rule → Bool) : Query → Bool → Prop
  | rule (x : Rule) (origin : Origin) :
    Means resolver positive (.rule x origin) (x.holds positive)
  | group {condition : Condition} {negated : Bool} {children : List Query} {origin : Origin}
      {values : List Bool} : AllMean resolver positive children values →
    Means resolver positive (.group condition negated children origin)
      (negated ^^ condition.combine values)
  | reference {ref : Reference} {q : Query} {value : Bool} :
    resolver.meant? ref.name = some q → Means resolver positive q value →
    Means resolver positive (.reference ref) (ref.negated ^^ value)

/-- The values of some trees. -/
inductive AllMean (resolver : Resolver) (positive : Rule → Bool) :
    List Query → List Bool → Prop
  | nil : AllMean resolver positive [] []
  | cons {q : Query} {rest : List Query} {value : Bool} {values : List Bool} :
    Means resolver positive q value → AllMean resolver positive rest values →
    AllMean resolver positive (q :: rest) (value :: values)

end

mutual

/-- A tree has at most one value. -/
theorem means_unique {q : Query} {value value' : Bool} :
    resolver.Means positive q value → resolver.Means positive q value' → value = value'
  | .rule _ _, .rule _ _ => rfl
  | .group h, .group h' => by rw [allMean_unique h h']
  | .reference hmeant h, .reference hmeant' h' => by
    obtain rfl := Option.some.inj (hmeant.symm.trans hmeant')
    rw [means_unique h h']

theorem allMean_unique {children : List Query} {values values' : List Bool} :
    resolver.AllMean positive children values → resolver.AllMean positive children values' →
      values = values'
  | .nil, .nil => rfl
  | .cons h hrest, .cons h' hrest' => by
    rw [means_unique h h', allMean_unique hrest hrest']

end

/-- A tree in which every name is expanded to the value of what it means has the value of the
tree before. -/
theorem means_substitute {names : String → Bool} {expansions : List (String × Query)} {q : Query}
    (h : ∀ name ∈ q.references, ∃ parsed expanded, resolver.meant? name = some parsed
      ∧ expansions.lookup name = some expanded
      ∧ resolver.Means positive parsed (expanded.holds (Rule.holds positive) names)) :
  resolver.Means positive q ((q.substitute expansions).holds (Rule.holds positive) names)
  := by
  induction q with
  | rule x origin => apply Means.rule
  | group condition negated children origin ih =>
    have hchildren : resolver.AllMean positive children
        (children.map fun q => (q.substitute expansions).holds (Rule.holds positive) names) := by
      have hall : ∀ q ∈ children, resolver.Means positive q
          ((q.substitute expansions).holds (Rule.holds positive) names) := by
        intro q hq
        apply ih q hq
        intro name hname
        apply h name (Query.mem_references_group.mpr ⟨q, hq, hname⟩)
      clear ih h
      induction children with
      | nil => exact .nil
      | cons q rest ihrest =>
        exact .cons (hall q (by simp)) (ihrest fun r hr => hall r (by simp [hr]))
    rw [Query.substitute, Query.substituteAll_eq_map, Query.holds, Query.holdsAll_eq_map,
      List.map_map]
    apply Means.group hchildren
  | reference ref =>
    obtain ⟨parsed, expanded, hmeant, hlookup, hmeans⟩ := h ref.name (by simp)
    rw [Query.substitute, hlookup]
    simp only [Query.holds_expansion (Query.complementary_holds positive)]
    apply Means.reference hmeant hmeans

/-- An expansion mentions no names and has the value of the tree before. -/
theorem means_of_yields (positive : Rule → Bool) (names : String → Bool) {levels : Nat}
    {ancestors log log' : List String} {q r : Query}
    (h : Yields (resolver.resolveWithin levels ancestors q) log r log') :
  r.references = [] ∧ resolver.Means positive q (r.holds (Rule.holds positive) names)
  := by
  induction levels generalizing ancestors log log' q r with
  | zero =>
    obtain ⟨expansions, rfl, hnames⟩ := resolveWithin_inv h
    constructor
    · apply Query.references_substitute
      intro name hname
      obtain ⟨-, _, _, _, hlevels, -⟩ := hnames name hname
      cases hlevels
    · apply means_substitute
      intro name hname
      obtain ⟨-, _, _, _, hlevels, -⟩ := hnames name hname
      cases hlevels
  | succ levels ih =>
    obtain ⟨expansions, rfl, hnames⟩ := resolveWithin_inv h
    constructor
    · apply Query.references_substitute
      intro name hname
      obtain ⟨-, _, _, expanded, hlevels, -, hlookup, _, _, hyields⟩ := hnames name hname
      obtain rfl := Nat.succ.inj hlevels
      exact ⟨expanded, hlookup, (ih hyields).1⟩
    · apply means_substitute
      intro name hname
      obtain ⟨-, _, parsed, expanded, hlevels, hmeant, hlookup, _, _, hyields⟩ := hnames name hname
      obtain rfl := Nat.succ.inj hlevels
      exact ⟨parsed, expanded, hmeant, hlookup, (ih hyields).2⟩

/-- An expansion mentions no names. -/
theorem references_of_yields {levels : Nat} {ancestors log log' : List String} {q r : Query}
    (h : Yields (resolver.resolveWithin levels ancestors q) log r log') :
  r.references = []
  := (means_of_yields (fun _ => true) (fun _ => true) h).1

/-- A tree whose names have been expanded mentions no names, and its value is the one value of the
tree before in which each name stands for the tree that it means. -/
theorem resolve?_means {ancestors : List String} {q r : Query}
    (h : resolver.resolve? ancestors q = .ok r) :
  r.references = [] ∧ ∀ positive names value,
    resolver.Means positive q value ↔ r.holds (Rule.holds positive) names = value
  := by
  obtain ⟨log, hyields⟩ := resolve?_eq_ok_iff.mp h
  constructor
  · apply (means_of_yields (fun _ => true) (fun _ => true) hyields).1
  · intro positive names value
    have hmeans := (means_of_yields positive names hyields).2
    constructor
    · intro hvalue
      apply means_unique hmeans hvalue
    · rintro rfl
      exact hmeans

/-- A saved query about age, and one that mentions it negated. -/
def ages : Resolver where
  schema.fields := Table.ofList [("age", { name := "age", type := .number })]
  find name :=
    if name = "OLD" then .ok (some { name, text := "age > 65" })
    else if name = "YOUNG" then .ok (some { name, text := "!OLD & age exists" })
    else .ok none

theorem resolve?_means_ages :
  ∃ r, ages.resolve? ["TOP"] (.reference { name := "YOUNG", negated := true }) = .ok r
    ∧ r.references = [] ∧ ∀ positive names value,
      ages.Means positive (.reference { name := "YOUNG", negated := true }) value
        ↔ r.holds (Rule.holds positive) names = value
  := by
  have h : ages.resolve? ["TOP"] (.reference { name := "YOUNG", negated := true })
      = .ok (.group .and true
        [.group .and true [.rule ⟨"age", .gt, some (.number (Number.ofNat 65))⟩ ⟨none, true⟩]
            ⟨some ⟨"OLD", true, false⟩, true⟩,
          .rule ⟨"age", .present, none⟩ ⟨none, true⟩]
        ⟨some ⟨"YOUNG", true, false⟩, true⟩) := by
    decide +kernel
  exact ⟨_, h, resolve?_means h⟩

end Resolver

end Sift
