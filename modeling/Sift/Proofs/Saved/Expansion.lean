import Sift.Proofs.Computation
import Sift.Proofs.Query.Tree

/-!
# Expansion of names

`Resolver.meant?` is the tree that a name means. What `resolveWithin` yields is settled by what it
yields on the trees that the names of a tree mean: `resolveWithin_inv` takes an expansion apart,
and `yields_resolveWithin` and `yields_substitute` build one.
-/

namespace Sift

namespace Query

variable {expansions others : List (String × Query)}

/-- A tree without references is its own expansion. -/
theorem substitute_of_references_eq_nil {q : Query} (h : q.references = []) :
  q.substitute expansions = q
  := by
  induction q with
  | rule => rfl
  | group condition negated children origin ih =>
    rw [substitute, substituteAll_eq_map]
    congr 1
    apply Eq.trans _ (List.map_id children)
    apply List.map_congr_left
    intro child hchild
    exact ih child hchild (references_group_eq_nil_iff.mp h child hchild)
  | reference ref => exact absurd h (references_reference_ne_nil ref)

end Query

/-- The expansion of a name is looked up among the results for all names. -/
theorem lookup_of_forall₂ {P : String → Query → Prop} {names : List String}
    {expansions : List (String × Query)}
    (h : List.Forall₂ (fun name found => found.1 = name ∧ P name found.2) names expansions)
    {name : String} (hname : name ∈ names) :
  ∃ expanded, expansions.lookup name = some expanded ∧ P name expanded
  := by
  induction h with
  | nil => cases hname
  | @cons first found _ _ hfound _ ih =>
    obtain ⟨key, expanded⟩ := found
    obtain ⟨rfl, hP⟩ := hfound
    by_cases heq : name = key
    · subst heq
      exact ⟨expanded, by simp, hP⟩
    · obtain ⟨other, hother, hP'⟩ := ih (List.mem_of_ne_of_mem heq hname)
      use other
      rw [List.lookup_cons, beq_false_of_ne heq]
      exact ⟨hother, hP'⟩

namespace Resolver

variable {resolver : Resolver}

/-- The tree that a name means: that of its query, if there is one that can be read. -/
def meant? (resolver : Resolver) (name : String) : Option Query :=
  match resolver.find name with
  | .ok (some found) => (Query.parse resolver.schema found.text).toOption
  | _ => none

/-- Looking a name up yields the tree that it means. -/
theorem yields_lookUp {name : String} {log log' : List String} {q : Query} :
  Yields (resolver.lookUp name) log q log'
    ↔ resolver.meant? name = some q ∧ log' = log ++ [name]
  := by
  rw [lookUp, meant?]
  simp only [yields_bind, yields_modify]
  rcases resolver.find name with e | _ | found
  · simp
  · simp
  · cases hparse : Query.parse resolver.schema found.text with
    | error e => simp [hparse, Except.toOption]
    | ok parsed =>
      simp only [hparse, yields_pure, Except.toOption, Option.some.injEq]
      grind

/-- The tree that a name means has been parsed. -/
theorem exists_parse_of_meant {name : String} {q : Query} (h : resolver.meant? name = some q) :
  ∃ s, Query.parse resolver.schema s = .ok q
  := by
  rw [meant?] at h
  split at h
  case h_1 found hfound =>
    use found.text
    cases hparse : Query.parse resolver.schema found.text with
    | error e =>
      rw [hparse] at h
      cases h
    | ok parsed =>
      rw [hparse] at h
      cases h
      rfl
  case h_2 => cases h

/-- The expansion of one of the names of a tree, with the name. -/
def expandName (resolver : Resolver) (levels : Nat) (ancestors : List String) (name : String) :
    Resolving (String × Query) := do
  let parsed ← resolver.lookUp name
  let expanded ← resolver.resolveWithin levels (ancestors ++ [name]) parsed
  return (name, expanded)

theorem yields_expandName {levels : Nat} {ancestors log log' : List String} {name : String}
    {found : String × Query} :
  Yields (resolver.expandName levels ancestors name) log found log'
    ↔ found.1 = name ∧ ∃ parsed, resolver.meant? name = some parsed
      ∧ Yields (resolver.resolveWithin levels (ancestors ++ [name]) parsed) (log ++ [name])
          found.2 log'
  := by
  simp only [expandName, yields_bind, yields_lookUp, yields_pure]
  constructor
  · rintro ⟨parsed, _, ⟨hmeant, rfl⟩, expanded, _, hexpanded, rfl, rfl⟩
    exact ⟨rfl, parsed, hmeant, hexpanded⟩
  · rintro ⟨rfl, parsed, hmeant, hexpanded⟩
    exact ⟨parsed, _, ⟨hmeant, rfl⟩, found.2, log', hexpanded, rfl, rfl⟩

/-- One level of an expansion. -/
theorem resolveWithin_eq (levels : Nat) (ancestors : List String) (q : Query) :
  resolver.resolveWithin levels ancestors q =
    if q.references.isEmpty then pure q
    else match q.references.find? ancestors.contains with
      | some name => throw (.cyclic name)
      | none => match levels with
        | 0 => throw (.tooDeep resolver.maxDepth)
        | levels + 1 => do
          let expansions ← q.references.mapM (resolver.expandName levels ancestors)
          return q.substitute expansions
  := by
  cases levels with
  | zero => apply resolveWithin.eq_1
  | succ levels => apply resolveWithin.eq_2

/-- What an expansion comes from: a tree in which every name stands for the expansion of the tree
that it means. -/
theorem resolveWithin_inv {levels : Nat} {ancestors log log' : List String} {q r : Query}
    (h : Yields (resolver.resolveWithin levels ancestors q) log r log') :
  ∃ expansions, r = q.substitute expansions ∧ ∀ name ∈ q.references,
    name ∉ ancestors ∧ ∃ fewer parsed expanded, levels = fewer + 1
      ∧ resolver.meant? name = some parsed ∧ expansions.lookup name = some expanded
      ∧ ∃ t t', Yields (resolver.resolveWithin fewer (ancestors ++ [name]) parsed) t expanded t'
  := by
  rw [resolveWithin_eq] at h
  split at h
  · rename_i hempty
    rw [yields_pure] at h
    have hnil := List.isEmpty_iff.mp hempty
    use []
    rw [Query.substitute_of_references_eq_nil hnil, hnil]
    exact ⟨h.1, by simp⟩
  · split at h
    · cases not_yields_throw h
    · rename_i hfind
      split at h
      · cases not_yields_throw h
      · rename_i fewer
        simp only [yields_bind, yields_pure] at h
        obtain ⟨expansions, t, hexpansions, rfl, -⟩ := h
        use expansions, rfl
        intro name hname
        constructor
        · simpa using List.find?_eq_none.mp hfind name hname
        · let P (name : String) (expanded : Query) : Prop :=
            ∃ parsed, resolver.meant? name = some parsed ∧ ∃ t t',
              Yields (resolver.resolveWithin fewer (ancestors ++ [name]) parsed) t expanded t'
          have hall : List.Forall₂ (fun name found => found.1 = name ∧ P name found.2)
              q.references expansions := by
            apply hexpansions.forall₂.imp
            rintro name found ⟨t, t', hfound⟩
            obtain ⟨heq, parsed, hmeant, hyields⟩ := yields_expandName.mp hfound
            exact ⟨heq, parsed, hmeant, _, _, hyields⟩
          obtain ⟨expanded, hlookup, parsed, hmeant, hyields⟩ := lookup_of_forall₂ hall hname
          exact ⟨fewer, parsed, expanded, rfl, hmeant, hlookup, hyields⟩

/-- What a tree has and every tree that a name means, the expansion has, too, if it is kept when
names are expanded to trees that have it. -/
theorem kept_of_yields {P : Query → Prop}
    (hmeant : ∀ {name q}, resolver.meant? name = some q → P q)
    (hsubstitute : ∀ {q expansions}, P q → (∀ name ∈ q.references, ∀ expanded,
      expansions.lookup name = some expanded → P expanded) → P (q.substitute expansions))
    {levels : Nat} {ancestors log log' : List String} {q r : Query} (hq : P q)
    (h : Yields (resolver.resolveWithin levels ancestors q) log r log') :
  P r
  := by
  induction levels generalizing ancestors q r log log' with
  | zero =>
    obtain ⟨expansions, rfl, hnames⟩ := resolveWithin_inv h
    apply hsubstitute hq
    intro name hname
    obtain ⟨-, _, _, _, hzero, -⟩ := hnames name hname
    cases hzero
  | succ levels ih =>
    obtain ⟨expansions, rfl, hnames⟩ := resolveWithin_inv h
    apply hsubstitute hq
    intro name hname found hfound
    obtain ⟨-, fewer, parsed, expanded, hlevels, hparsed, hlookup, _, _, hyields⟩ :=
      hnames name hname
    cases hlevels
    cases hlookup.symm.trans hfound
    exact ih (hmeant hparsed) hyields

/-- A tree has an expansion if none of its names is an ancestor, there is a level left, and the
trees that the names mean have expansions. -/
theorem yields_resolveWithin {levels : Nat} {ancestors : List String} {q : Query}
    (h : ∀ name ∈ q.references, name ∉ ancestors ∧ ∃ fewer parsed, levels = fewer + 1
      ∧ resolver.meant? name = some parsed ∧ ∀ log, ∃ expanded log',
        Yields (resolver.resolveWithin fewer (ancestors ++ [name]) parsed) log expanded log')
    (log : List String) :
  ∃ r log', Yields (resolver.resolveWithin levels ancestors q) log r log'
  := by
  rw [resolveWithin_eq]
  split
  · exact ⟨q, log, yields_pure.mpr ⟨rfl, rfl⟩⟩
  · rename_i hempty
    have hfind : q.references.find? ancestors.contains = none := by
      rw [List.find?_eq_none]
      intro name hname
      simpa using (h name hname).1
    obtain ⟨first, hfirst⟩ := List.exists_mem_of_ne_nil _ (mt List.isEmpty_iff.mpr hempty)
    obtain ⟨-, fewer, -, rfl, -⟩ := h first hfirst
    simp only [hfind, yields_bind, yields_pure]
    have hnames : ∀ name ∈ q.references, ∀ log, ∃ found log',
        Yields (resolver.expandName fewer ancestors name) log found log' := by
      intro name hname log
      obtain ⟨-, fewer', parsed, hfewer, hmeant, hyields⟩ := h name hname
      obtain rfl : fewer = fewer' := Nat.succ.inj hfewer
      obtain ⟨expanded, log', hexpanded⟩ := hyields (log ++ [name])
      exact ⟨(name, expanded), log', yields_expandName.mpr ⟨rfl, parsed, hmeant, hexpanded⟩⟩
    obtain ⟨expansions, log', hexpansions⟩ := yields_mapM hnames log
    exact ⟨_, _, expansions, log', hexpansions, rfl, rfl⟩

/-- The result of expanding the names in a tree. -/
theorem resolve?_eq_ok_iff {ancestors : List String} {q r : Query} :
  resolver.resolve? ancestors q = .ok r
    ↔ ∃ log, Yields (resolver.resolveWithin (resolver.maxDepth - ancestors.length) ancestors q) []
        r log
  := by
  unfold resolve? resolve Yields
  constructor
  · intro h
    exact ⟨_, Prod.ext h rfl⟩
  · rintro ⟨log, h⟩
    exact congrArg Prod.fst h

end Resolver

end Sift
