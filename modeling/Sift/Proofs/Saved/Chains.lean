import Sift.Proofs.Saved.Expansion

/-!
# Chains of names

A chain of names leads from a tree to a name that it mentions, from there to a name that the
tree of this name mentions, and so on. `Resolver.resolve?_isOk_iff` says that the names in a tree
can be expanded exactly if all chains are harmless: every name on them means a tree, none is an
ancestor or occurs twice, and they are not too long.
-/

namespace Sift.Resolver

variable {resolver : Resolver}

/-- A chain of names that starts at a tree. -/
inductive Chain (resolver : Resolver) : Query → List String → Prop
  | last {q : Query} {name : String} : name ∈ q.references → Chain resolver q [name]
  | next {q parsed : Query} {name : String} {rest : List String} : name ∈ q.references →
      resolver.meant? name = some parsed → Chain resolver parsed rest →
      Chain resolver q (name :: rest)

/-- A chain that an expansion inside the expansions of `ancestors` can follow to its end, with
`levels` levels left. -/
structure Harmless (resolver : Resolver) (levels : Nat) (ancestors names : List String) : Prop where
  meant : ∀ name ∈ names, ∃ parsed, resolver.meant? name = some parsed
  notMem_ancestors : ∀ name ∈ names, name ∉ ancestors
  nodup : names.Nodup
  length_le : names.length ≤ levels

/-- A chain is harmless if its first name is, and the rest is inside the expansion of that. -/
theorem harmless_cons {levels : Nat} {ancestors rest : List String} {name : String}
    {parsed : Query} (hmeant : resolver.meant? name = some parsed) (hname : name ∉ ancestors) :
  resolver.Harmless (levels + 1) ancestors (name :: rest)
    ↔ resolver.Harmless levels (ancestors ++ [name]) rest
  := by
  constructor
  · rintro ⟨hrest, hancestors, hnodup, hlength⟩
    constructor
    · intro other hother
      apply hrest other (List.mem_cons_of_mem name hother)
    · intro other hother hmem
      rw [List.mem_append, List.mem_singleton] at hmem
      obtain hmem | rfl := hmem
      · apply hancestors other (List.mem_cons_of_mem name hother) hmem
      · apply (List.nodup_cons.mp hnodup).1 hother
    · apply (List.nodup_cons.mp hnodup).2
    · simpa using hlength
  · rintro ⟨hrest, hancestors, hnodup, hlength⟩
    have hdisjoint : ∀ other ∈ rest, other ∉ ancestors ∧ other ≠ name := by
      intro other hother
      simpa [not_or] using hancestors other hother
    constructor
    · intro other hother
      obtain rfl | hother := List.mem_cons.mp hother
      · exact ⟨parsed, hmeant⟩
      · apply hrest other hother
    · intro other hother
      obtain rfl | hother := List.mem_cons.mp hother
      · exact hname
      · apply (hdisjoint other hother).1
    · rw [List.nodup_cons]
      exact ⟨fun h => (hdisjoint name h).2 rfl, hnodup⟩
    · simpa using hlength

/-- An expansion has followed every chain to its end. -/
theorem harmless_of_yields {levels : Nat} {ancestors names log log' : List String} {q r : Query}
    (h : Yields (resolver.resolveWithin levels ancestors q) log r log')
    (hchain : resolver.Chain q names) :
  resolver.Harmless levels ancestors names
  := by
  induction hchain generalizing levels ancestors log r log' with
  | last hname =>
    obtain ⟨_, -, hnames⟩ := resolveWithin_inv h
    obtain ⟨hancestor, fewer, parsed, -, rfl, hmeant, -⟩ := hnames _ hname
    rw [harmless_cons hmeant hancestor]
    exact ⟨by simp, by simp, .nil, Nat.zero_le _⟩
  | next hname hmeant _ ih =>
    obtain ⟨_, -, hnames⟩ := resolveWithin_inv h
    obtain ⟨hancestor, fewer, parsed, _, rfl, hmeant', -, _, _, hyields⟩ := hnames _ hname
    obtain rfl := Option.some.inj (hmeant.symm.trans hmeant')
    rw [harmless_cons hmeant hancestor]
    apply ih hyields

/-- An expansion that can follow every chain to its end succeeds. -/
theorem yields_of_harmless {levels : Nat} {ancestors : List String} {q : Query}
    (h : ∀ names, resolver.Chain q names → resolver.Harmless levels ancestors names)
    (log : List String) :
  ∃ r log', Yields (resolver.resolveWithin levels ancestors q) log r log'
  := by
  induction levels generalizing ancestors q log with
  | zero =>
    apply yields_resolveWithin
    intro name hname
    cases (h [name] (.last hname)).length_le
  | succ levels ih =>
    apply yields_resolveWithin
    intro name hname
    have hharmless := h [name] (.last hname)
    have hancestor := hharmless.notMem_ancestors name (by simp)
    obtain ⟨parsed, hmeant⟩ := hharmless.meant name (by simp)
    use hancestor, levels, parsed, rfl, hmeant
    apply ih
    intro rest hrest
    rw [← harmless_cons hmeant hancestor]
    apply h _ (.next hname hmeant hrest)

/-- The names in a tree can be expanded exactly if on every chain all names mean a tree, none is an
ancestor, none occurs twice, and the chain together with the ancestors is within the depth. -/
theorem resolve?_isOk_iff (ancestors : List String) (q : Query) :
  (∃ r, resolver.resolve? ancestors q = .ok r)
    ↔ ∀ names, resolver.Chain q names →
      (∀ name ∈ names, ∃ parsed, resolver.meant? name = some parsed)
        ∧ (∀ name ∈ names, name ∉ ancestors) ∧ names.Nodup
        ∧ ancestors.length + names.length ≤ resolver.maxDepth
  := by
  constructor
  · rintro ⟨r, hr⟩ names hchain
    obtain ⟨log, hyields⟩ := resolve?_eq_ok_iff.mp hr
    obtain ⟨hmeant, hancestors, hnodup, hlength⟩ := harmless_of_yields hyields hchain
    refine ⟨hmeant, hancestors, hnodup, ?_⟩
    have hpos : 0 < names.length := by
      cases hchain <;> simp
    omega
  · intro h
    have hharmless : ∀ names, resolver.Chain q names →
        resolver.Harmless (resolver.maxDepth - ancestors.length) ancestors names := by
      intro names hchain
      obtain ⟨hmeant, hancestors, hnodup, hlength⟩ := h names hchain
      exact ⟨hmeant, hancestors, hnodup, by omega⟩
    obtain ⟨r, log, hyields⟩ := yields_of_harmless hharmless []
    use r
    apply resolve?_eq_ok_iff.mpr ⟨log, hyields⟩

end Sift.Resolver
