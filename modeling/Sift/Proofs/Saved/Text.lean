import Sift.Proofs.Query.Origin
import Sift.Proofs.Query.WrittenOut
import Sift.Proofs.Saved.Meaning
import Sift.Proofs.Saved.SelfReference

/-!
# Texts of expanded trees

The collapsed text of a tree does not change when its names are expanded: the root of an expansion
is no reference, so it carries the mention that it stands for and is written as that
(`resolve?_print_collapsed`).

Written out, an expanded tree may have shapes that no text is parsed to, such as groups of one child
and groups in groups of the same kind. Its text can be parsed all the same and mentions no names,
and what is parsed has the value of the expanded tree (`resolve?_print_expanded`).
-/

namespace Sift

namespace Query

/-! ### Collapsed texts -/

theorem named_setNamed {q : Query} (h : q.references = []) (named : Option Reference) :
  (q.setNamed named).named = named
  := by
  cases q with
  | rule | group => rfl
  | reference ref => exact absurd h (references_reference_ne_nil ref)

/-- The root of an expansion that mentions no names carries the mention. -/
theorem named_expansion {ref : Reference} {expanded : Query} (h : expanded.references = []) :
  (ref.expansion expanded).named = some { name := ref.name, negated := ref.negated }
  := by
  apply named_setNamed
  rw [references_eq_nil_congr fun _ => mem_references_markChildren]
  split
  · rwa [references_eq_nil_congr fun _ => mem_references_negate]
  · exact h

/-- In collapsed style the expansion of a name is written as the name. -/
theorem chars_substitute {expansions : List (String × Query)} {q : Query}
    (h : ∀ name ∈ q.references, ∃ expanded, expansions.lookup name = some expanded
      ∧ expanded.references = []) (parent : Option Condition) :
  (q.substitute expansions).chars .collapsed parent = q.chars .collapsed parent
  := by
  induction q generalizing parent with
  | rule => rfl
  | group condition negated children origin ih =>
    rw [substitute, substituteAll_eq_map]
    apply chars_group_congr
    · rfl
    · rw [List.map_map]
      apply List.map_congr_left
      intro child hchild
      apply ih child hchild
      intro name hname
      exact h name (mem_references_group.mpr ⟨child, hchild, hname⟩)
  | reference ref =>
    obtain ⟨expanded, hlookup, hnil⟩ := h ref.name (by simp)
    -- Names inside the expansion do not matter, since the text ends at its root.
    have hshown : (ref.expansion expanded).shownName .collapsed
        = some { name := ref.name, negated := ref.negated } := named_expansion hnil
    rw [substitute, hlookup]
    exact chars_of_shown hshown parent

end Query

namespace Resolver

variable {resolver : Resolver}

/-- A tree has the same collapsed text before and after its names are expanded. -/
theorem resolve?_print_collapsed {ancestors : List String} {q r : Query}
    (h : resolver.resolve? ancestors q = .ok r) :
  r.print .collapsed = q.print .collapsed
  := by
  obtain ⟨log, hyields⟩ := resolve?_eq_ok_iff.mp h
  obtain ⟨expansions, rfl, hnames⟩ := resolveWithin_inv hyields
  rw [Query.print, Query.print, Query.chars_substitute]
  intro name hname
  obtain ⟨-, _, _, expanded, -, -, hlookup, _, _, hexpanded⟩ := hnames name hname
  exact ⟨expanded, hlookup, references_of_yields hexpanded⟩

/-- A tree in which names are expanded already, and others are mentioned. -/
def agesBefore : Query :=
  .group .or true
    [.reference { name := "YOUNG", negated := true },
      .group .and false [.reference { name := "OLD" },
        .join .or [.ofRule ⟨"age", .absent, none⟩, .reference { name := "OLD", negated := true }]]
        ⟨some { name := "PARTS" }, false⟩,
      .join .or [.rule ⟨"age", .lt, some (.number (Number.ofNat 9))⟩ ⟨some { name := "KID" }, true⟩,
        .reference { name := "YOUNG" }]] {}

/-- The tree of a text that mentions a saved query. -/
def agesNamed : Query :=
  .group .or true [.reference { name := "YOUNG" },
    .ofRule ⟨"age", .eq, some (.number (Number.ofDigits true ['0'] []))⟩] {}

/-- The tree in which the saved queries have been expanded. -/
def agesExpanded : Query :=
  .group .or true
    [.group .and false
        [.group .and true [.rule ⟨"age", .gt, some (.number (Number.ofNat 65))⟩ ⟨none, true⟩]
            ⟨some ⟨"OLD", true, false⟩, true⟩,
          .rule ⟨"age", .present, none⟩ ⟨none, true⟩]
        ⟨some ⟨"YOUNG", false, false⟩, true⟩,
      .ofRule ⟨"age", .eq, some (.number (Number.ofDigits true ['0'] []))⟩] {}

theorem expanded_ages :
  (ages.resolve? ["TOP"] agesBefore).isOk = true
    ∧ Query.parse ages.schema "!(YOUNG | age = -0)" = .ok agesNamed
    ∧ ages.resolve? [] agesNamed = .ok agesExpanded
    ∧ ∀ x ∈ agesExpanded.numbers, x.isFinite = true
  := by
  refine ⟨?_, ?_, ?_, ?_⟩
  · decide +kernel
  · decide +kernel
  · decide +kernel
  · decide +kernel

theorem resolve?_print_collapsed_ages :
  ∃ r, ages.resolve? ["TOP"] agesBefore = .ok r ∧ r.print .collapsed = agesBefore.print .collapsed
  := by
  have hok := expanded_ages.1
  cases h : ages.resolve? ["TOP"] agesBefore with
  | error e =>
    rw [h] at hok
    cases hok
  | ok r => exact ⟨r, rfl, resolve?_print_collapsed h⟩

/-! ### Expanded texts -/

/-- The expansion of a tree without a disjunction of nothing has none. -/
theorem noEmptyOr_of_yields (hdefault : resolver.schema.NamesDefault) {levels : Nat}
    {ancestors log log' : List String} {q r : Query} (hq : q.NoEmptyOr)
    (h : Yields (resolver.resolveWithin levels ancestors q) log r log') :
  r.NoEmptyOr
  := by
  apply kept_of_yields _ Query.NoEmptyOr.substitute hq h
  intro name q hmeant
  obtain ⟨s, hparse⟩ := exists_parse_of_meant hmeant
  exact (Query.parsed_of_parse hdefault hparse).noEmptyOr

/-- When the names in a tree that has been parsed are expanded and its numbers are finite, the
expanded text can be parsed. What is parsed mentions no names and has the value of the expanded
tree under every truth assignment. -/
theorem resolve?_print_expanded (hdefault : resolver.schema.NamesDefault) {s : String}
    {q r : Query} (hparse : Query.parse resolver.schema s = .ok q) {ancestors : List String}
    (h : resolver.resolve? ancestors q = .ok r) (hfinite : ∀ x ∈ r.numbers, x.isFinite = true) :
  ∃ b, Query.parse resolver.schema (r.print .expanded) = .ok b ∧ b.references = []
    ∧ ∀ (valuation : Valuation) names,
      b.holds (Rule.holds valuation.positive) names
        = r.holds (Rule.holds valuation.positive) names
  := by
  have hparsed := Query.parsed_of_parse hdefault hparse
  have hproper : r.Proper resolver.schema := proper_resolve? hdefault hparsed.proper h
  obtain ⟨log, hyields⟩ := resolve?_eq_ok_iff.mp h
  have hempty := noEmptyOr_of_yields hdefault hparsed.noEmptyOr hyields
  have hreferences := references_of_yields hyields
  obtain ⟨b, hb, hmentions, hholds⟩ := (hproper.legible hfinite .expanded).parse_print_holds
  exact ⟨b, hb, (Query.references_eq_nil_congr hmentions).mpr hreferences, hholds hempty⟩

theorem resolve?_print_expanded_ages :
  Query.parse ages.schema "!(YOUNG | age = -0)" = .ok agesNamed
    ∧ ages.resolve? [] agesNamed = .ok agesExpanded
    ∧ ∃ b, Query.parse ages.schema (agesExpanded.print .expanded) = .ok b ∧ b.references = []
      ∧ ∀ (valuation : Valuation) names,
        b.holds (Rule.holds valuation.positive) names
          = agesExpanded.holds (Rule.holds valuation.positive) names
  := by
  have hdefault : ages.schema.NamesDefault := by rintro _ _ ⟨⟩
  obtain ⟨-, hparse, hresolve, hfinite⟩ := expanded_ages
  exact ⟨hparse, hresolve, resolve?_print_expanded hdefault hparse hresolve hfinite⟩

end Resolver

end Sift
