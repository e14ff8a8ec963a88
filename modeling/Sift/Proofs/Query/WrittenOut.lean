import Sift.Proofs.Query.Faults
import Sift.Proofs.Query.RoundTrip
import Sift.Proofs.Query.Truth

/-!
# Trees that are written out

The text of a legible tree, with all expansions written out, is parsed to a tree that has the same
value under every `Valuation`, as long as no group is an empty disjunction: an empty group is
written as `()` whatever its condition is, and that is the empty conjunction
(`Legible.parse_print_holds`).

A tree without faults that mentions no saved query is legible if its numbers are finite and its
regexes end where they should, whether or not it has been parsed (`Rule.legible_of_faults`,
`legible_of_rules`). So its text means what it means (`parse_print_of_faults`).
-/

namespace Sift

/-! ### Truth assignments -/

/-- A truth value for every rule with a positive operator. Rules that are equal have the same
value, and zero is equal to zero whatever its sign. -/
structure Valuation where
  positive : Rule → Bool
  congr : ∀ {x y : Rule}, (Query.ofRule x).agrees (Query.ofRule y) = true →
    positive x = positive y

/-- The value of a rule does not depend on the sign of zero. -/
theorem Valuation.holds_unsignZeros (valuation : Valuation) (x : Rule) :
  Rule.holds valuation.positive { x with value := x.value.map Value.unsignZeros }
    = Rule.holds valuation.positive x
  := by
  rw [Rule.holds, Rule.holds]
  congr 1
  apply valuation.congr
  rw [Query.agrees, decide_eq_true_eq]
  exact Query.unsignZeros_unsignZeros (.ofRule { x with operator := x.operator.positive })

namespace Query

variable {schema : Schema}

/-! ### Empty disjunctions -/

/-- Whether a node is a disjunction of nothing. -/
def isEmptyOr : Query → Bool
  | group .or _ [] _ => true
  | _ => false

/-- Whether no group of a tree is a disjunction of nothing. -/
def NoEmptyOr (q : Query) : Prop :=
  ∀ node ∈ q.nodes, node.isEmptyOr = false

instance (q : Query) : Decidable q.NoEmptyOr :=
  inferInstanceAs (Decidable (∀ node ∈ q.nodes, node.isEmptyOr = false))

@[simp]
theorem noEmptyOr_rule (x : Rule) (origin : Origin) :
  (rule x origin).NoEmptyOr
  := by
  simp [NoEmptyOr, nodes, isEmptyOr]

@[simp]
theorem noEmptyOr_reference (ref : Reference) :
  (reference ref).NoEmptyOr
  := by
  simp [NoEmptyOr, nodes, isEmptyOr]

theorem noEmptyOr_group {condition : Condition} {negated : Bool} {children : List Query}
    {origin : Origin} :
  (group condition negated children origin).NoEmptyOr
    ↔ (children = [] → condition = .and) ∧ ∀ q ∈ children, q.NoEmptyOr
  := by
  have hroot : (group condition negated children origin).isEmptyOr = false
      ↔ (children = [] → condition = .and) := by
    cases condition <;> cases children <;> simp [isEmptyOr]
  simp only [NoEmptyOr, nodes, nodesOfAll_eq_flatMap, List.forall_mem_cons, hroot,
    List.mem_flatMap]
  grind

@[simp]
theorem noEmptyOr_negate {q : Query} :
  q.negate.NoEmptyOr ↔ q.NoEmptyOr
  := by
  cases q with
  | rule x origin =>
    rw [negate]
    split
    · simp
    · simp [noEmptyOr_group]
  | group condition negated children origin =>
    rw [negate.eq_def]
    simp only
    split
    · simp [noEmptyOr_group]
    · simp [noEmptyOr_group]
  | reference => simp [negate]

@[simp]
theorem noEmptyOr_setNamed {named : Option Reference} {q : Query} :
  (q.setNamed named).NoEmptyOr ↔ q.NoEmptyOr
  := by
  cases q <;> simp [setNamed, noEmptyOr_group]

@[simp]
theorem noEmptyOr_markChildren {q : Query} :
  q.markChildren.NoEmptyOr ↔ q.NoEmptyOr
  := by
  induction q with
  | rule => simp [markChildren]
  | group condition negated children origin ih =>
    rw [markChildren, markAll_eq_map, noEmptyOr_group, noEmptyOr_group, List.map_eq_nil_iff,
      List.forall_mem_map]
    apply and_congr_right
    intro _
    apply forall₂_congr
    exact ih
  | reference => simp [markChildren]

@[simp]
theorem noEmptyOr_expansion {ref : Reference} {expanded : Query} :
  (ref.expansion expanded).NoEmptyOr ↔ expanded.NoEmptyOr
  := by
  rw [Reference.expansion]
  split
  · simp
  · simp

/-- Expanding names to trees without empty disjunctions makes none. -/
theorem NoEmptyOr.substitute {q : Query} {expansions : List (String × Query)} (h : q.NoEmptyOr)
    (hexpansions : ∀ name ∈ q.references, ∀ expanded, expansions.lookup name = some expanded →
      expanded.NoEmptyOr) :
  (q.substitute expansions).NoEmptyOr
  := by
  induction q with
  | rule => exact h
  | group condition negated children origin ih =>
    obtain ⟨hempty, hchildren⟩ := noEmptyOr_group.mp h
    rw [Query.substitute, substituteAll_eq_map, noEmptyOr_group, List.map_eq_nil_iff,
      List.forall_mem_map]
    refine ⟨hempty, ?_⟩
    intro q hq
    apply ih q hq (hchildren q hq)
    intro name hname
    exact hexpansions name (mem_references_group.mpr ⟨q, hq, hname⟩)
  | reference ref =>
    rw [Query.substitute]
    split
    case h_1 expanded hlookup =>
      rw [noEmptyOr_expansion]
      exact hexpansions ref.name (by simp) expanded hlookup
    case h_2 => exact h

/-- Reading a text makes no disjunction of nothing. -/
theorem Canonical.noEmptyOr {good : Rule → Prop} {known : String → Prop} {q : Query}
    (h : Canonical good known q) :
  q.NoEmptyOr
  := by
  induction h with
  | rule => simp
  | reference => simp
  | empty => simp [noEmptyOr_group]
  | range => simp [noEmptyOr_group]
  | group negated hlength _ _ ih =>
    rw [noEmptyOr_group]
    refine ⟨?_, ih⟩
    rintro rfl
    simp at hlength

/-! ### The value of a text -/

/-- Where no group is an empty disjunction, the text of a tree means a tree with the same value. -/
theorem holds_reread (valuation : Valuation) (names : String → Bool) {q : Query}
    (h : q.NoEmptyOr) :
  (q.reread .expanded).holds (Rule.holds valuation.positive) names
    = q.holds (Rule.holds valuation.positive) names
  := by
  induction q with
  | rule x origin => exact valuation.holds_unsignZeros x
  | group condition negated children origin ih =>
    obtain ⟨hempty, hchildren⟩ := noEmptyOr_group.mp h
    by_cases hne : children = []
    -- Nothing is read as a conjunction, so this is where a disjunction would change its value.
    · cases hempty hne
      subst hne
      rw [reread_group_nil rfl, holds, holds]
    · have hchain : (chain condition (children.map (reread .expanded))).holds
          (Rule.holds valuation.positive) names
            = condition.combine (children.map (holds (Rule.holds valuation.positive) names)) := by
        rw [holds_chain, List.map_map]
        congr 1
        apply List.map_congr_left
        intro q hq
        exact ih q hq (hchildren q hq)
      rw [reread_group rfl hne, holds, holdsAll_eq_map]
      cases negated with
      | false => rw [if_neg Bool.false_ne_true, hchain, Bool.false_xor]
      | true =>
        rw [if_pos rfl, holds_negate (complementary_holds valuation.positive), hchain,
          Bool.true_xor]
  | reference => rfl

/-- The text of a tree that is written out mentions what the tree mentions. -/
theorem mem_shownNames_expanded {q : Query} {name : String} :
  name ∈ q.shownNames .expanded ↔ name ∈ q.references
  := by
  induction q with
  | rule => simp [shownNames, shownName]
  | group condition negated children origin ih =>
    rw [shownNames_group rfl, List.mem_flatMap, mem_references_group]
    apply exists_congr
    intro q
    apply and_congr_right
    exact ih q
  | reference ref => rw [shownNames, List.mem_singleton, mem_references_reference, eq_comm]

/-- The text of a legible tree is parsed to a tree that mentions the same names, and that has the
same value if no group is an empty disjunction. -/
theorem Legible.parse_print_holds {q : Query} (h : q.Legible schema .expanded) :
  ∃ r, parse schema (q.print .expanded) = .ok r
    ∧ (∀ name, name ∈ r.references ↔ name ∈ q.references)
    ∧ (q.NoEmptyOr → ∀ (valuation : Valuation) names,
        r.holds (Rule.holds valuation.positive) names
          = q.holds (Rule.holds valuation.positive) names)
  := by
  use q.reread .expanded, parse_print h
  constructor
  · intro name
    rw [h.rereads.mem_references_iff, mem_shownNames_expanded]
  · intro hempty valuation names
    apply holds_reread valuation names hempty

end Query

/-! ### Rules without faults -/

section Faults

variable {schema : Schema} {field : Field} {operator : Operator} {value : Value}

/-- A value without faults has no parts unless it is a regex, which is for searches only. -/
theorem isScalar_of_valueFaults (h : valueFaults field operator value = [])
    (hsearch : operator.takesRegex = false) (hfinite : ∀ x ∈ value.numbers, x.isFinite = true) :
  value.IsScalar
  := by
  have haccepts := accepts_of_valueFaults h
  cases value with
  | string | bool => trivial
  | number x => exact hfinite x (List.mem_singleton_self x)
  | list => cases haccepts
  | regex => simp [FieldType.accepts, hsearch] at haccepts

/-- A value without faults can be written down if it is finite, or a regex that ends where it
should. -/
theorem legible_of_valueFaults (h : valueFaults field operator value = [])
    (hfinite : ∀ x ∈ value.numbers, x.isFinite = true)
    (hregex : ∀ pattern ignoreCase, value = .regex pattern ignoreCase →
      Syntax.LiteralBody Syntax.endsRegex pattern.toList) :
  value.Legible
  := by
  cases value with
  | string | bool => trivial
  | number x => exact hfinite x (List.mem_singleton_self x)
  | list => cases accepts_of_valueFaults h
  | regex pattern ignoreCase => exact ⟨hregex pattern ignoreCase rfl, toEngine_of_valueFaults h⟩

/-- The pattern that a rule matches with, if it matches with a regex. -/
def Rule.patterns (x : Rule) : List String :=
  match x.value with
  | some (.regex pattern _) => [pattern]
  | _ => []

/-- A rule without faults can be written down if its field is an identifier, its numbers are finite
and its regex ends where it should: a slash or the end of a line stands behind a backslash. -/
theorem Rule.legible_of_faults {x : Rule}
    (hfields : ∀ name, schema.hasField name = true → Syntax.isIdentifier name.toList = true)
    (hfaults : x.faults schema = []) (hfinite : ∀ n ∈ x.numbers, n.isFinite = true)
    (hpatterns : ∀ pattern ∈ x.patterns, Syntax.LiteralBody Syntax.endsRegex pattern.toList) :
  x.Legible schema
  := by
  obtain ⟨field, hfield, -, hoperand⟩ := exists_field_of_faults hfaults
  have hknown : schema.hasField x.field = true := by
    rw [Schema.hasField, Table.contains, ← Schema.field?.eq_1, hfield]
    rfl
  refine ⟨hfields x.field hknown, hknown, ?_, ?_⟩
  · intro value hvalue
    rw [Option.mem_def] at hvalue
    rw [numbers, hvalue] at hfinite
    obtain ⟨-, hnone | ⟨b, hbool⟩⟩ | ⟨hin, items, hitems, hall⟩ | ⟨-, -, other, hother, hvalid⟩ :=
      operandFaults_cases hoperand
    · cases hvalue.symm.trans hnone
    · cases hvalue.symm.trans hbool
      trivial
    · cases hvalue.symm.trans hitems
      intro item hitem
      apply isScalar_of_valueFaults (hall item hitem)
      · simp [Operator.takesRegex, hin]
      · intro n hn
        apply hfinite n
        rw [Option.elim_some, Value.numbers, Value.numbersOfItems_eq_flatMap, List.mem_flatMap]
        exact ⟨item, hitem, hn⟩
    · cases hvalue.symm.trans hother
      apply legible_of_valueFaults hvalid hfinite
      rintro pattern ignoreCase rfl
      apply hpatterns
      rw [patterns, hvalue]
      exact List.mem_singleton_self pattern
  · intro hnone
    obtain ⟨hpresent, -⟩ | ⟨-, items, hitems, -⟩ | ⟨-, -, other, hother, -⟩ :=
      operandFaults_cases hoperand
    · cases hoperator : x.operator <;> rw [hoperator] at hpresent <;> cases hpresent <;> rfl
    · cases hnone.symm.trans hitems
    · cases hnone.symm.trans hother

end Faults

namespace Query

/-! ### Trees without faults -/

variable {schema : Schema}

/-- The patterns that the rules of a tree match with. -/
def patterns (q : Query) : List String :=
  q.nodes.flatMap fun
    | rule x _ => x.patterns
    | _ => []

/-- A tree that mentions no saved query can be written out if its rules can. -/
theorem legible_of_rules {q : Query} (hreferences : q.references = [])
    (hrules : ∀ x origin, rule x origin ∈ q.nodes → x.Legible schema) :
  q.Legible schema .expanded
  := by
  induction q with
  | rule x origin => exact .rule rfl (hrules x origin (List.mem_singleton_self _))
  | group condition negated children origin ih =>
    apply Legible.group rfl
    intro q hq
    apply ih q hq
    · exact references_group_eq_nil_iff.mp hreferences q hq
    · intro x origin' hx
      exact hrules x origin' (rule_mem_nodes_group.mpr ⟨q, hq, hx⟩)
  | reference ref => exact absurd hreferences (references_reference_ne_nil ref)

/-- A tree without faults that mentions no saved query is written out as a text of the same
meaning, if fields are identifiers, numbers are finite and regexes end where they should: the text
can be parsed, and where no group is an empty disjunction, to a tree that has the same value under
every truth assignment. -/
theorem parse_print_of_faults
    (hfields : ∀ name, schema.hasField name = true → Syntax.isIdentifier name.toList = true)
    {q : Query} (hreferences : q.references = []) (hfaults : q.faults schema [] = [])
    (hfinite : ∀ n ∈ q.numbers, n.isFinite = true)
    (hpatterns : ∀ pattern ∈ q.patterns, Syntax.LiteralBody Syntax.endsRegex pattern.toList) :
  ∃ r, parse schema (q.print .expanded) = .ok r ∧ r.references = []
    ∧ (q.NoEmptyOr → ∀ (valuation : Valuation) names,
        r.holds (Rule.holds valuation.positive) names
          = q.holds (Rule.holds valuation.positive) names)
  := by
  have hlegible : q.Legible schema .expanded := by
    apply legible_of_rules hreferences
    intro x origin hx
    apply Rule.legible_of_faults hfields (rule_faults_of_faults hfaults hx)
    · intro n hn
      exact hfinite n (List.mem_flatMap.mpr ⟨_, hx, hn⟩)
    · intro pattern hpattern
      exact hpatterns pattern (List.mem_flatMap.mpr ⟨_, hx, hpattern⟩)
  obtain ⟨r, hparse, hmentions, hholds⟩ := hlegible.parse_print_holds
  exact ⟨r, hparse, (references_eq_nil_congr hmentions).mpr hreferences, hholds⟩

theorem isIdentifier_of_hasField_people {name : String} (h : people.hasField name = true) :
  Syntax.isIdentifier name.toList = true
  := by
  have hall : ∀ entry ∈ people.fields.entries, Syntax.isIdentifier entry.1.toList = true := by
    decide
  obtain ⟨field, hfield⟩ := Option.isSome_iff_exists.mp h
  exact hall (name, field) (Table.get?_eq_some_iff.mp hfield)

/-- A tree that no text is parsed to: it has groups of one child, a group in one of its kind, an
expansion, a truth value behind a test for presence, and a regex with a slash. -/
def handmade : Query :=
  .group .or true
    [.join .or [.ofRule ⟨"age", .absent, some (.bool false)⟩,
        .group .and true [.ofRule ⟨"name", .notContains, some (.regex "a\\/b" true)⟩] {}],
      .join .and [.rule ⟨"age", .gt, some (.number (Number.ofDigits true ['0'] []))⟩
        ⟨some { name := "GROWN" }, true⟩],
      .group .and true [] {}] {}

theorem parse_print_of_faults_handmade :
  handmade.references = [] ∧ handmade.faults people [] = [] ∧ handmade.NoEmptyOr
    ∧ ∃ r, parse people (handmade.print .expanded) = .ok r ∧ r.references = []
      ∧ ∀ (valuation : Valuation) names,
        r.holds (Rule.holds valuation.positive) names
          = handmade.holds (Rule.holds valuation.positive) names
  := by
  have hreferences : handmade.references = [] := rfl
  have hfaults : handmade.faults people [] = [] := by decide +kernel
  have hfinite : ∀ n ∈ handmade.numbers, n.isFinite = true := by decide +kernel
  have hempty : handmade.NoEmptyOr := by decide
  have hpatterns : ∀ pattern ∈ handmade.patterns,
      Syntax.LiteralBody Syntax.endsRegex pattern.toList := by
    decide
  obtain ⟨r, hparse, hmentions, hholds⟩ := parse_print_of_faults
    (fun _ => isIdentifier_of_hasField_people) hreferences hfaults hfinite hpatterns
  exact ⟨hreferences, hfaults, hempty, r, hparse, hmentions, hholds hempty⟩

/-- A disjunction of nothing has no faults, but it is written as the empty text, which every
document meets. -/
theorem parse_print_emptyOr :
  (∀ name, people.hasField name = true → Syntax.isIdentifier name.toList = true)
    ∧ (group .or false [] {}).references = []
    ∧ (group .or false [] {}).faults people [] = []
    ∧ (group .or false [] {}).numbers = []
    ∧ parse people ((group .or false [] {}).print .expanded) = .ok everything
    ∧ ∀ rules names, everything.holds rules names = true
      ∧ (group .or false [] {}).holds rules names = false
  := ⟨fun _ => isIdentifier_of_hasField_people, rfl, rfl, rfl, rfl, fun _ _ => ⟨rfl, rfl⟩⟩

/-- A slash in a regex without faults ends the regex when it is read again: what is behind it is an
error, or it is read as more of the query. -/
theorem parse_print_openRegex :
  (ofRule ⟨"name", .contains, some (.regex "a/b" false)⟩).faults people [] = []
    ∧ parse people ((ofRule ⟨"name", .contains, some (.regex "a/b" false)⟩).print .expanded)
      = .error (.malformedValue "/")
    ∧ (ofRule ⟨"name", .contains, some (.regex "a/ | age = 1 & name contains /b" false)⟩).faults
      people [] = []
    ∧ parse people ((ofRule ⟨"name", .contains,
        some (.regex "a/ | age = 1 & name contains /b" false)⟩).print .expanded)
      = .ok (.join .or [.ofRule ⟨"name", .contains, some (.regex "a" false)⟩,
        .join .and [.ofRule ⟨"age", .eq, some (.number (Number.ofNat 1))⟩,
          .ofRule ⟨"name", .contains, some (.regex "b" false)⟩]])
  := by
  refine ⟨?_, ?_, ?_, ?_⟩
  · decide +kernel
  · decide +kernel
  · decide +kernel
  · decide +kernel

end Query

end Sift
