import Mathlib.Tactic.Choose
import Sift.Proofs.Query.Parsed

/-!
# Names that a text shows

The text of a tree mentions its references, and in collapsed style the names of the expansions in
it, too, but nothing inside these. `Query.shownNames` are these names. `Proper` are the trees of
rules and names that a text can state, whichever style they are written in: parsing and expanding
make no others (`Parsed.proper`, `Proper.substitute`). The text of a proper tree can be parsed, and
the tree that it means mentions exactly the shown names (`Proper.parse_print_mentions`).
-/

namespace Sift.Query

variable {schema : Schema} {style : Style} {name : String}

/-! ### Shown names -/

mutual

/-- The names that the text of a tree mentions. -/
def shownNames (style : Style) : Query → List String
  | rule x origin => (((rule x origin).shownName style).map Reference.name).toList
  | reference ref => [ref.name]
  | group condition negated children origin =>
    match (group condition negated children origin).shownName style with
    | some ref => [ref.name]
    | none => shownNamesOfAll style children

/-- The names that the texts of some trees mention. -/
def shownNamesOfAll (style : Style) : List Query → List String
  | [] => []
  | q :: rest => q.shownNames style ++ shownNamesOfAll style rest

end

@[simp]
theorem shownNamesOfAll_eq_flatMap (style : Style) (children : List Query) :
  shownNamesOfAll style children = children.flatMap (shownNames style)
  := by
  induction children with
  | nil => rfl
  | cons _ _ ih => rw [shownNamesOfAll, ih, List.flatMap_cons]

theorem shownNames_of_shown {q : Query} {ref : Reference} (h : q.shownName style = some ref) :
  q.shownNames style = [ref.name]
  := by
  cases q with
  | rule =>
    rw [shownNames, h]
    rfl
  | group =>
    rw [shownNames.eq_def]
    simp only [h]
  | reference =>
    cases style <;> cases h
    rfl

theorem shownNames_group {condition : Condition} {negated : Bool} {children : List Query}
    {origin : Origin} (h : (group condition negated children origin).shownName style = none) :
  (group condition negated children origin).shownNames style
    = children.flatMap (shownNames style)
  := by
  rw [shownNames.eq_def]
  simp only [h, shownNamesOfAll_eq_flatMap]

/-! ### Names in chains -/

theorem mem_references_spliced {condition : Condition} {q : Query} :
  (∃ r ∈ spliced condition q, name ∈ r.references) ↔ name ∈ q.references
  := by
  cases q with
  | rule => simp [spliced]
  | group own negated children origin =>
    rw [spliced]
    split
    · rw [mem_references_group]
    · simp
  | reference => simp [spliced]

/-- A chain mentions what its operands mention. -/
theorem mem_references_chain {condition : Condition} {operands : List Query} :
  name ∈ (chain condition operands).references ↔ ∃ q ∈ operands, name ∈ q.references
  := by
  match operands with
  | [] => simp [chain, join]
  | [only] => simp [chain]
  | first :: second :: others =>
    rw [chain_of_two_le (by simp), join, mem_references_group]
    constructor
    · rintro ⟨r, hr, hname⟩
      obtain ⟨q, hq, hr⟩ := List.mem_flatMap.mp hr
      exact ⟨q, hq, mem_references_spliced.mp ⟨r, hr, hname⟩⟩
    · rintro ⟨q, hq, hname⟩
      obtain ⟨r, hr, hname⟩ := mem_references_spliced.mpr hname
      exact ⟨r, List.mem_flatMap.mpr ⟨q, hq, hr⟩, hname⟩

/-- The tree that a text means mentions exactly the names that the text shows. -/
theorem Rereads.mem_references_iff {q r : Query} (h : q.Rereads schema style r) :
  name ∈ r.references ↔ name ∈ q.shownNames style
  := by
  have hmention (ref : Reference) : name ∈ ref.mention.references ↔ name = ref.name := by
    rw [Reference.mention, mem_references_reference, eq_comm]
  induction h with
  | shown hshown => rw [shownNames_of_shown hshown, List.mem_singleton, hmention]
  | rule hshown => simp [ofRule, shownNames, hshown]
  | empty hshown => simp [shownNames_group hshown]
  | @group condition negated children origin read hshown hne _ ih =>
    have hchain : name ∈ (chain condition (children.map read)).references
        ↔ ∃ q ∈ children, name ∈ q.shownNames style := by
      simp only [mem_references_chain, List.mem_map, exists_exists_and_eq_and]
      apply exists_congr
      intro q
      apply and_congr_right
      exact ih q
    rw [shownNames_group hshown, List.mem_flatMap, ← hchain]
    split
    · exact mem_references_negate
    · rfl
  | reference => rw [hmention, shownNames, List.mem_singleton]

/-! ### Proper trees -/

/-- Whether the rules of a tree are ones that a text can state, and so are its references and the
names of its expansions. -/
structure Proper (schema : Schema) (q : Query) : Prop where
  rule : ∀ {x origin}, Query.rule x origin ∈ q.nodes → x.Proper schema
  named : ∀ {node ref}, node ∈ q.nodes → node.named = some ref → ref.Legible schema

theorem proper_rule {x : Rule} {origin : Origin} :
  (rule x origin).Proper schema
    ↔ x.Proper schema ∧ ∀ ref, origin.named = some ref → ref.Legible schema
  := by
  constructor
  · intro h
    exact ⟨h.rule (List.mem_singleton_self _), fun ref => h.named (List.mem_singleton_self _)⟩
  · rintro ⟨hx, horigin⟩
    constructor
    · intro y other hmem
      cases List.mem_singleton.mp hmem
      exact hx
    · intro node ref hmem
      rw [List.mem_singleton.mp hmem]
      exact horigin ref

theorem proper_reference {ref : Reference} :
  (reference ref).Proper schema ↔ ref.Legible schema
  := by
  constructor
  · intro h
    exact h.named (List.mem_singleton_self _) rfl
  · intro h
    constructor
    · intro y other hmem
      cases List.mem_singleton.mp hmem
    · intro node other hmem hother
      rw [List.mem_singleton.mp hmem] at hother
      cases hother
      exact h

theorem proper_group {condition : Condition} {negated : Bool} {children : List Query}
    {origin : Origin} :
  (group condition negated children origin).Proper schema
    ↔ (∀ ref, origin.named = some ref → ref.Legible schema)
      ∧ ∀ q ∈ children, q.Proper schema
  := by
  have hnodes : (group condition negated children origin).nodes
      = group condition negated children origin :: children.flatMap nodes := by
    rw [nodes, nodesOfAll_eq_flatMap]
  constructor
  · intro h
    constructor
    · exact fun ref hnamed => h.named (mem_nodes_self _) hnamed
    · intro q hq
      have hsubset {node : Query} (hnode : node ∈ q.nodes) :
          node ∈ (group condition negated children origin).nodes := by
        rw [hnodes]
        exact List.mem_cons_of_mem _ (List.mem_flatMap.mpr ⟨q, hq, hnode⟩)
      exact ⟨fun hnode => h.rule (hsubset hnode), fun hnode => h.named (hsubset hnode)⟩
  · rintro ⟨horigin, hchildren⟩
    constructor
    · intro x other hmem
      rw [hnodes, List.mem_cons] at hmem
      obtain heq | hmem := hmem
      · cases heq
      · obtain ⟨q, hq, hmem⟩ := List.mem_flatMap.mp hmem
        exact (hchildren q hq).rule hmem
    · intro node ref hmem hnamed
      rw [hnodes, List.mem_cons] at hmem
      obtain rfl | hmem := hmem
      · exact horigin ref hnamed
      · obtain ⟨q, hq, hmem⟩ := List.mem_flatMap.mp hmem
        exact (hchildren q hq).named hmem hnamed

namespace Proper

theorem legible_of_shown {q : Query} (h : q.Proper schema) {ref : Reference}
    (hshown : q.shownName style = some ref) :
  ref.Legible schema
  := by
  cases style with
  | collapsed => exact h.named q.mem_nodes_self hshown
  | expanded => cases hshown

/-- The text of a proper tree means a tree. -/
theorem exists_rereads {q : Query} (h : q.Proper schema) (style : Style) :
  ∃ r, q.Rereads schema style r
  := by
  induction q with
  | rule x origin =>
    cases hshown : (Query.rule x origin).shownName style with
    | none => exact ⟨_, .rule hshown (proper_rule.mp h).1⟩
    | some ref => exact ⟨_, .shown hshown (h.legible_of_shown hshown)⟩
  | group condition negated children origin ih =>
    cases hshown : (Query.group condition negated children origin).shownName style with
    | none =>
      by_cases hne : children = []
      · subst hne
        exact ⟨_, .empty hshown⟩
      · choose! read hread using fun q hq => ih q hq ((proper_group.mp h).2 q hq)
        exact ⟨_, .group hshown hne hread⟩
    | some ref => exact ⟨_, .shown hshown (h.legible_of_shown hshown)⟩
  | reference ref => exact ⟨_, .reference (proper_reference.mp h)⟩

/-- The text of a proper tree can be parsed, to a tree that mentions exactly the names that are
shown. -/
theorem parse_print_mentions {q : Query} (h : q.Proper schema) (style : Style) :
  ∃ r, parse schema (q.print style) = .ok r
    ∧ ∀ name, name ∈ r.references ↔ name ∈ q.shownNames style
  := by
  obtain ⟨r, hr⟩ := h.exists_rereads style
  exact ⟨r, hr.parse_print, fun name => hr.mem_references_iff⟩

/-! ### Trees that come up -/

theorem negate {q : Query} (h : q.Proper schema) :
  q.negate.Proper schema
  := by
  cases q with
  | rule x origin =>
    obtain ⟨hx, horigin⟩ := proper_rule.mp h
    rw [Query.negate]
    split
    case h_1 operator hoperator => exact proper_rule.mpr ⟨hx.negated hoperator, horigin⟩
    case h_2 =>
      apply proper_group.mpr
      constructor
      · rintro _ ⟨⟩
      · rw [List.forall_mem_singleton]
        exact h
  | group condition negated children origin =>
    obtain ⟨horigin, hchildren⟩ := proper_group.mp h
    rw [Query.negate.eq_def]
    simp only
    split
    · exact hchildren _ List.mem_cons_self
    · exact proper_group.mpr ⟨horigin, hchildren⟩
  | reference ref =>
    have href := proper_reference.mp h
    exact proper_reference.mpr ⟨href.isReferenceName, href.notField⟩

theorem markChildren {q : Query} (h : q.Proper schema) :
  q.markChildren.Proper schema
  := by
  induction q with
  | rule x origin =>
    obtain ⟨hx, horigin⟩ := proper_rule.mp h
    exact proper_rule.mpr ⟨hx, horigin⟩
  | group condition negated children origin ih =>
    obtain ⟨horigin, hchildren⟩ := proper_group.mp h
    rw [Query.markChildren, markAll_eq_map]
    refine proper_group.mpr ⟨horigin, ?_⟩
    rw [List.forall_mem_map]
    exact fun q hq => ih q hq (hchildren q hq)
  | reference ref =>
    have href := proper_reference.mp h
    exact proper_reference.mpr ⟨href.isReferenceName, href.notField⟩

theorem setNamed {q : Query} (h : q.Proper schema) {named : Option Reference}
    (hnamed : ∀ ref, named = some ref → ref.Legible schema) :
  (q.setNamed named).Proper schema
  := by
  cases q with
  | rule => exact proper_rule.mpr ⟨(proper_rule.mp h).1, hnamed⟩
  | group => exact proper_group.mpr ⟨hnamed, (proper_group.mp h).2⟩
  | reference => exact h

/-- The expansion of a mention in its place is proper. -/
theorem expansion {ref : Reference} (href : ref.Legible schema) {expanded : Query}
    (h : expanded.Proper schema) :
  (ref.expansion expanded).Proper schema
  := by
  have hexpanded : (if ref.negated then expanded.negate else expanded).Proper schema := by
    split
    · exact h.negate
    · exact h
  apply hexpanded.markChildren.setNamed
  rintro _ ⟨⟩
  exact ⟨href.isReferenceName, href.notField⟩

/-- A proper tree stays proper when its names are expanded to proper trees. -/
theorem substitute {q : Query} {expansions : List (String × Query)} (h : q.Proper schema)
    (hexpansions : ∀ name ∈ q.references, ∀ expanded, expansions.lookup name = some expanded →
      expanded.Proper schema) :
  (q.substitute expansions).Proper schema
  := by
  induction q with
  | rule => exact h
  | group condition negated children origin ih =>
    obtain ⟨horigin, hchildren⟩ := proper_group.mp h
    rw [Query.substitute, substituteAll_eq_map]
    refine proper_group.mpr ⟨horigin, ?_⟩
    rw [List.forall_mem_map]
    intro q hq
    apply ih q hq (hchildren q hq)
    intro name hname
    exact hexpansions name (mem_references_group.mpr ⟨q, hq, hname⟩)
  | reference ref =>
    rw [Query.substitute]
    split
    case h_1 expanded hlookup =>
      apply expansion (proper_reference.mp h)
      exact hexpansions ref.name (by simp) expanded hlookup
    case h_2 => exact h

end Proper

/-- What is parsed is proper. -/
theorem Parsed.proper {q : Query} (h : q.Parsed schema) :
  q.Proper schema
  := by
  induction h with
  | rule hx => exact proper_rule.mpr ⟨hx, nofun⟩
  | reference hname => exact proper_reference.mpr ⟨hname.1, hname.2⟩
  | empty => exact proper_group.mpr ⟨nofun, fun _ => nofun⟩
  | range hx =>
    refine proper_group.mpr ⟨nofun, ?_⟩
    rw [List.forall_mem_singleton]
    exact proper_rule.mpr ⟨hx, nofun⟩
  | group _ _ _ _ ih => exact proper_group.mpr ⟨nofun, ih⟩

end Sift.Query
