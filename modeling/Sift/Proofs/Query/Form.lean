import Sift.Proofs.Query.RoundTrip

/-!
# The canonical form of trees

`Query.InCanonicalForm` says of every node of a tree what canonical trees look like: no node came
out of a saved query, a group is empty, negates a single range rule or has at least two children,
none of which could be spliced into it, and rules and references are about what the schema has.
A tree is in this form if and only if it is canonical (`inCanonicalForm_iff_canonical`). Parsing
makes no other trees, complementing stays among them, and complementing twice changes none of them
(`inCanonicalForm_of_parse_and_negate`).
-/

namespace Sift

/-! ### Rules -/

/-- Whether every field of a schema is stored under its own name. -/
def Schema.NamesFields (schema : Schema) : Prop :=
  ∀ name field, schema.field? name = some field → field.name = name

/-- Whether a list has no parts inside its parts and a regex can be written for the engine. -/
def Value.IsStated : Value → Prop
  | list items => ∀ item ∈ items, item.IsAtom
  | regex pattern ignoreCase => ∃ converted, Pattern.toEngine pattern ignoreCase = .ok converted
  | string _ | number _ | bool _ => True

theorem Value.Proper.isStated {v : Value} (hv : v.Proper) :
  v.IsStated
  := by
  cases v with
  | string | number | bool => trivial
  | list items => exact hv
  | regex pattern ignoreCase => exact hv.2

/-- Whether the field of a rule is one of the schema, and its value is stated or not needed. -/
structure Rule.IsStated (schema : Schema) (x : Rule) : Prop where
  hasField : schema.hasField x.field = true
  value : ∀ v ∈ x.value, v.IsStated
  noValue : x.value = none → x.operator.requiresValue = false

theorem Rule.Proper.isStated {schema : Schema} {x : Rule} (hx : x.Proper schema) :
  x.IsStated schema
  := ⟨hx.hasField, fun v hv => (hx.value v hv).isStated, hx.noValue⟩

/-- A stated rule is stated with the complementary operator, too. -/
theorem Rule.IsStated.negated {schema : Schema} {x : Rule} (hx : x.IsStated schema)
    {operator : Operator} (hoperator : x.operator.negated? = some operator) :
  Rule.IsStated schema { x with operator }
  := by
  refine ⟨hx.hasField, hx.value, ?_⟩
  intro hvalue
  rw [Operator.requiresValue_of_negated? hoperator]
  exact hx.noValue hvalue

/-- Whether a name can be that of a saved query and is not that of a field. -/
def Schema.IsMention (schema : Schema) (name : String) : Prop :=
  isReferenceName name.toList = true ∧ schema.hasField name = false

namespace Query

variable {schema : Schema}

/-! ### Nodes -/

/-- Whether a group has no children and is a conjunction, or negates a single range rule, or has
at least two children. -/
def IsGrouped (condition : Condition) (negated : Bool) (children : List Query) : Prop :=
  (children = [] ∧ condition = .and)
    ∨ (condition = .and ∧ negated = true
      ∧ ∃ x origin, children = [.rule x origin] ∧ x.operator.isRange = true)
    ∨ 2 ≤ children.length

/-- Whether no child of a group could be spliced into it: those of its kind are negated or
empty. -/
def IsFlat (condition : Condition) (children : List Query) : Prop :=
  ∀ {negated inner origin}, .group condition negated inner origin ∈ children →
    negated = true ∨ inner = []

/-- What the canonical form asks of a node and its children. -/
def IsSettled (schema : Schema) : Query → Prop
  | rule x origin => origin = {} ∧ x.IsStated schema
  | group condition negated children origin =>
    origin = {} ∧ IsGrouped condition negated children ∧ IsFlat condition children
  | reference ref => ref.isChild = false ∧ schema.IsMention ref.name

/-- Whether every node of a tree is as the canonical form asks. -/
def InCanonicalForm (schema : Schema) (q : Query) : Prop :=
  ∀ node ∈ q.nodes, node.IsSettled schema

theorem inCanonicalForm_rule {x : Rule} {origin : Origin} :
  (rule x origin).InCanonicalForm schema ↔ origin = {} ∧ x.IsStated schema
  := by
  simp [InCanonicalForm, nodes, IsSettled]

theorem inCanonicalForm_reference {ref : Reference} :
  (reference ref).InCanonicalForm schema ↔ ref.isChild = false ∧ schema.IsMention ref.name
  := by
  simp [InCanonicalForm, nodes, IsSettled]

theorem inCanonicalForm_group {condition : Condition} {negated : Bool} {children : List Query}
    {origin : Origin} :
  (group condition negated children origin).InCanonicalForm schema
    ↔ (origin = {} ∧ IsGrouped condition negated children ∧ IsFlat condition children)
      ∧ ∀ q ∈ children, q.InCanonicalForm schema
  := by
  simp only [InCanonicalForm, nodes, nodesOfAll_eq_flatMap, List.forall_mem_cons, IsSettled,
    List.mem_flatMap, forall_exists_index, and_imp]
  grind

/-! ### Canonical trees -/

/-- What a flat group has as a child contributes itself to the group. -/
theorem spliced_of_isFlat {condition : Condition} {children : List Query}
    (h : IsFlat condition children) {q : Query} (hq : q ∈ children) :
  spliced condition q = [q]
  := by
  cases q with
  | rule => rfl
  | group own negated inner origin =>
    rw [spliced, if_neg]
    intro hsplice
    simp only [Bool.and_eq_true, decide_eq_true_eq, Bool.not_eq_true', Option.isNone_iff_eq_none,
      List.isEmpty_eq_false_iff] at hsplice
    obtain ⟨⟨⟨rfl, hnegated⟩, -⟩, hne⟩ := hsplice
    obtain hnot | hempty := h hq
    · rw [hnot] at hnegated
      cases hnegated
    · exact hne hempty
  | reference => rfl

/-- A group is flat if its children are canonical and contribute themselves to it. -/
theorem isFlat_of_spliced {good : Rule → Prop} {known : String → Prop} {condition : Condition}
    {children : List Query} (hchildren : ∀ q ∈ children, Canonical good known q)
    (h : ∀ q ∈ children, spliced condition q = [q]) :
  IsFlat condition children
  := by
  intro negated inner origin hmem
  have hself := h _ hmem
  cases hchildren _ hmem with
  | empty => exact .inr rfl
  | range => exact .inl rfl
  | group _ hlength =>
    cases negated with
    | true => exact .inl rfl
    | false =>
      -- An open group of this kind would contribute its children, which are at least two.
      have hne : inner.isEmpty = false := by
        rw [List.isEmpty_eq_false_iff]
        rintro rfl
        simp at hlength
      have hinner : spliced condition (.group condition false inner {}) = inner := by
        simp [spliced, hne]
      rw [hinner] at hself
      rw [hself] at hlength
      simp at hlength

/-- A tree is in canonical form if and only if it is canonical, of stated rules and of names that
can be mentioned. -/
theorem inCanonicalForm_iff_canonical {q : Query} :
  q.InCanonicalForm schema ↔ Canonical (Rule.IsStated schema) schema.IsMention q
  := by
  constructor
  · intro h
    induction q with
    | rule x origin =>
      obtain ⟨rfl, hx⟩ := inCanonicalForm_rule.mp h
      exact .rule hx
    | group condition negated children origin ih =>
      obtain ⟨⟨rfl, hgrouped, hflat⟩, hchildren⟩ := inCanonicalForm_group.mp h
      obtain ⟨rfl, rfl⟩ | ⟨rfl, rfl, x, origin, rfl, hrange⟩ | hlength := hgrouped
      · exact .empty negated
      · obtain ⟨rfl, hx⟩ := inCanonicalForm_rule.mp (hchildren _ (List.mem_singleton_self _))
        exact .range hx (Operator.negated?_eq_none_iff.mpr hrange)
      · apply Canonical.group negated hlength
        · exact fun q hq => ih q hq (hchildren q hq)
        · exact fun q hq => spliced_of_isFlat hflat hq
    | reference ref =>
      obtain ⟨name, negated, isChild⟩ := ref
      obtain ⟨rfl, hname⟩ := inCanonicalForm_reference.mp h
      exact .reference hname negated
  · intro h
    induction h with
    | rule hx => exact inCanonicalForm_rule.mpr ⟨rfl, hx⟩
    | reference hname => exact inCanonicalForm_reference.mpr ⟨rfl, hname⟩
    | empty negated =>
      apply inCanonicalForm_group.mpr
      refine ⟨⟨rfl, .inl ⟨rfl, rfl⟩, ?_⟩, ?_⟩
      · rintro _ _ _ ⟨⟩
      · rintro _ ⟨⟩
    | @range x hx hrange =>
      apply inCanonicalForm_group.mpr
      have hgrouped : IsGrouped .and true [.rule x {}] :=
        .inr (.inl ⟨rfl, rfl, x, {}, rfl, Operator.negated?_eq_none_iff.mp hrange⟩)
      refine ⟨⟨rfl, hgrouped, ?_⟩, ?_⟩
      · intro _ _ _ hmem
        cases List.mem_singleton.mp hmem
      · intro q hq
        rw [List.mem_singleton.mp hq]
        exact inCanonicalForm_rule.mpr ⟨rfl, hx⟩
    | group negated hlength hchildren hflat ih =>
      apply inCanonicalForm_group.mpr
      exact ⟨⟨rfl, .inr (.inr hlength), isFlat_of_spliced hchildren hflat⟩, ih⟩

/-! ### Parsing and complementing -/

/-- What is looked for in the default field is canonical. -/
theorem canonical_shorthand (hnames : schema.NamesFields) {literal : List Char} {place : Nat}
    {q : Query} (h : Syntax.shorthand schema literal place = .ok q) :
  Canonical (Rule.IsStated schema) schema.IsMention q
  := by
  rw [Syntax.shorthand] at h
  split at h
  case h_1 => cases h
  case h_2 field hfield =>
    cases h
    obtain ⟨name, -, hfound, hknown⟩ := Schema.exists_name_of_shorthandField? hfield
    apply Canonical.rule
    refine ⟨?_, ?_, ?_⟩
    · rw [hnames name field hfound]
      exact hknown
    · rintro _ ⟨⟩
      trivial
    · rintro ⟨⟩

/-- What a lone name means is canonical. -/
theorem canonical_nameQuery (hnames : schema.NamesFields) {whole text : List Char} {start : Nat}
    {q : Query} (h : Syntax.nameQuery schema whole text start = .ok q) :
  Canonical (Rule.IsStated schema) schema.IsMention q
  := by
  obtain hparsed | ⟨-, -, hsearch⟩ := Parsed.nameQuery_or_shorthand h
  · exact hparsed.mono (fun x hx => hx.isStated) fun _ hname => hname
  · exact canonical_shorthand hnames hsearch

/-- What is parsed is canonical. -/
theorem canonical_of_parse (hnames : schema.NamesFields) {s : String} {q : Query}
    (h : parse schema s = .ok q) :
  Canonical (Rule.IsStated schema) schema.IsMention q
  := by
  apply Canonical.of_parse _ _ (canonical_shorthand hnames) (canonical_nameQuery hnames) h
  · intro x operator hx hoperator
    exact hx.negated hoperator
  · intro _ _ _ _ _ hfield hvalue hrule
    apply Canonical.mono (Parsed.comparisonRule hfield hvalue hrule)
    · exact fun x hx => hx.isStated
    · exact fun name hname => hname

/-- Parsing gives trees in canonical form only. The complement of a tree in canonical form is in
canonical form, and the complement of that is the tree. -/
theorem inCanonicalForm_of_parse_and_negate (hnames : schema.NamesFields) :
  (∀ (s : String) (q : Query), parse schema s = .ok q → q.InCanonicalForm schema)
    ∧ ∀ q : Query, q.InCanonicalForm schema →
      q.negate.InCanonicalForm schema ∧ q.negate.negate = q
  := by
  constructor
  · intro s q h
    exact inCanonicalForm_iff_canonical.mpr (canonical_of_parse hnames h)
  · intro q h
    have hcanonical := inCanonicalForm_iff_canonical.mp h
    constructor
    · apply inCanonicalForm_iff_canonical.mpr
      apply hcanonical.negate
      intro x operator hx hoperator
      exact hx.negated hoperator
    · exact hcanonical.negate_negate

theorem people_namesFields :
  people.NamesFields
  := by
  intro name field h
  rw [Schema.field?, people] at h
  simp only [Table.ofList, List.foldl_cons, List.foldl_nil, Table.get?_insert, Table.get?_empty]
    at h
  split at h
  case isTrue hname =>
    cases h
    exact hname
  case isFalse =>
    split at h
    case isTrue hage =>
      cases h
      exact hage
    case isFalse => cases h

theorem inCanonicalForm_people :
  people.NamesFields
    ∧ ∃ q, parse people "!age > 1 & (Adults | !(name in [a, 2] | name exists))" = .ok q
      ∧ q.InCanonicalForm people ∧ q.negate.InCanonicalForm people ∧ q.negate.negate = q
  := by
  obtain ⟨hform, hnegate⟩ := inCanonicalForm_of_parse_and_negate people_namesFields
  have hparse : parse people "!age > 1 & (Adults | !(name in [a, 2] | name exists))"
      = .ok (.join .and [
          .group .and true
            [.ofRule ⟨"age", .gt, some (.number (Number.ofDigits false ['1'] []))⟩] {},
          .join .or [.reference { name := "Adults" },
            .group .or true [
              .ofRule ⟨"name", .isIn,
                some (.list [.string "a", .number (Number.ofDigits false ['2'] [])])⟩,
              .ofRule ⟨"name", .present, none⟩] {}]]) := by
    decide +kernel
  exact ⟨people_namesFields, _, hparse, hform _ _ hparse, hnegate _ (hform _ _ hparse)⟩

end Query

end Sift
