import Sift.Clause.Compile
import Sift.Proofs.Computation
import Sift.Proofs.Query.Truth

/-!
# Truth values of clauses

`Clause.holds` is the truth value of a clause, given those of its leaves. The values that a
compilation remembers never change what it results in (`Steady`), so a rule has one clause
wherever it stands, and `Compiler.compile_holds` says that a compiled tree has the value of the
tree, where a rule has the value of the clause of its assertion, complemented as its operator and
its value say.
-/

namespace Sift

/-! ### Values of clauses -/

namespace Clause

variable {leaves : Clause → Bool}

mutual

/-- The truth value of a clause, given those of the clauses that are tests of a field. -/
def holds (leaves : Clause → Bool) : Clause → Bool
  | bool must mustNot should =>
    (holdsAll leaves must).all id && !(holdsAll leaves mustNot).any id
      && (should.isEmpty || (holdsAll leaves should).any id)
  | matchAll => true
  | matchNone => false
  | leaf => leaves leaf

/-- The truth values of some clauses. -/
def holdsAll (leaves : Clause → Bool) : List Clause → List Bool
  | [] => []
  | clause :: rest => clause.holds leaves :: holdsAll leaves rest

end

@[simp]
theorem holdsAll_eq_map (clauses : List Clause) :
  holdsAll leaves clauses = clauses.map (holds leaves)
  := by
  induction clauses with
  | nil => rfl
  | cons _ _ ih => rw [holdsAll, ih, List.map_cons]

@[simp]
theorem holds_notIf (negated : Bool) (clause : Clause) :
  (clause.notIf negated).holds leaves = (negated ^^ clause.holds leaves)
  := by
  cases negated <;> simp [notIf, not, holds]

end Clause

open Clause

/-- The clause of a group has the value of the group. -/
theorem Compiler.holds_groupClause {leaves : Clause → Bool} (condition : Condition)
    (negated : Bool) (children : List Clause) :
  (groupClause condition negated children).holds leaves
    = (negated ^^ condition.combine (children.map (holds leaves)))
  := by
  rw [groupClause, holds_notIf]
  congr 1
  cases children with
  | nil => cases condition <;> simp [emptyClause, holds, Condition.combine]
  | cons clause rest =>
    cases condition <;> simp [joined, all, any, holds, Condition.combine]

/-! ### What a compilation results in -/

/-- A memo that knows of a field only what the source answers. -/
def Memo.Faithful (source : ValueSource) (memo : Memo) : Prop :=
  ∀ field values, memo.known.get? field = some values → source field = .ok values

theorem Memo.faithful_empty (source : ValueSource) :
  Memo.Faithful source {}
  := by
  rintro field values ⟨⟩

variable {α β : Type} {source : ValueSource}

/-- What a compilation results in when no values are known yet. -/
def alone (x : Compiling α) : Except CompileError α :=
  (x.run.run {}).run.1

/-- A compilation whose result does not depend on the values that are known. -/
def Steady (source : ValueSource) (x : Compiling α) : Prop :=
  ∀ memo : Memo, memo.Faithful source →
    ∃ memo' : Memo, memo'.Faithful source ∧ (x.run.run memo).run = (alone x, memo')

theorem steady_of_forall {x : Compiling α} (r : Except CompileError α)
    (h : ∀ memo : Memo, memo.Faithful source →
      ∃ memo' : Memo, memo'.Faithful source ∧ (x.run.run memo).run = (r, memo')) :
  Steady source x ∧ alone x = r
  := by
  obtain ⟨_, -, hr⟩ := h {} (Memo.faithful_empty source)
  have : alone x = r := congrArg Prod.fst hr
  rw [← this] at h
  exact ⟨h, this⟩

theorem steady_pure (a : α) :
  Steady source (pure a : Compiling α)
  := fun memo hmemo => ⟨memo, hmemo, rfl⟩

theorem steady_throw (e : CompileError) :
  Steady source (throw e : Compiling α)
  := fun memo hmemo => ⟨memo, hmemo, rfl⟩

theorem steady_liftM (x : Except CompileError α) :
  Steady source (liftM x : Compiling α) ∧ alone (liftM x : Compiling α) = x
  := by
  apply steady_of_forall
  intro memo hmemo
  use memo, hmemo
  cases x <;> rfl

/-- One steady compilation after another is steady. -/
theorem steady_bind {x : Compiling α} {f : α → Compiling β} (hx : Steady source x)
    (hf : ∀ a, Steady source (f a)) :
  Steady source (x >>= f) ∧ alone (x >>= f) = alone x >>= fun a => alone (f a)
  := by
  apply steady_of_forall
  intro memo hmemo
  obtain ⟨memo₁, hmemo₁, hrun⟩ := hx memo hmemo
  rw [run_run_bind, hrun]
  rcases alone x with e | a
  · exact ⟨memo₁, hmemo₁, rfl⟩
  · exact hf a memo₁ hmemo₁

/-- A steady compilation of each item of a list is steady. -/
theorem steady_mapM {f : α → Compiling β} {items : List α}
    (h : ∀ a ∈ items, Steady source (f a)) :
  Steady source (items.mapM f) ∧ alone (items.mapM f) = items.mapM fun a => alone (f a)
  := by
  induction items with
  | nil => exact ⟨steady_pure [], rfl⟩
  | cons item rest ih =>
    obtain ⟨hrest, hrest'⟩ := ih fun a ha => h a (by simp [ha])
    have hinner (b : β) := steady_bind hrest fun bs => steady_pure (b :: bs)
    obtain ⟨hs, ha⟩ := steady_bind (h item (by simp)) fun b => (hinner b).1
    simp only [List.mapM_cons]
    refine ⟨hs, ?_⟩
    rw [ha]
    congr 1
    funext b
    rw [(hinner b).2, hrest']
    rfl

namespace Compiler

variable (compiler : Compiler)

/-- Asking for stored values results in what the source answers. -/
theorem steady_storedValues (field : String) :
  Steady compiler.source (compiler.storedValues field)
    ∧ alone (compiler.storedValues field) = (compiler.source field).mapError .lookup
  := by
  apply steady_of_forall
  intro memo hmemo
  have hrun : ((compiler.storedValues field).run.run memo).run
      = ((memo.values compiler.source field).1.mapError .lookup,
        (memo.values compiler.source field).2) := rfl
  rw [hrun]
  rw [Memo.values]
  cases hknown : memo.known.get? field with
  | some values =>
    rw [hmemo field values hknown]
    exact ⟨memo, hmemo, rfl⟩
  | none =>
    cases hsource : compiler.source field with
    | error e =>
      refine ⟨_, ?_, rfl⟩
      apply hmemo
    | ok values =>
      refine ⟨_, ?_, rfl⟩
      intro other found h
      simp only [Table.get?_insert] at h
      split at h
      · cases h
        subst other
        exact hsource
      · exact hmemo other found h

theorem steady_reconcile (wanted : List String) (target : String) :
  Steady compiler.source (compiler.reconcile wanted target)
  := (steady_bind (compiler.steady_storedValues _).1 fun _ => steady_pure _).1

theorem steady_exact (field : Field) (values : List Value) :
  Steady compiler.source (compiler.exact field values)
  := by
  rw [Compiler.exact]
  split
  · have h (wanted : List String) :=
      (steady_mapM fun target (_ : target ∈ compiler.targets field) =>
        compiler.steady_reconcile wanted target).1
    apply (steady_bind (h _) fun _ => steady_pure _).1
  · apply steady_pure

theorem steady_positiveClause (field : Field) (x : Rule) :
  Steady compiler.source (compiler.positiveClause field x)
  := by
  rw [positiveClause]
  split
  · apply steady_pure
  · apply (steady_liftM _).1
  · apply (steady_liftM _).1
  · apply steady_pure
  · apply (steady_liftM _).1
  · apply steady_exact
  · apply steady_exact
  · apply steady_throw

/-- A rule has one clause, whatever values are known. -/
theorem steady_rule (x : Rule) :
  Steady compiler.source (compiler.rule x)
  := by
  rw [rule]
  split
  · apply steady_throw
  · split
    · split
      · apply steady_pure
      · apply steady_throw
    · apply (steady_bind (compiler.steady_positiveClause _ x) fun _ => steady_pure _).1

theorem queries_eq_mapM (children : List Query) :
  compiler.queries children = children.mapM compiler.query
  := by
  induction children with
  | nil => rfl
  | cons _ _ ih =>
    rw [queries, ih, List.mapM_cons]

/-- A tree has one clause, whatever values are known. -/
theorem steady_query (q : Query) :
  Steady compiler.source (compiler.query q)
  := by
  induction q with
  | rule x origin =>
    rw [query]
    apply steady_rule
  | group condition negated children origin ih =>
    rw [query, queries_eq_mapM]
    apply (steady_bind (steady_mapM ih).1 fun _ => steady_pure _).1
  | reference ref =>
    rw [query]
    apply steady_throw

/-- A group results in the clause of its condition on what its children result in. -/
theorem alone_query_group (condition : Condition) (negated : Bool) (children : List Query)
    (origin : Origin) :
  alone (compiler.query (.group condition negated children origin))
    = (children.mapM fun q => alone (compiler.query q)).map (groupClause condition negated)
  := by
  have hmap := steady_mapM fun q (_ : q ∈ children) => compiler.steady_query q
  rw [query, queries_eq_mapM,
    (steady_bind hmap.1 fun clauses => steady_pure (groupClause condition negated clauses)).2,
    hmap.2]
  cases children.mapM fun q => alone (compiler.query q) <;> rfl

/-! ### Rules and their assertions -/

end Compiler

/-- The rule with its positive operator; a test for presence has lost its value. -/
def Rule.asserted (x : Rule) : Rule where
  field := x.field
  operator := x.operator.positive
  value := if x.operator.positive = .present then none else x.value

namespace Compiler

variable (compiler : Compiler)

/-- The clause of a rule on its own. -/
def clauseOf (x : Rule) : Except CompileError Clause :=
  alone (compiler.rule x)

/-- The value of a rule: that of the clause of its assertion, complemented for a complementary
operator, and for a test for presence with the value false. -/
def ruleHolds (leaves : Clause → Bool) (x : Rule) : Bool :=
  (x.operator.isNegative ^^ isDenial x) ^^
    match compiler.clauseOf x.asserted with
    | .ok clause => clause.holds leaves
    | .error _ => false

theorem positiveClause_asserted (field : Field) (x : Rule) :
  compiler.positiveClause field x.asserted = compiler.positiveClause field x
  := by
  obtain ⟨_, op, value⟩ := x
  cases op <;> rfl

/-- A test by order is its own assertion. -/
theorem asserted_eq_self {x : Rule} {bound : Bound} (h : Bound.ofOperator? x.operator = some bound) :
  x.asserted = x ∧ x.operator.isNegative = false ∧ isDenial x = false
  := by
  obtain ⟨_, op, value⟩ := x
  cases op with
  | gt | gte | lt | lte => exact ⟨rfl, rfl, rfl⟩
  | _ => cases h

/-- The assertion of a rule that is no test by order is none either, and is not complemented. -/
theorem asserted_of_no_bound {x : Rule} (h : Bound.ofOperator? x.operator = none) :
  Bound.ofOperator? x.asserted.operator = none ∧ x.asserted.operator.isNegative = false
    ∧ isDenial x.asserted = false
  := by
  obtain ⟨_, op, value⟩ := x
  cases op with
  | gt | gte | lt | lte => cases h
  | _ => exact ⟨rfl, rfl, by simp [isDenial, Rule.asserted, Operator.positive]⟩

/-- The clause of a rule is that of its assertion, complemented for a complementary operator, and
for a test for presence with the value false. -/
theorem clauseOf_eq (x : Rule) :
  compiler.clauseOf x
    = (compiler.clauseOf x.asserted).map (notIf (x.operator.isNegative ^^ isDenial x))
  := by
  rw [clauseOf, clauseOf, rule, rule]
  have hfield : x.asserted.field = x.field := rfl
  rw [hfield]
  cases compiler.schema.field? x.field with
  | none => rfl
  | some field =>
    cases hbound : Bound.ofOperator? x.operator with
    | some bound =>
      obtain ⟨heq, hneg, hdenial⟩ := asserted_eq_self hbound
      simp only [heq, hneg, hdenial, hbound]
      cases x.value.bind Value.toTerm? <;> rfl
    | none =>
      obtain ⟨hbound', hneg, hdenial⟩ := asserted_of_no_bound hbound
      have hclause := compiler.steady_positiveClause field x
      simp only [hbound', hneg, hdenial, positiveClause_asserted]
      rw [(steady_bind hclause fun _ => steady_pure _).2,
        (steady_bind hclause fun _ => steady_pure _).2]
      cases alone (compiler.positiveClause field x) <;> rfl

/-- A rule that has a clause has the value of its clause. -/
theorem holds_of_clauseOf {x : Rule} {clause : Clause} (h : compiler.clauseOf x = .ok clause)
    (leaves : Clause → Bool) :
  clause.holds leaves = compiler.ruleHolds leaves x
  := by
  rw [clauseOf_eq] at h
  rw [ruleHolds]
  cases hasserted : compiler.clauseOf x.asserted with
  | error e =>
    rw [hasserted] at h
    cases h
  | ok c =>
    rw [hasserted] at h
    cases h
    rw [holds_notIf]

/-- Complementary operators make complementary rules. -/
theorem complementary_ruleHolds (leaves : Clause → Bool) :
  Query.Complementary (compiler.ruleHolds leaves)
  := by
  rintro ⟨field, op, value⟩ flipped h
  have hasserted : Rule.asserted ⟨field, flipped, value⟩ = Rule.asserted ⟨field, op, value⟩ := by
    cases op <;> cases h <;> rfl
  have hdenial : isDenial ⟨field, flipped, value⟩ = isDenial ⟨field, op, value⟩ := by
    cases op <;> cases h <;> rfl
  have hneg : flipped.isNegative = !op.isNegative := by
    cases op <;> cases h <;> rfl
  simp only [ruleHolds, hasserted, hdenial, hneg]
  simp

/-! ### Trees -/

/-- The assertion of every rule of a tree that has a clause has a clause. -/
theorem clauseOf_asserted_of_query {q : Query} {clause : Clause}
    (h : alone (compiler.query q) = .ok clause) {x : Rule} {origin : Origin}
    (hx : .rule x origin ∈ q.nodes) :
  ∃ c, compiler.clauseOf x.asserted = .ok c
  := by
  induction q generalizing clause with
  | rule y origin' =>
    simp only [Query.nodes, List.mem_singleton, Query.rule.injEq] at hx
    obtain ⟨rfl, -⟩ := hx
    rw [query, ← clauseOf, clauseOf_eq] at h
    cases hc : compiler.clauseOf x.asserted with
    | ok c => exact ⟨c, rfl⟩
    | error e =>
      rw [hc] at h
      cases h
  | group condition negated children origin' ih =>
    rw [alone_query_group] at h
    cases hclauses : children.mapM fun q => alone (compiler.query q) with
    | error e =>
      rw [hclauses] at h
      cases h
    | ok clauses =>
      simp only [Query.nodes, Query.nodesOfAll_eq_flatMap, List.mem_cons, reduceCtorEq, false_or,
        List.mem_flatMap] at hx
      obtain ⟨child, hchild, hx⟩ := hx
      obtain ⟨c, -, hc⟩ := exists_of_forall₂ (forall₂_of_mapM_eq_ok hclauses) hchild
      apply ih child hchild hc hx
  | reference ref => cases h

/-- The clause of a tree has the value of the tree. -/
theorem holds_of_query {q : Query} {clause : Clause}
    (h : alone (compiler.query q) = .ok clause) (leaves : Clause → Bool) (names : String → Bool) :
  clause.holds leaves = q.holds (compiler.ruleHolds leaves) names
  := by
  induction q generalizing clause with
  | rule x origin => apply compiler.holds_of_clauseOf h
  | group condition negated children origin ih =>
    rw [alone_query_group] at h
    cases hclauses : children.mapM fun q => alone (compiler.query q) with
    | error e =>
      rw [hclauses] at h
      cases h
    | ok clauses =>
      rw [hclauses] at h
      cases h
      have hvalues : clauses.map (Clause.holds leaves)
          = children.map (Query.holds (compiler.ruleHolds leaves) names) :=
        map_eq_map_of_forall₂ (forall₂_of_mapM_eq_ok hclauses) fun q hq _ hc => ih q hq hc
      rw [holds_groupClause, hvalues]
      simp [Query.holds]
  | reference ref => cases h

/-- A tree that is compiled results in its clause. -/
theorem query_of_compile {q : Query} {clause : Clause}
    (h : (compiler.compile q).1 = .ok clause) :
  alone (compiler.query q) = .ok clause
  := by
  have h' : alone (compiler.compiling q) = .ok clause := h
  rw [compiling] at h'
  split at h'
  · cases h'
  · split at h'
    · exact h'
    · cases h'

/-- A compiled tree has the value of the tree, where each rule has the value of the clause of its
assertion, complemented as its operator and value say. So a tree and its complement are compiled
to clauses of opposite values. -/
theorem compile_holds {q : Query} {clause : Clause} (h : (compiler.compile q).1 = .ok clause) :
  (∀ x origin, .rule x origin ∈ q.nodes → ∃ c, compiler.clauseOf x.asserted = .ok c)
    ∧ ∀ leaves names, clause.holds leaves = q.holds (compiler.ruleHolds leaves) names
      ∧ ∀ complement, (compiler.compile q.negate).1 = .ok complement →
        complement.holds leaves = !clause.holds leaves
  := by
  have hquery := compiler.query_of_compile h
  constructor
  · intro x origin hx
    apply compiler.clauseOf_asserted_of_query hquery hx
  · intro leaves names
    have hclause := compiler.holds_of_query hquery leaves names
    use hclause
    intro complement hcomplement
    have hcomplement' :=
      compiler.holds_of_query (compiler.query_of_compile hcomplement) leaves names
    rw [hcomplement', hclause]
    apply Query.holds_negate (compiler.complementary_ruleHolds leaves)

/-- A compiler for a schema with a number and a string that is stored in three spellings. -/
def spellings : Compiler where
  schema.fields := Table.ofList [("age", { name := "age", type := .number }),
    ("name", { name := "name", type := .string })]
  source := fun _ => .ok ["Ani", "ANI", "Bo"]

/-- A negated group in which a complementary operator, a denied absence and an empty group
meet. -/
def denials : Query :=
  .group .or true
    [.ofRule ⟨"age", .gt, some (.number (Number.ofNat 3))⟩,
      .ofRule ⟨"name", .notEq, some (.string "ani")⟩,
      .ofRule ⟨"age", .absent, some (.bool false)⟩, .join .or []] {}

theorem compile_holds_denials :
  ∃ clause complement, (spellings.compile denials).1 = .ok clause
    ∧ (spellings.compile denials.negate).1 = .ok complement
    ∧ (∀ x origin, .rule x origin ∈ denials.nodes → ∃ c, spellings.clauseOf x.asserted = .ok c)
    ∧ ∀ leaves names, clause.holds leaves = denials.holds (spellings.ruleHolds leaves) names
      ∧ complement.holds leaves = !clause.holds leaves
  := by
  refine ⟨.not (.any [.range "age" .gt (.number (Number.ofNat 3)),
      .not (.terms "name.keyword" [.string "Ani", .string "ANI"]), .hasField "age", .matchNone]),
    .any [.range "age" .gt (.number (Number.ofNat 3)),
      .not (.terms "name.keyword" [.string "Ani", .string "ANI"]), .hasField "age", .matchNone],
    rfl, rfl, ?_⟩
  obtain ⟨hrules, hvalues⟩ := spellings.compile_holds (q := denials) rfl
  use hrules
  intro leaves names
  obtain ⟨hvalue, hcomplement⟩ := hvalues leaves names
  use hvalue
  apply hcomplement _ rfl

end Compiler

end Sift
