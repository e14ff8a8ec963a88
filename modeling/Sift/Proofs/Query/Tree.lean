import Sift.Query.Parser
import Sift.Query.Printer
import Sift.Saved.Resolution

/-!
# Induction on trees

`Query.treeInduction` is induction on a tree, with a hypothesis for every child of a group. What
the functions on trees do with a list of children is said by the operations on lists, and
`mem_references_iff` says which names a tree mentions.
-/

namespace Sift.Query

/-! ### Induction -/

/-- What holds of rules and references, and of every group whose children it holds of, holds of
every tree. -/
@[elab_as_elim, induction_eliminator]
theorem treeInduction {motive : Query → Prop}
    (rule : ∀ x origin, motive (.rule x origin))
    (group : ∀ condition negated children origin, (∀ q ∈ children, motive q) →
      motive (.group condition negated children origin))
    (reference : ∀ ref, motive (.reference ref)) :
    ∀ q, motive q
  | .rule x origin => rule x origin
  | .group condition negated children origin =>
    group condition negated children origin fun q _ => treeInduction rule group reference q
  | .reference ref => reference ref

/-! ### Lists of children -/

@[simp]
theorem markAll_eq_map (children : List Query) :
  markAll children = children.map markChildren
  := by
  induction children with
  | nil => rfl
  | cons _ _ ih => rw [markAll, ih, List.map_cons]

@[simp]
theorem nodesOfAll_eq_flatMap (children : List Query) :
  nodesOfAll children = children.flatMap nodes
  := by
  induction children with
  | nil => rfl
  | cons _ _ ih => rw [nodesOfAll, ih, List.flatMap_cons]

@[simp]
theorem unsignAll_eq_map (children : List Query) :
  unsignAll children = children.map unsignZeros
  := by
  induction children with
  | nil => rfl
  | cons _ _ ih => rw [unsignAll, ih, List.map_cons]

@[simp]
theorem charsOfAll_eq_map (style : Style) (parent : Condition) (children : List Query) :
  charsOfAll style parent children = children.map (chars style (some parent))
  := by
  induction children with
  | nil => rfl
  | cons _ _ ih => rw [charsOfAll, ih, List.map_cons]

@[simp]
theorem substituteAll_eq_map (expansions : List (String × Query)) (children : List Query) :
  substituteAll expansions children = children.map (substitute expansions)
  := by
  induction children with
  | nil => rfl
  | cons _ _ ih => rw [substituteAll, ih, List.map_cons]

theorem mem_nodes_self (q : Query) :
  q ∈ q.nodes
  := by
  cases q with
  | rule | reference => exact List.mem_singleton_self _
  | group => exact List.mem_cons_self

/-! ### Names in a tree -/

private theorem mem_foldl_distinct {name : String} {seen names : List String} :
  name ∈ names.foldl (fun seen name => if seen.contains name then seen else seen ++ [name]) seen
    ↔ name ∈ seen ∨ name ∈ names
  := by
  induction names generalizing seen with
  | nil => simp
  | cons first rest ih =>
    rw [List.foldl_cons, ih]
    by_cases h : first ∈ seen
    · simp only [List.contains_iff_mem, h, if_true, List.mem_cons]
      grind
    · simp only [List.contains_iff_mem, h, if_false, List.mem_append, List.mem_cons]
      grind

theorem mem_distinct {name : String} {names : List String} :
  name ∈ distinct names ↔ name ∈ names
  := by
  rw [distinct, mem_foldl_distinct]
  simp

/-- A tree mentions the names of the references among its nodes. -/
theorem mem_references_iff {q : Query} {name : String} :
  name ∈ q.references ↔ ∃ ref, .reference ref ∈ q.nodes ∧ ref.name = name
  := by
  simp only [references, mem_distinct, List.mem_filterMap]
  constructor
  · rintro ⟨node, hnode, h⟩
    cases node with
    | rule => cases h
    | group => cases h
    | reference ref => exact ⟨ref, hnode, Option.some.inj h⟩
  · rintro ⟨ref, href, rfl⟩
    exact ⟨_, href, rfl⟩

@[simp]
theorem references_rule (x : Rule) (origin : Origin) :
  (rule x origin).references = []
  := rfl

@[simp]
theorem mem_references_reference {ref : Reference} {name : String} :
  name ∈ (reference ref).references ↔ ref.name = name
  := by
  simp [mem_references_iff, nodes]

/-- A group mentions what its children mention. -/
@[simp]
theorem mem_references_group {condition : Condition} {negated : Bool} {children : List Query}
    {origin : Origin} {name : String} :
  name ∈ (group condition negated children origin).references
    ↔ ∃ q ∈ children, name ∈ q.references
  := by
  simp only [mem_references_iff, nodes, nodesOfAll_eq_flatMap, List.mem_cons, reduceCtorEq,
    false_or, List.mem_flatMap]
  grind

/-- The complement of a tree mentions the same names. -/
@[simp]
theorem mem_references_negate {q : Query} {name : String} :
  name ∈ q.negate.references ↔ name ∈ q.references
  := by
  cases q with
  | rule x origin =>
    simp only [negate]
    split
    · simp
    · simp
  | group condition negated children origin =>
    simp only [negate]
    split
    · simp
    · simp
  | reference ref => simp [negate]

@[simp]
theorem mem_references_setNamed {named : Option Reference} {q : Query} {name : String} :
  name ∈ (q.setNamed named).references ↔ name ∈ q.references
  := by
  cases q <;> simp [setNamed]

@[simp]
theorem mem_references_markChildren {q : Query} {name : String} :
  name ∈ q.markChildren.references ↔ name ∈ q.references
  := by
  induction q with
  | rule => simp [markChildren]
  | group condition negated children origin ih =>
    simp only [markChildren, markAll_eq_map, mem_references_group, List.mem_map]
    grind
  | reference => simp [markChildren]

/-- An expansion in its place mentions what it mentions by itself. -/
@[simp]
theorem mem_references_expansion {ref : Reference} {expanded : Query} {name : String} :
  name ∈ (ref.expansion expanded).references ↔ name ∈ expanded.references
  := by
  rw [Reference.expansion]
  split
  · simp
  · simp

/-! ### Trees without names -/

theorem references_reference_ne_nil (ref : Reference) :
  (reference ref).references ≠ []
  := List.ne_nil_of_mem (mem_references_reference.mpr rfl)

/-- A group mentions no names if its children mention none. -/
theorem references_group_eq_nil_iff {condition : Condition} {negated : Bool}
    {children : List Query} {origin : Origin} :
  (group condition negated children origin).references = [] ↔ ∀ q ∈ children, q.references = []
  := by
  simp only [List.eq_nil_iff_forall_not_mem, mem_references_group]
  grind

/-- Of two trees that mention the same names, one mentions none if the other does. -/
theorem references_eq_nil_congr {q r : Query}
    (h : ∀ name, name ∈ q.references ↔ name ∈ r.references) :
  q.references = [] ↔ r.references = []
  := by
  simp only [List.eq_nil_iff_forall_not_mem, h]

end Sift.Query
