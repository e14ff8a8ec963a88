import Mathlib.Data.List.Infix
import Sift.Proofs.Query.Literally
import Sift.Proofs.Saved.Text

/-!
# Where the parts of an expanded tree come from

`Query.Traced` describes the marks of a tree whose names have been expanded: a node is marked as a
part of an expansion exactly if it is one or stands in one, no name stands in its own expansion or
in that of an ancestor, and expansions are nested only so deeply. One step of an expansion keeps
the marks right (`Traced.expansion`), although a complement may have unwrapped or wrapped the root,
and an outer name may take the place of an inner one. `Resolver.resolve?_provenance` tells the
result node by node.
-/

namespace Sift

namespace Query

/-! ### Names on a path -/

/-- The names of the expansions that stand on a path, the outermost first. -/
def namesOn (q : Query) (path : List Nat) : List String :=
  path.inits.filterMap fun upper => (q.at? upper).bind fun node => node.named.map Reference.name

theorem namesOn_nil (q : Query) :
  q.namesOn [] = (q.named.map Reference.name).toList
  := by
  have hroot : q.at? [] = some q := by
    cases q <;> rfl
  rw [namesOn, List.inits, List.filterMap_cons, List.filterMap_nil, hroot, Option.bind_some]
  cases q.named <;> rfl

/-- The names on a path into a group are that of the group and those on the path from the child
on. -/
theorem namesOn_cons {condition : Condition} {negated : Bool} {children : List Query}
    {origin : Origin} {i : Nat} {child : Query} (hchild : children[i]? = some child)
    (path : List Nat) :
  (group condition negated children origin).namesOn (i :: path)
    = (origin.named.map Reference.name).toList ++ child.namesOn path
  := by
  have hroot : (group condition negated children origin).at? []
      = some (group condition negated children origin) := rfl
  have hat (upper : List Nat) : (group condition negated children origin).at? (i :: upper)
      = child.at? upper := by
    rw [at?, hchild]
  rw [namesOn, List.inits_cons, List.filterMap_cons, hroot, Option.bind_some, List.filterMap_map]
  simp only [Function.comp_def, hat, named]
  cases origin.named <;> rfl

/-- There are names on a path exactly if an expansion stands on it. -/
theorem namesOn_ne_nil_iff {q : Query} {path : List Nat} :
  q.namesOn path ≠ [] ↔ ∃ upper, upper <+: path
    ∧ ∃ outer, q.at? upper = some outer ∧ outer.named.isSome = true
  := by
  rw [namesOn, ne_eq, List.filterMap_eq_nil_iff]
  simp only [List.mem_inits, not_forall, Option.bind_eq_none_iff, Option.map_eq_none_iff,
    Option.isSome_iff_ne_none, exists_prop]

/-! ### Marks -/

/-- Whether the marks of a tree without names to expand are right, where the tree stands inside the
expansions of `ancestors`, `levels` more expansions may be nested in it, and `inside` says whether
its nodes are marked without being expansions. -/
inductive Traced : Nat → List String → Bool → Query → Prop where
  | rule {levels : Nat} {ancestors : List String} {inside : Bool} (x : Rule) :
    Traced levels ancestors inside (rule x ⟨none, inside⟩)
  | group {levels : Nat} {ancestors : List String} {inside : Bool} (condition : Condition)
    (negated : Bool) {children : List Query}
    (hchildren : ∀ q ∈ children, Traced levels ancestors inside q) :
    Traced levels ancestors inside (group condition negated children ⟨none, inside⟩)
  | namedRule {levels : Nat} {ancestors : List String} {inside : Bool} (x : Rule) {ref : Reference}
    (hname : ref.name ∉ ancestors) :
    Traced (levels + 1) ancestors inside (rule x ⟨some ref, true⟩)
  | namedGroup {levels : Nat} {ancestors : List String} {inside : Bool} (condition : Condition)
    (negated : Bool) {children : List Query} {ref : Reference} (hname : ref.name ∉ ancestors)
    (hchildren : ∀ q ∈ children, Traced levels (ancestors ++ [ref.name]) true q) :
    Traced (levels + 1) ancestors inside (group condition negated children ⟨some ref, true⟩)

namespace Traced

variable {levels : Nat} {ancestors : List String} {inside : Bool} {q : Query}

/-- The marks are right in fewer expansions and with more levels, too. -/
theorem mono (h : Traced levels ancestors inside q) {more : Nat} {fewer : List String}
    (hlevels : levels ≤ more) (hancestors : fewer ⊆ ancestors) :
  Traced more fewer inside q
  := by
  induction h generalizing more fewer with
  | rule x => exact .rule x
  | group condition negated _ ih =>
    exact .group condition negated fun q hq => ih q hq hlevels hancestors
  | namedRule x hname =>
    obtain ⟨more, rfl⟩ := Nat.exists_eq_add_one.2 (Nat.zero_lt_of_lt hlevels)
    exact .namedRule x fun hmem => hname (hancestors hmem)
  | namedGroup condition negated hname _ ih =>
    obtain ⟨more, rfl⟩ := Nat.exists_eq_add_one.2 (Nat.zero_lt_of_lt hlevels)
    apply Traced.namedGroup condition negated fun hmem => hname (hancestors hmem)
    intro q hq
    apply ih q hq (Nat.le_of_succ_le_succ hlevels)
    exact List.append_subset.2 ⟨fun a ha => List.mem_append_left _ (hancestors ha),
      List.subset_append_right _ _⟩

/-- A complement may flip, wrap or unwrap the root, and all of these keep the marks right where
nodes are not marked without reason. -/
theorem negate (h : Traced levels ancestors false q) :
  Traced levels ancestors false q.negate
  := by
  have hwrap {x : Rule} {origin : Origin} (h : Traced levels ancestors false (.rule x origin)) :
      Traced levels ancestors false (.group .and true [.rule x origin] {}) := by
    apply Traced.group
    rw [List.forall_mem_singleton]
    exact h
  cases h with
  | rule x =>
    rw [Query.negate]
    split
    · exact .rule _
    · exact hwrap (.rule x)
  | namedRule x hname =>
    rw [Query.negate]
    split
    · exact .namedRule _ hname
    · exact hwrap (.namedRule x hname)
  | group condition negated hchildren =>
    rw [Query.negate.eq_def]
    simp only
    split
    · exact hchildren _ List.mem_cons_self
    · exact .group condition _ hchildren
  | namedGroup condition negated hname hchildren =>
    rw [Query.negate.eq_def]
    simp only
    exact .namedGroup condition _ hname hchildren

theorem markChildren (h : Traced levels ancestors inside q) :
  Traced levels ancestors true q.markChildren
  := by
  induction h with
  | rule x => exact .rule x
  | group condition negated _ ih =>
    rw [Query.markChildren, markAll_eq_map]
    apply Traced.group
    rw [List.forall_mem_map]
    exact ih
  | namedRule x hname => exact .namedRule x hname
  | namedGroup condition negated hname _ ih =>
    rw [Query.markChildren, markAll_eq_map]
    apply Traced.namedGroup condition negated hname
    rw [List.forall_mem_map]
    exact ih

/-- A marked tree may be the expansion of a name: if it has been that of another name, this stands
inside the expansion of the new one and is forgotten. -/
theorem setNamed {ref : Reference} (hname : ref.name ∉ ancestors)
    (h : Traced levels (ancestors ++ [ref.name]) true q) :
  Traced (levels + 1) ancestors inside (q.setNamed (some ref))
  := by
  cases h with
  | rule x => exact .namedRule x hname
  | group condition negated hchildren => exact .namedGroup condition negated hname hchildren
  | namedRule x _ => exact .namedRule x hname
  | namedGroup condition negated _ hchildren =>
    apply Traced.namedGroup condition negated hname
    intro q hq
    exact (hchildren q hq).mono (Nat.le_succ _) (List.subset_append_left _ _)

/-- The expansion of a mention in its place has the right marks if the expansion of its name by
itself has. -/
theorem expansion {ref : Reference} (hname : ref.name ∉ ancestors)
    (h : Traced levels (ancestors ++ [ref.name]) false q) :
  Traced (levels + 1) ancestors inside (ref.expansion q)
  := by
  have hnegated : Traced levels (ancestors ++ [ref.name]) false
      (if ref.negated then q.negate else q) := by
    split
    · exact h.negate
    · exact h
  exact setNamed hname hnegated.markChildren

/-- A tree that has been parsed has no marks, so those of an expansion of its names are right if
they are in the expansions of the names. -/
theorem substitute {good : Rule → Prop} {known : String → Prop} (hq : Canonical good known q)
    {expansions : List (String × Query)}
    (h : ∀ name ∈ q.references, ∃ expanded, expansions.lookup name = some expanded ∧
      ∀ ref : Reference, ref.name = name →
        Traced levels ancestors false (ref.expansion expanded)) :
  Traced levels ancestors false (q.substitute expansions)
  := by
  induction hq with
  | rule => exact .rule _
  | @reference name hname negated =>
    obtain ⟨expanded, hlookup, htraced⟩ := h name (by simp)
    rw [Query.substitute, hlookup]
    exact htraced { name, negated } rfl
  | empty =>
    apply Traced.group
    rintro _ ⟨⟩
  | range =>
    apply Traced.group
    rw [substituteAll_eq_map, List.map_singleton, List.forall_mem_singleton]
    exact .rule _
  | group negated _ _ _ ih =>
    rw [Query.substitute, substituteAll_eq_map]
    apply Traced.group
    rw [List.forall_mem_map]
    intro child hchild
    apply ih child hchild
    intro name hname
    exact h name (mem_references_group.mpr ⟨child, hchild, hname⟩)

/-! ### Marks along a path -/

/-- Along a path to a node: the node is marked exactly if there are names on the path, or if the
whole tree is marked; no name is an ancestor or is there twice, and there are not too many. -/
theorem along (h : Traced levels ancestors inside q) {path : List Nat} {node : Query}
    (hnode : q.at? path = some node) :
  (node.isChild = true ↔ inside = true ∨ q.namesOn path ≠ []) ∧ (q.namesOn path).Nodup
    ∧ (∀ name ∈ q.namesOn path, name ∉ ancestors) ∧ (q.namesOn path).length ≤ levels
  := by
  induction h generalizing path node with
  | rule x =>
    cases path with
    | cons => cases hnode
    | nil =>
      cases hnode
      simp [namesOn_nil, named, Query.isChild]
  | namedRule x hname =>
    cases path with
    | cons => cases hnode
    | nil =>
      cases hnode
      simp [namesOn_nil, named, Query.isChild, hname]
  | group condition negated _ ih =>
    cases path with
    | nil =>
      cases hnode
      simp [namesOn_nil, named, Query.isChild]
    | cons i path =>
      rw [at?] at hnode
      split at hnode
      case h_1 child hchild =>
        rw [namesOn_cons hchild]
        exact ih child (List.mem_of_getElem? hchild) hnode
      case h_2 => cases hnode
  | @namedGroup levels ancestors inside condition negated children ref hname _ ih =>
    cases path with
    | nil =>
      cases hnode
      simp [namesOn_nil, named, Query.isChild, hname]
    | cons i path =>
      rw [at?] at hnode
      split at hnode
      case h_1 child hchild =>
        obtain ⟨hmarked, hnodup, hancestors, hlength⟩ :=
          ih child (List.mem_of_getElem? hchild) hnode
        have hinner : ∀ name ∈ child.namesOn path, name ∉ ancestors ∧ name ≠ ref.name := by
          intro name hmem
          simpa [not_or] using hancestors name hmem
        rw [namesOn_cons hchild]
        refine ⟨?_, ?_, ?_, ?_⟩
        · exact iff_of_true (hmarked.mpr (.inl rfl)) (.inr (List.cons_ne_nil _ _))
        · exact List.nodup_cons.mpr ⟨fun hmem => (hinner _ hmem).2 rfl, hnodup⟩
        · exact List.forall_mem_cons.mpr ⟨hname, fun name hmem => (hinner name hmem).1⟩
        · exact Nat.succ_le_succ hlength
      case h_2 => cases hnode

/-- No node is the expansion of an ancestor. -/
theorem cycleFaults_eq_nil (h : Traced levels ancestors inside q) :
  ∀ node ∈ q.nodes, node.cycleFaults ancestors = []
  := by
  induction h with
  | rule x => simp [nodes, cycleFaults, named]
  | namedRule x hname => simp [nodes, cycleFaults, named, hname]
  | group condition negated _ ih =>
    rw [nodes, nodesOfAll_eq_flatMap, List.forall_mem_cons]
    refine ⟨rfl, ?_⟩
    intro node hnode
    obtain ⟨child, hchild, hnode⟩ := List.mem_flatMap.mp hnode
    exact ih child hchild node hnode
  | @namedGroup levels ancestors inside condition negated children ref hname hchildren ih =>
    rw [nodes, nodesOfAll_eq_flatMap, List.forall_mem_cons]
    constructor
    · simp [cycleFaults, named, hname]
    · intro node hnode
      obtain ⟨child, hchild, hnode⟩ := List.mem_flatMap.mp hnode
      have hfaults := ih child hchild node hnode
      rw [cycleFaults] at hfaults ⊢
      split at hfaults
      case h_1 other hother =>
        split at hfaults
        case isTrue => cases hfaults
        case isFalse hmem =>
          rw [List.contains_iff_mem, List.mem_append, not_or] at hmem
          simp [hmem.1]
      case h_2 => rfl

end Traced

end Query

/-! ### Faults of rules -/

/-- The value of a rule is at fault, but never for a name being expanded around it. -/
theorem cyclicReference_notMem_valueFaults {field : Field} {operator : Operator} {value : Value}
    {name : String} :
  .cyclicReference name ∉ valueFaults field operator value
  := by
  have hregex : .cyclicReference name ∉ regexFaults field value := by
    rw [regexFaults.eq_def]
    split
    · split <;> simp
    · simp
  have hoption : .cyclicReference name ∉ optionFaults field operator value := by
    rw [optionFaults.eq_def]
    split
    · simp only
      split <;> simp
    · simp
  rw [valueFaults]
  split
  · simp [hregex, hoption]
  · simp

/-- A rule by itself does not stand in an expansion. -/
theorem cyclicReference_notMem_ruleFaults {schema : Schema} {x : Rule} {name : String} :
  .cyclicReference name ∉ x.faults schema
  := by
  have hoperand (field : Field) : .cyclicReference name ∉ operandFaults field x := by
    rw [operandFaults.eq_def]
    split <;> simp [cyclicReference_notMem_valueFaults]
  rw [Rule.faults]
  split
  · simp
  · split <;> simp [hoperand]

namespace Resolver

variable {resolver : Resolver}

/-! ### Expanding -/

/-- What has been parsed is canonical, whatever the schema. -/
theorem canonical_of_parse {schema : Schema} {s : String} {q : Query}
    (h : Query.parse schema s = .ok q) :
  Query.Canonical (fun _ => True) (fun _ => True) q
  := by
  have hshorthand {literal : List Char} {place : Nat} {q : Query}
      (h : Syntax.shorthand schema literal place = .ok q) :
      Query.Canonical (fun _ => True) (fun _ => True) q := by
    obtain ⟨x, -, rfl⟩ := Syntax.exists_searchRule_of_shorthand h
    exact .rule trivial
  apply Query.Canonical.of_parse (fun _ _ _ _ => trivial) _ hshorthand _ h
  · intro _ _ _ _ _ _ _ hrule
    obtain ⟨x, -, rfl⟩ := Syntax.exists_statedRule_of_comparisonRule hrule
    exact .rule trivial
  · intro _ _ _ _ hname
    obtain ⟨-, rfl⟩ | ⟨-, hsearch⟩ := Syntax.nameQuery_inv hname
    · exact .reference trivial false
    · exact hshorthand hsearch

/-- The marks of an expansion of a parsed tree are right: the names of the tree are no ancestors, and
their expansions have been marked inside them. -/
theorem traced_of_yields {levels : Nat} {ancestors log log' : List String} {schema : Schema}
    {s : String} {q r : Query} (hparse : Query.parse schema s = .ok q)
    (h : Yields (resolver.resolveWithin levels ancestors q) log r log') :
  r.Traced levels ancestors false
  := by
  induction levels generalizing ancestors log log' schema s q r with
  | zero =>
    obtain ⟨expansions, rfl, hnames⟩ := resolveWithin_inv h
    apply Query.Traced.substitute (canonical_of_parse hparse)
    intro name hname
    obtain ⟨-, _, _, _, hlevels, -⟩ := hnames name hname
    cases hlevels
  | succ levels ih =>
    obtain ⟨expansions, rfl, hnames⟩ := resolveWithin_inv h
    apply Query.Traced.substitute (canonical_of_parse hparse)
    intro name hname
    obtain ⟨hancestor, _, parsed, expanded, hlevels, hmeant, hlookup, _, _, hyields⟩ :=
      hnames name hname
    obtain rfl := Nat.succ.inj hlevels
    obtain ⟨text, htext⟩ := exists_parse_of_meant hmeant
    refine ⟨expanded, hlookup, ?_⟩
    rintro ref rfl
    exact (ih htext hyields).expansion hancestor

/-- When the names in a tree that has been parsed are expanded inside the expansions of `ancestors`,
a node of the result is marked as a part of an expansion exactly if an expansion stands on the path
to it. The names of the expansions on a path are all different, none of them is an ancestor, and
there are at most as many as there are levels left. So validation inside the same expansions finds
no name that stands in its own expansion. -/
theorem resolve?_provenance {schema : Schema} {s : String} {q r : Query}
    (hparse : Query.parse schema s = .ok q) {ancestors : List String}
    (h : resolver.resolve? ancestors q = .ok r) :
  (∀ path node, r.at? path = some node →
      (node.isChild = true ↔ ∃ upper, upper <+: path
        ∧ ∃ outer, r.at? upper = some outer ∧ outer.named.isSome = true)
      ∧ (r.namesOn path).Nodup ∧ (∀ name ∈ r.namesOn path, name ∉ ancestors)
      ∧ (r.namesOn path).length ≤ resolver.maxDepth - ancestors.length)
    ∧ ∀ schema name, .cyclicReference name ∉ r.faults schema ancestors
  := by
  obtain ⟨log, hyields⟩ := resolve?_eq_ok_iff.mp h
  have htraced := traced_of_yields hparse hyields
  constructor
  · intro path node hnode
    obtain ⟨hmarked, hnames⟩ := htraced.along hnode
    refine ⟨?_, hnames⟩
    rw [hmarked, Query.namesOn_ne_nil_iff]
    simp
  · intro schema name hfault
    rw [Query.faults, List.mem_flatMap] at hfault
    obtain ⟨node, hnode, hfault⟩ := hfault
    cases node with
    | rule x origin =>
      rw [Query.nodeFaults, htraced.cycleFaults_eq_nil _ hnode] at hfault
      exact cyclicReference_notMem_ruleFaults hfault
    | group | reference =>
      rw [Query.nodeFaults, htraced.cycleFaults_eq_nil _ hnode] at hfault
      · cases hfault
      · rintro _ _ ⟨⟩

/-- A name in the expansion of another, below a complement that has wrapped a rule. -/
theorem resolve?_provenance_ages :
  Query.parse ages.schema "!(YOUNG | age = -0)" = .ok agesNamed
    ∧ ages.resolve? ["TOP"] agesNamed = .ok agesExpanded
    ∧ agesExpanded.namesOn [0, 0, 0] = ["YOUNG", "OLD"]
    ∧ (∀ path node, agesExpanded.at? path = some node →
        (node.isChild = true ↔ ∃ upper, upper <+: path
          ∧ ∃ outer, agesExpanded.at? upper = some outer ∧ outer.named.isSome = true)
        ∧ (agesExpanded.namesOn path).Nodup
        ∧ (∀ name ∈ agesExpanded.namesOn path, name ∉ ["TOP"])
        ∧ (agesExpanded.namesOn path).length ≤ 31)
    ∧ ∀ schema name, .cyclicReference name ∉ agesExpanded.faults schema ["TOP"]
  := by
  obtain ⟨-, hparse, -, -⟩ := expanded_ages
  have hresolve : ages.resolve? ["TOP"] agesNamed = .ok agesExpanded := by
    decide +kernel
  have hnames : agesExpanded.namesOn [0, 0, 0] = ["YOUNG", "OLD"] := by
    decide +kernel
  exact ⟨hparse, hresolve, hnames, resolve?_provenance hparse hresolve⟩

end Resolver

end Sift
