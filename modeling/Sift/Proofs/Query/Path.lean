import Mathlib.Data.List.Infix
import Mathlib.Tactic.Use
import Sift.Proofs.Query.Canonical
import Sift.Query.Path

/-!
# Nodes at paths

The nodes of a tree are those at its paths (`mem_nodes_iff`). Reading and replacing walk down a tree
in the same way: there is a node to replace exactly where there is one to read (`at?_of_replaceAt?`,
`exists_replaceAt?_of_at?`). A new node is seen at its path and below it
(`at?_append_of_replaceAt?`), and what is neither above the path nor below it stays
(`at?_of_replaceAt?_of_apart`). `replaceAt_lawful` puts the laws of replacing in place together.
-/

namespace Sift.Query

variable {root root' old new : Query} {path : List Nat}

/-- The node at a path that leads into a child of a group is a node of the child. -/
theorem at?_group (condition : Condition) (negated : Bool) (children : List Query)
    (origin : Origin) (i : Nat) (path : List Nat) :
  (group condition negated children origin).at? (i :: path) = children[i]?.bind (at? · path)
  := by
  rw [at?]
  cases children[i]? <;> rfl

/-- A path that goes on leads to a node of the node where it goes on. -/
theorem at?_append (root : Query) (path rest : List Nat) :
  root.at? (path ++ rest) = (root.at? path).bind (at? · rest)
  := by
  induction path generalizing root with
  | nil => rw [List.nil_append, at?, Option.bind_some]
  | cons i path ih =>
    cases root with
    | rule => rfl
    | reference => rfl
    | group condition negated children origin =>
      rw [List.cons_append, at?_group, at?_group, Option.bind_assoc]
      congr 1
      funext child
      exact ih child

/-! ### Nodes -/

/-- The nodes of a tree are those at the paths in it. -/
theorem mem_nodes_iff {node : Query} :
  node ∈ root.nodes ↔ ∃ path, root.at? path = some node
  := by
  induction root with
  | rule | reference =>
    rw [nodes, List.mem_singleton]
    · constructor
      · rintro rfl
        exact ⟨[], rfl⟩
      · rintro ⟨_ | _, ⟨⟩⟩
        rfl
    · rintro _ _ _ _ ⟨⟩
  | group condition negated children origin ih =>
    rw [nodes, nodesOfAll_eq_flatMap, List.mem_cons, List.mem_flatMap]
    constructor
    · rintro (rfl | ⟨child, hchild, hnode⟩)
      · exact ⟨[], rfl⟩
      · obtain ⟨i, hi⟩ := List.getElem?_of_mem hchild
        obtain ⟨path, hpath⟩ := (ih child hchild).mp hnode
        use i :: path
        rw [at?_group, hi, Option.bind_some, hpath]
    · rintro ⟨_ | ⟨i, path⟩, hpath⟩
      · cases hpath
        exact .inl rfl
      · rw [at?_group] at hpath
        obtain ⟨child, hi, hnode⟩ := Option.bind_eq_some_iff.mp hpath
        have hmem := List.mem_of_getElem? hi
        exact .inr ⟨child, hmem, (ih child hmem).mpr ⟨path, hnode⟩⟩

/-- The nodes of a part are nodes of the tree. -/
theorem nodes_subset_of_at? {part : Query} (hpart : root.at? path = some part) :
  part.nodes ⊆ root.nodes
  := by
  intro node hnode
  obtain ⟨rest, hrest⟩ := mem_nodes_iff.mp hnode
  rw [mem_nodes_iff]
  use path ++ rest
  rw [at?_append, hpart, Option.bind_some, hrest]

theorem Canonical.children {good : Rule → Prop} {known : String → Prop} {condition : Condition}
    {negated : Bool} {children : List Query} {origin : Origin}
    (h : Canonical good known (.group condition negated children origin)) :
  ∀ q ∈ children, Canonical good known q
  := by
  cases h with
  | empty => exact List.forall_mem_nil _
  | range hx => exact List.forall_mem_singleton.mpr (.rule hx)
  | group _ _ hchildren => exact hchildren

/-- The nodes of a canonical tree are canonical. -/
theorem Canonical.at? {good : Rule → Prop} {known : String → Prop} (h : Canonical good known root)
    {node : Query} (hnode : root.at? path = some node) :
  Canonical good known node
  := by
  induction path generalizing root with
  | nil =>
    cases hnode
    exact h
  | cons i path ih =>
    cases root with
    | rule | reference => cases hnode
    | group condition negated children origin =>
      rw [at?_group] at hnode
      obtain ⟨child, hi, hnode⟩ := Option.bind_eq_some_iff.mp hnode
      exact ih (h.children child (List.mem_of_getElem? hi)) hnode

/-! ### Replacing a node -/

/-- A node can be replaced where there is one, and the tree around it stays. -/
theorem replaceAt?_cons_inv {condition : Condition} {negated : Bool} {children : List Query}
    {origin : Origin} {i : Nat}
    (h : (group condition negated children origin).replaceAt? (i :: path) new = some (old, root')) :
  ∃ child child', children[i]? = some child ∧ child.replaceAt? path new = some (old, child')
    ∧ root' = group condition negated (children.set i child') origin
  := by
  rw [replaceAt?] at h
  split at h
  case h_1 child hchild =>
    obtain ⟨⟨_, child'⟩, hreplace, heq⟩ := Option.map_eq_some_iff.mp h
    cases heq
    exact ⟨child, child', hchild, hreplace, rfl⟩
  case h_2 => cases h

/-- The node that is replaced is the node that is read. -/
theorem at?_of_replaceAt? (h : root.replaceAt? path new = some (old, root')) :
  root.at? path = some old
  := by
  induction path generalizing root root' with
  | nil =>
    cases h
    rfl
  | cons i path ih =>
    cases root with
    | rule => cases h
    | reference => cases h
    | group condition negated children origin =>
      obtain ⟨child, child', hchild, hreplace, -⟩ := replaceAt?_cons_inv h
      rw [at?_group, hchild, Option.bind_some]
      exact ih hreplace

/-- A node that is read can be replaced. -/
theorem exists_replaceAt?_of_at? (h : root.at? path = some old) (new : Query) :
  ∃ root', root.replaceAt? path new = some (old, root')
  := by
  induction path generalizing root with
  | nil =>
    cases h
    exact ⟨new, rfl⟩
  | cons i path ih =>
    cases root with
    | rule => cases h
    | reference => cases h
    | group condition negated children origin =>
      rw [at?_group] at h
      obtain ⟨child, hchild, hold⟩ := Option.bind_eq_some_iff.mp h
      obtain ⟨child', hreplace⟩ := ih hold
      use group condition negated (children.set i child') origin
      rw [replaceAt?, hchild]
      simp only [hreplace, Option.map_some]

/-- At the path and below it the new node is seen. -/
theorem at?_append_of_replaceAt? (h : root.replaceAt? path new = some (old, root'))
    (rest : List Nat) :
  root'.at? (path ++ rest) = new.at? rest
  := by
  induction path generalizing root root' with
  | nil =>
    cases h
    rfl
  | cons i path ih =>
    cases root with
    | rule => cases h
    | reference => cases h
    | group condition negated children origin =>
      obtain ⟨child, child', hchild, hreplace, rfl⟩ := replaceAt?_cons_inv h
      obtain ⟨hlt, -⟩ := List.getElem?_eq_some_iff.mp hchild
      rw [List.cons_append, at?_group, List.getElem?_set_self hlt, Option.bind_some]
      exact ih hreplace

/-- Away from the path, where a node is neither above the new one nor in its place, nothing
changes. -/
theorem at?_of_replaceAt?_of_apart (h : root.replaceAt? path new = some (old, root'))
    {other : List Nat} (hbelow : ¬path <+: other) (habove : ¬other <+: path) :
  root'.at? other = root.at? other
  := by
  induction path generalizing root root' other with
  | nil => exact absurd List.nil_prefix hbelow
  | cons i path ih =>
    cases other with
    | nil => exact absurd List.nil_prefix habove
    | cons j other =>
      cases root with
      | rule => cases h
      | reference => cases h
      | group condition negated children origin =>
        obtain ⟨child, child', hchild, hreplace, rfl⟩ := replaceAt?_cons_inv h
        rw [at?_group, at?_group]
        by_cases hij : i = j
        · subst hij
          obtain ⟨hlt, -⟩ := List.getElem?_eq_some_iff.mp hchild
          rw [List.getElem?_set_self hlt, hchild, Option.bind_some, Option.bind_some]
          apply ih hreplace
          · exact fun hprefix => hbelow (List.cons_prefix_cons.mpr ⟨rfl, hprefix⟩)
          · exact fun hprefix => habove (List.cons_prefix_cons.mpr ⟨rfl, hprefix⟩)
        · rw [List.getElem?_set_ne hij]

/-- The node that stands at a path takes its own place. -/
theorem replaceAt?_self (h : root.at? path = some old) :
  root.replaceAt? path old = some (old, root)
  := by
  induction path generalizing root with
  | nil =>
    cases h
    rfl
  | cons i path ih =>
    cases root with
    | rule => cases h
    | reference => cases h
    | group condition negated children origin =>
      rw [at?_group] at h
      obtain ⟨child, hchild, hold⟩ := Option.bind_eq_some_iff.mp h
      obtain ⟨hlt, rfl⟩ := List.getElem?_eq_some_iff.mp hchild
      rw [replaceAt?, hchild]
      simp only [ih hold, Option.map_some, List.set_getElem_self]

/-- Of two nodes that are put in the same place only the second is seen. -/
theorem replaceAt?_of_replaceAt? (h : root.replaceAt? path new = some (old, root'))
    {newer old' root'' : Query} (h' : root.replaceAt? path newer = some (old', root'')) :
  root'.replaceAt? path newer = some (new, root'')
  := by
  induction path generalizing root root' root'' with
  | nil =>
    cases h
    cases h'
    rfl
  | cons i path ih =>
    cases root with
    | rule => cases h
    | reference => cases h
    | group condition negated children origin =>
      obtain ⟨child, child', hchild, hreplace, rfl⟩ := replaceAt?_cons_inv h
      obtain ⟨_, child'', hsame, hreplace', rfl⟩ := replaceAt?_cons_inv h'
      cases hchild.symm.trans hsame
      obtain ⟨hlt, -⟩ := List.getElem?_eq_some_iff.mp hchild
      rw [replaceAt?, List.getElem?_set_self hlt]
      simp only [ih hreplace hreplace', Option.map_some, List.set_set]

/-! ### Replacing in place -/

/-- What replacing the node at a path hands back, and the tree behind it. Where there is no node,
nothing is handed back and the tree stays. -/
def replaceAt (root : Query) (path : List Nat) (new : Query) : Option Query × Query :=
  match root.replaceAt? path new with
  | some (old, root') => (some old, root')
  | none => (none, root)

theorem replaceAt_eq (h : root.replaceAt? path new = some (old, root')) :
  root.replaceAt path new = (some old, root')
  := by
  rw [replaceAt, h]

/-- Replacing finds a node where reading does. -/
theorem replaceAt_fst (root : Query) (path : List Nat) (new : Query) :
  (root.replaceAt path new).1 = root.at? path
  := by
  rw [replaceAt]
  split
  case h_1 old root' h => exact (at?_of_replaceAt? h).symm
  case h_2 h =>
    cases hat : root.at? path with
    | none => rfl
    | some old =>
      obtain ⟨root', hreplace⟩ := exists_replaceAt?_of_at? hat new
      cases h.symm.trans hreplace

theorem replaceAt_inv (h : root.replaceAt path new = (some old, root')) :
  root.replaceAt? path new = some (old, root')
  := by
  rw [replaceAt] at h
  split at h
  case h_1 heq =>
    cases h
    exact heq
  case h_2 => cases h

/-- Replacing hands back the node that is read at the path, and where there is none, the tree stays.
Behind it the new node is seen at the path and below it, and at all places that are neither above
the path nor below it the same nodes as before. A second node in the same place makes the first one
invisible, and the old node in its place brings back the tree. -/
theorem replaceAt_lawful (root : Query) (path : List Nat) (new : Query) :
  (∀ old, (root.replaceAt path new).1 = some old ↔ root.at? path = some old)
    ∧ (root.at? path = none → root.replaceAt path new = (none, root))
    ∧ ∀ old root', root.replaceAt path new = (some old, root') →
      (∀ rest, root'.at? (path ++ rest) = new.at? rest)
      ∧ (∀ other, ¬path <+: other → ¬other <+: path → root'.at? other = root.at? other)
      ∧ (∀ newer, root'.replaceAt path newer = (some new, (root.replaceAt path newer).2))
      ∧ root'.replaceAt path old = (some new, root)
  := by
  refine ⟨?_, ?_, ?_⟩
  · intro old
    rw [replaceAt_fst]
  · intro h
    rw [← root.replaceAt_fst path new] at h
    rw [replaceAt] at h ⊢
    split
    case h_1 heq =>
      rw [heq] at h
      cases h
    case h_2 => rfl
  · intro old root' h
    replace h := replaceAt_inv h
    have hold := at?_of_replaceAt? h
    refine ⟨at?_append_of_replaceAt? h, ?_, ?_, ?_⟩
    · intro other hbelow habove
      exact at?_of_replaceAt?_of_apart h hbelow habove
    · intro newer
      obtain ⟨root'', hnewer⟩ := exists_replaceAt?_of_at? hold newer
      rw [replaceAt_eq hnewer, replaceAt_eq (replaceAt?_of_replaceAt? h hnewer)]
    · exact replaceAt_eq (replaceAt?_of_replaceAt? h (replaceAt?_self hold))

/-- A tree of a rule and a group. -/
def ruleAndGroup : Query :=
  .group .and false
    [.ofRule ⟨"age", .present, none⟩,
      .group .or true [.ofRule ⟨"name", .present, none⟩, .reference { name := "Adults" }] {}] {}

theorem replaceAt_lawful_ruleAndGroup :
  ruleAndGroup.replaceAt [0, 0] .everything = (none, ruleAndGroup)
    ∧ ∃ changed, ruleAndGroup.replaceAt [1, 0] (.join .or [.everything])
        = (some (.ofRule ⟨"name", .present, none⟩), changed)
      ∧ changed.at? [1, 0, 0] = some .everything
      ∧ changed.at? [1, 1] = some (.reference { name := "Adults" })
      ∧ changed.replaceAt [1, 0] (.ofRule ⟨"name", .present, none⟩)
        = (some (.join .or [.everything]), ruleAndGroup)
  := by
  obtain ⟨-, hnone, -⟩ := replaceAt_lawful ruleAndGroup [0, 0] .everything
  obtain ⟨-, -, hsome⟩ := replaceAt_lawful ruleAndGroup [1, 0] (.join .or [.everything])
  obtain ⟨hbelow, hapart, -, hback⟩ := hsome _ _ rfl
  refine ⟨hnone rfl, _, rfl, hbelow [0], ?_, hback⟩
  exact hapart [1, 1] (by decide) (by decide)

end Sift.Query
