import Sift.Proofs.Query.Shown
import Sift.Proofs.Saved.Collapse

/-!
# Queries that mention themselves

Collapsing refuses to save a part of a tree under a name that the part mentions, since the saved
query would mention itself. It looks at the references of the part, but the text that is saved shows
the names of expansions as well. `collapse_mentions_iff` says exactly when a saved query mentions
itself: when an expansion of the name stands below the root of the part. It is about all trees of
rules and names that a text can state, and parsing and expanding make no others
(`Query.proper_of_parse`, `Resolver.proper_resolve?`).
-/

namespace Sift

variable {schema : Schema} {scope : Scope}

/-! ### Proper trees -/

namespace Query

/-- A part of a proper tree is proper. -/
theorem Proper.at? {root part : Query} {path : List Nat} (h : root.Proper schema)
    (hpart : root.at? path = some part) :
  part.Proper schema
  := by
  have hsubset := nodes_subset_of_at? hpart
  exact ⟨fun hnode => h.rule (hsubset hnode), fun hnode => h.named (hsubset hnode)⟩

theorem proper_of_parse (hdefault : schema.NamesDefault) {s : String} {q : Query}
    (h : parse schema s = .ok q) :
  q.Proper schema
  := (parsed_of_parse hdefault h).proper

end Query

namespace Resolver

variable {resolver : Resolver}

/-- The expansion of a proper tree is proper. -/
theorem proper_of_yields (hdefault : resolver.schema.NamesDefault) {levels : Nat}
    {ancestors log log' : List String} {q r : Query} (hq : q.Proper resolver.schema)
    (h : Yields (resolver.resolveWithin levels ancestors q) log r log') :
  r.Proper resolver.schema
  := by
  apply kept_of_yields _ Query.Proper.substitute hq h
  intro name q hmeant
  obtain ⟨s, hparse⟩ := exists_parse_of_meant hmeant
  exact Query.proper_of_parse hdefault hparse

/-- Expanding the names in a proper tree gives a proper tree. -/
theorem proper_resolve? (hdefault : resolver.schema.NamesDefault) {ancestors : List String}
    {q r : Query} (hq : q.Proper resolver.schema) (h : resolver.resolve? ancestors q = .ok r) :
  r.Proper resolver.schema
  := by
  obtain ⟨log, hyields⟩ := resolve?_eq_ok_iff.mp h
  exact proper_of_yields hdefault hq hyields

end Resolver

/-! ### Saved texts -/

theorem Store.text_save {newId : String} {query saved : SavedQuery} {store after : Store}
    (h : store.save newId query = (.ok saved, after)) :
  saved.text = query.text
  := by
  cases h
  rfl

/-- When a proper part of a tree has been collapsed by a store that keeps the texts of queries, the
text that has been saved can be parsed, and it mentions the name exactly if an expansion of the name
is shown below the root of the part. -/
theorem collapse_mentions_iff {σ : Type}
    {save : SavedQuery → σ → Except StoreError SavedQuery × σ}
    (hsave : ∀ query store saved after, save query store = (.ok saved, after) →
      saved.text = query.text)
    {root part root' : Query} {path : List Nat} (hpart : root.at? path = some part)
    (hproper : part.Proper schema) {name : String} {store after : σ} {saved : SavedQuery}
    (hcollapse : collapse save schema scope root path name store = (.ok (root', saved), after)) :
  ∃ q, Query.parse schema saved.text = .ok q
    ∧ (name ∈ q.references ↔ name ∈ (part.setNamed none).shownNames .collapsed)
  := by
  obtain ⟨_, -, hpart', -, hsaved, -⟩ := collapse_inv hcollapse
  cases hpart.symm.trans hpart'
  have hunnamed : (part.setNamed none).Proper schema := hproper.setNamed nofun
  obtain ⟨q, hparse, hmentions⟩ := hunnamed.parse_print_mentions .collapsed
  use q
  rw [hsave _ _ _ _ hsaved]
  exact ⟨hparse, hmentions name⟩

namespace Resolver

/-- The tree of a text that mentions a saved query. -/
def eldersNamed : Query :=
  .join .or [.join .and [.reference { name := "OLD" },
      .ofRule ⟨"age", .lt, some (.number (Number.ofNat 90))⟩],
    .ofRule ⟨"age", .eq, some (.number (Number.ofNat 1))⟩]

/-- The part of the expanded tree in which the saved query stands. -/
def eldersPart : Query :=
  .join .and [.rule ⟨"age", .gt, some (.number (Number.ofNat 65))⟩ ⟨some { name := "OLD" }, true⟩,
    .ofRule ⟨"age", .lt, some (.number (Number.ofNat 90))⟩]

/-- The tree in which the saved query has been expanded. -/
def eldersExpanded : Query :=
  .join .or [eldersPart, .ofRule ⟨"age", .eq, some (.number (Number.ofNat 1))⟩]

theorem parse_eldersNamed :
  Query.parse persons "OLD & age < 90 | age = 1" = .ok eldersNamed
  := by
  decide +kernel

theorem resolve?_eldersNamed :
  (elders.resolver persons { entity := "person" } 1).resolve? [] eldersNamed = .ok eldersExpanded
  := by
  decide +kernel

theorem proper_eldersPart :
  eldersPart.Proper persons
  := by
  have hdefault : persons.NamesDefault := by rintro _ _ ⟨⟩
  have hproper := Query.proper_of_parse hdefault parse_eldersNamed
  have hexpanded : eldersExpanded.Proper persons :=
    proper_resolve? hdefault hproper resolve?_eldersNamed
  exact hexpanded.at? (rfl : eldersExpanded.at? [0] = some eldersPart)

/-- Under a name of its own the part is saved as a query that does not mention itself. -/
theorem collapse_mentions_iff_aged :
  eldersPart.Proper persons ∧ ∃ root' saved after q,
    collapse (Store.save "2") persons { entity := "person" } eldersExpanded [0] "AGED" elders
      = (.ok (root', saved), after)
    ∧ Query.parse persons saved.text = .ok q ∧ "AGED" ∉ q.references
  := by
  let collapsed :=
    collapse (Store.save "2") persons { entity := "person" } eldersExpanded [0] "AGED" elders
  have hcollapsed : collapsed.1 = .ok (.join .or [.reference { name := "AGED" },
        .ofRule ⟨"age", .eq, some (.number (Number.ofNat 1))⟩],
      { id := "2", name := "AGED", text := "OLD & age < 90", entity := "person" }) := by
    decide +kernel
  have hcollapse : collapsed = (.ok (_, _), collapsed.2) := Prod.ext hcollapsed rfl
  obtain ⟨q, hread, hmentions⟩ :=
    collapse_mentions_iff (fun _ _ _ _ => Store.text_save) rfl proper_eldersPart hcollapse
  refine ⟨proper_eldersPart, _, _, _, q, hcollapse, hread, ?_⟩
  rw [hmentions]
  decide +kernel

/-- Under the name of the query that has been expanded in it the part is saved as a query that
mentions itself, and the name cannot be expanded any more. -/
theorem collapse_mentions_itself :
  Query.parse persons "OLD & age < 90 | age = 1" = .ok eldersNamed
    ∧ (elders.resolver persons { entity := "person" } 1).resolve? [] eldersNamed
      = .ok eldersExpanded
    ∧ ∃ root' saved after q,
      collapse (Store.save "2") persons { entity := "person" } eldersExpanded [0] "OLD" elders
        = (.ok (root', saved), after)
      ∧ Query.parse persons saved.text = .ok q ∧ "OLD" ∈ q.references
      ∧ (after.resolver persons { entity := "person" } 32).resolve? [] root'
        = .error (.cyclic "OLD")
  := by
  let collapsed :=
    collapse (Store.save "2") persons { entity := "person" } eldersExpanded [0] "OLD" elders
  have hcollapsed : collapsed.1 = .ok (.join .or [.reference { name := "OLD" },
        .ofRule ⟨"age", .eq, some (.number (Number.ofNat 1))⟩],
      { id := "1", name := "OLD", text := "OLD & age < 90", entity := "person" }) := by
    decide +kernel
  have hcollapse : collapsed = (.ok (_, _), collapsed.2) := Prod.ext hcollapsed rfl
  refine ⟨parse_eldersNamed, resolve?_eldersNamed, _, _, _,
    .join .and [.reference { name := "OLD" },
      .ofRule ⟨"age", .lt, some (.number (Number.ofNat 90))⟩], hcollapse, ?_, ?_, ?_⟩
  · decide +kernel
  · decide +kernel
  · decide +kernel

end Resolver

end Sift
