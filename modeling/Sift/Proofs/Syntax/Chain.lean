import Sift.Proofs.Syntax.Phrase

/-!
# Printed chains

`IsChain` says that a text consists of operands with the sign of a condition between them, and
that they make up a tree. Such a text is read as the tree (`IsChain.readAnyOf`), and texts of that
kind with the same sign between them are one again (`IsChain.join`): a group that stands in a
group of the same kind is printed without parentheses, and is spliced into it when it is read.
-/

namespace Sift.Syntax

open Reader

variable {schema : Schema} {inner : Reader Phrase}

theorem allToQueries_eq_ok {qs : List Query} {phrases : List Phrase}
    (h : List.Forall₂ (fun q phrase => Phrase.Denotes schema phrase q) qs phrases)
    (whole : List Char) :
  allToQueries schema whole phrases = .ok qs
  := by
  induction h with
  | nil => rfl
  | cons hphrase _ ih =>
    rw [allToQueries, hphrase whole]
    simp only [ih]
    rfl

/-- Operands with signs between them are read as a chain. -/
theorem readAs_chain {condition : Condition} {conditions : List Condition} {kind : Construct}
    {make : List Phrase → Phrase} {operand : Reader Phrase}
    (hmake : ∀ whole phrases, (make phrases).toQuery schema whole
      = (allToQueries schema whole phrases).map (Query.chain condition))
    (hmem : condition ∉ conditions) {parts : List (List Char × Query)} (hne : parts ≠ [])
    (hparts : ∀ part ∈ parts, ReadAs schema operand (condition :: conditions) part.1 part.2) :
  ReadAs schema (construct kind (make <$> separated condition.token operand)) conditions
    ((Query.separator condition).intercalate (parts.map Prod.fst))
    (Query.chain condition (parts.map Prod.snd))
  := by
  constructor
  · match parts, hne with
    | first :: others, _ =>
      have hhead := (hparts first (by simp)).head
      have hfirst : first.1 ≠ [] := by
        intro hnil
        rw [hnil] at hhead
        cases hhead
      rw [List.map_cons, head?_intercalate_cons hfirst]
      exact hhead
  · intro rest hrest
    have hread : Reads (separated condition.token operand)
        ((Query.separator condition).intercalate (parts.map Prod.fst) ++ rest) fun found behind =>
          List.Forall₂ (fun part phrase => phrase.Denotes schema part.2) parts found
            ∧ afterLayout behind = afterLayout rest := by
      have hstops : ∀ rest, Closes (condition :: conditions) (Query.separator condition ++ rest) :=
        Closes.separator (by simp)
      apply Reads.separated _ hstops hne _ fun part hpart => (hparts part hpart).reads
      · exact hrest.mono fun _ h => List.mem_cons_of_mem _ h
      · exact hrest.head_afterLayout_ne hmem
      · intro rest
        cases condition <;> rfl
      · intro part hpart
        exact head_of_isOperandStart (hparts part hpart).head
    apply Reads.construct
    apply Reads.map
    apply hread.mono
    rintro found behind ⟨hfound, hbehind⟩
    refine ⟨?_, hbehind⟩
    intro whole
    rw [hmake, allToQueries_eq_ok (List.forall₂_map_left_iff.2 hfound)]
    rfl

/-- Whether a text consists of operands with the sign of a condition between them that make up a
tree. -/
def IsChain (schema : Schema) (inner : Reader Phrase) (condition : Condition) (text : List Char)
    (q : Query) : Prop :=
  ∃ parts : List (List Char × Query), parts ≠ []
    ∧ text = (Query.separator condition).intercalate (parts.map Prod.fst)
    ∧ q = Query.chain condition (parts.map Prod.snd)
    ∧ ∀ part ∈ parts, ReadAs schema (readOperand inner) [.and, .or] part.1 part.2

namespace IsChain

variable {condition : Condition} {text : List Char} {q : Query}

/-- An operand is a chain by itself. -/
theorem of_operand (h : ReadAs schema (readOperand inner) [.and, .or] text q)
    (condition : Condition) :
  IsChain schema inner condition text q
  := by
  use [(text, q)]
  refine ⟨List.cons_ne_nil _ _, ?_, rfl, ?_⟩
  · simp
  · simpa using h

/-- A chain is read as what its operands make up. -/
theorem readAnyOf (h : IsChain schema inner condition text q) :
  ReadAs schema (readAnyOf inner) [] text q
  := by
  obtain ⟨parts, hne, rfl, rfl, hparts⟩ := h
  have hallOf {parts : List (List Char × Query)} (hne : parts ≠ [])
      (hparts : ∀ part ∈ parts, ReadAs schema (readOperand inner) [.and, .or] part.1 part.2) :
      ReadAs schema (readAllOf inner) [.or] ((Query.separator .and).intercalate (parts.map Prod.fst))
        (Query.chain .and (parts.map Prod.snd)) :=
    readAs_chain (fun _ _ => by rw [Phrase.toQuery]) (by decide) hne hparts
  have hanyOf {parts : List (List Char × Query)} (hne : parts ≠ [])
      (hparts : ∀ part ∈ parts, ReadAs schema (readAllOf inner) [.or] part.1 part.2) :
      ReadAs schema (Syntax.readAnyOf inner) []
        ((Query.separator .or).intercalate (parts.map Prod.fst))
        (Query.chain .or (parts.map Prod.snd)) :=
    readAs_chain (fun _ _ => by rw [Phrase.toQuery]) (by decide) hne hparts
  cases condition with
  | and =>
    obtain ⟨part, hpart⟩ : ∃ part : List Char × Query, part =
        ((Query.separator .and).intercalate (parts.map Prod.fst),
          Query.chain .and (parts.map Prod.snd)) := ⟨_, rfl⟩
    have hread : ReadAs schema (readAllOf inner) [.or] part.1 part.2 := by
      rw [hpart]
      exact hallOf hne hparts
    have h := hanyOf (List.cons_ne_nil part []) (List.forall_mem_singleton.2 hread)
    rw [hpart] at h
    simpa [Query.chain] using h
  | or =>
    apply hanyOf hne
    intro part hpart
    have h := hallOf (List.cons_ne_nil part []) (List.forall_mem_singleton.2 (hparts part hpart))
    simpa [Query.chain] using h

/-- The operands of chains with a sign between them are operands of one chain. -/
private theorem exists_parts {items : List (List Char × Query)} (hne : items ≠ [])
    (hitems : ∀ item ∈ items, IsChain schema inner condition item.1 item.2) :
  ∃ parts : List (List Char × Query), items.length ≤ parts.length
    ∧ (Query.separator condition).intercalate (items.map Prod.fst)
      = (Query.separator condition).intercalate (parts.map Prod.fst)
    ∧ (items.map Prod.snd).flatMap (Query.spliced condition)
      = (parts.map Prod.snd).flatMap (Query.spliced condition)
    ∧ ∀ part ∈ parts, ReadAs schema (readOperand inner) [.and, .or] part.1 part.2
  := by
  induction items with
  | nil => exact absurd rfl hne
  | cons first others ih =>
    obtain ⟨parts, hparts, htext, htree, hread⟩ := hitems first (by simp)
    have hpos := List.length_pos_of_ne_nil hparts
    have hspliced : Query.spliced condition first.2
        = (parts.map Prod.snd).flatMap (Query.spliced condition) := by
      rw [htree]
      exact Query.spliced_chain (by simpa using hparts)
    cases others with
    | nil =>
      use parts
      refine ⟨hpos, ?_, ?_, hread⟩
      · simpa using htext
      · simpa using hspliced
    | cons second others =>
      obtain ⟨parts', hlength, htext', hspliced', hread'⟩ :=
        ih (List.cons_ne_nil _ _) fun item hitem => hitems item (by simp [hitem])
      have hparts' : parts' ≠ [] := by
        rintro rfl
        simp at hlength
      use parts ++ parts'
      refine ⟨?_, ?_, ?_, ?_⟩
      · rw [List.length_append, List.length_cons]
        omega
      · rw [List.map_append, intercalate_append (by simpa using hparts) (by simpa using hparts'),
          ← htext, ← htext', List.map_cons, List.map_cons, List.intercalate_cons_cons]
      · rw [List.map_cons, List.flatMap_cons, hspliced, hspliced', List.map_append,
          List.flatMap_append]
      · rw [List.forall_mem_append]
        exact ⟨hread, hread'⟩

/-- Chains with the sign between them are one chain. -/
theorem join {items : List (List Char × Query)} (hne : items ≠ [])
    (hitems : ∀ item ∈ items, IsChain schema inner condition item.1 item.2) :
  IsChain schema inner condition
    ((Query.separator condition).intercalate (items.map Prod.fst))
    (Query.chain condition (items.map Prod.snd))
  := by
  match items, hne with
  | [only], _ =>
    have h := hitems only (by simp)
    simpa [Query.chain] using h
  | first :: second :: others, hne =>
    obtain ⟨parts, hlength, htext, hspliced, hread⟩ := exists_parts hne hitems
    have hparts : 2 ≤ parts.length := by
      simp only [List.length_cons] at hlength
      omega
    use parts
    refine ⟨?_, htext, ?_, hread⟩
    · rintro rfl
      simp at hparts
    · rw [Query.chain_of_two_le (by simp), Query.chain_of_two_le (by simpa using hparts), hspliced]

end IsChain

end Sift.Syntax
