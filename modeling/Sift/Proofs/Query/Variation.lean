import Sift.Proofs.Query.RoundTrip
import Sift.Proofs.Query.Spelled
import Sift.Proofs.Syntax.Variation

/-!
# Layout and the case of operators

The tree that a text is parsed to depends neither on its layout outside literals nor on the case of
the letters of its operators: every text that varies in these alone is parsed to the same tree. A
text that spells a phrase is varied to one that spells the phrase up to places
(`Syntax.Spells.keepsSpelling`); a text that is blank or a lone quoted string stays one.
-/

namespace Sift

namespace Syntax

variable {inside : Nat → Prop} {place : Nat} {cs cs' : List Char}

/-! ### Variations of texts without operators -/

theorem Varies.nil_inv (h : Varies inside place [] cs') :
  cs' = []
  := by
  generalize hcs : [] = cs at h
  cases h with
  | nil => rfl
  | layout hne => exact absurd (List.append_eq_nil_iff.1 hcs.symm).1 hne
  | literal | same | letter => cases hcs

/-- A text that is nothing but layout stays one. -/
theorem Varies.isGap (h : Varies inside place cs cs') (hgap : IsGap cs) :
  IsGap cs'
  := by
  rw [← List.append_nil cs] at h
  obtain ⟨gap', rest', rfl, hgap', -, h₁⟩ := h.gap_inv hgap Stops.nil
  rw [h₁.nil_inv, List.append_nil]
  exact hgap'

/-- A text that is blank stays blank. -/
theorem Varies.isBlank (h : Varies inside place cs cs') (hblank : ∀ c ∈ cs, Text.isBlank c = true) :
  ∀ c ∈ cs', Text.isBlank c = true
  := by
  induction h with
  | nil => exact hblank
  | layout _ _ _ hgap' _ _ ih =>
    rw [List.forall_mem_append] at hblank ⊢
    exact ⟨fun c hc => Text.isBlank_of_isLayout (hgap' c hc), ih hblank.2⟩
  | @literal _ quote _ _ _ _ _ _ ih =>
    simp only [List.cons_append, List.forall_mem_cons, List.forall_mem_append] at hblank ⊢
    exact ⟨hblank.1, hblank.2.1, hblank.2.2.1, ih hblank.2.2.2⟩
  | same _ _ _ ih =>
    rw [List.forall_mem_cons] at hblank ⊢
    exact ⟨hblank.1, ih hblank.2⟩
  | @letter _ c _ _ _ _ halpha =>
    have hchar : isIdentifierChar c = true := by
      simp [isIdentifierChar, Char.isAlphanum, halpha]
    have := hblank c (by simp)
    rw [not_isBlank_of_isIdentifierChar hchar] at this
    cases this

/-! ### Which letters may vary -/

/-- The tokens of a text that are read as operators, each with the place where it ends. -/
def operators (cs : List Char) : List (List Char × Nat) :=
  match sentence cs with
  | .ok (.phrase phrase) => phrase.operators
  | _ => []

/-- Whether a byte of a text belongs to a token that is read as an operator. -/
def IsInOperator (cs : List Char) (o : Nat) : Prop :=
  ∃ op ∈ operators cs, op.2 ≤ o + byteCount op.1 ∧ o < op.2

theorem IsInOperator.of_sentence {o : Nat} (ho : IsInOperator cs o) {phrase : Phrase}
    (h : sentence cs = .ok (.phrase phrase)) :
  phrase.HasOperatorAt o
  := by
  rw [IsInOperator, operators, h] at ho
  exact ho

/-- A phrase that is spelled by an identifier has no operator. -/
theorem Spells.not_hasOperatorAt {level : Level} {text : List Char} {phrase : Phrase}
    (h : Spells level place text phrase) (htext : ∀ c ∈ text, isIdentifierChar c = true) (o : Nat) :
  ¬phrase.HasOperatorAt o
  := by
  have hsign {c : Char} (hc : isOperatorSign c = true) : isIdentifierChar c = false := by
    obtain rfl | rfl | rfl | rfl | rfl | rfl | rfl | rfl | rfl := isOperatorSign_cases hc <;> rfl
  induction h with
  | name | empty =>
    rintro ⟨_, ⟨⟩, -⟩
  | @comparison _ field gap op tail _ _ hgap hfresh hop =>
    exfalso
    simp only [List.forall_mem_append] at htext
    cases gap with
    | cons c gap =>
      have := isBare_of_isIdentifierChar (htext.2.1 c (by simp))
      rw [isBare_of_isLayout (hgap c (by simp))] at this
      cases this
    | nil =>
      obtain ⟨c, rest, rfl, hc | hc⟩ := hop.head
      · have := hfresh rfl c rfl
        rw [hc] at this
        cases this
      · have := htext.2.2.1 c (by simp)
        rw [hsign hc] at this
        cases this
  | group | not => cases htext _ List.mem_cons_self
  | plain _ ih => exact ih htext
  | only _ ih =>
    rw [hasOperatorAt_only]
    exact ih htext
  | @joined condition =>
    have := htext condition.token (by simp)
    cases condition <;> cases this

end Syntax

namespace Query

open Syntax

variable {schema : Schema} {q : Query} {cs cs' : List Char}

theorem parseChars_of_isBlank (h : ∀ c ∈ cs, Text.isBlank c = true) :
  parseChars schema cs = .ok everything
  := by
  rw [parseChars_eq_ok_iff, if_pos (Text.isEmpty_trim_iff.2 h)]

/-- A text that spells a phrase is parsed to the same tree when it is varied. -/
theorem parseChars_of_varies_phrase {gap text gap' : List Char} {phrase : Phrase}
    (hgap : IsGap gap) (hgap' : IsGap gap')
    (hphrase : Spells (.chain .or) (byteCount gap) text phrase)
    (hfound : sentence (gap ++ (text ++ gap')) = .ok (.phrase phrase))
    (hq : phrase.toQuery schema (Text.trim (gap ++ (text ++ gap'))) = .ok q)
    (h : Varies (IsInOperator (gap ++ (text ++ gap'))) 0 (gap ++ (text ++ gap')) cs') :
  parseChars schema cs' = .ok q
  := by
  obtain ⟨gap₁, _, rfl, hgap₁, -, h₁⟩ := h.gap_inv hgap hphrase.stops_isLayout
  rw [Nat.zero_add] at h₁
  by_cases hlone : isIdentifier text = true
  · have hchar := isIdentifierChar_of_mem hlone
    obtain ⟨gap₂, rfl, h₂⟩ := h₁.kept_inv (stays_of_isIdentifier hlone)
      fun o _ _ ho => hphrase.not_hasOperatorAt hchar o (ho.of_sentence hfound)
    have hgap₂ := h₂.isGap hgap'
    apply parseChars_of_spells hgap₁ hgap₂ hphrase
    rw [trim_identifier hgap₁ hgap₂ hlone, ← trim_identifier hgap hgap' hlone]
    exact hq
  · have hkeeps := hphrase.keepsSpelling fun o _ _ ho => IsInOperator.of_sentence ho hfound
    obtain ⟨text', gap₂, phrase', rfl, hphrase', hstripped, h₂⟩ := hkeeps _ _ h₁ 0
    apply parseChars_of_spells hgap₁ (h₂.isGap hgap') hphrase'
    rw [← Phrase.toQuery_stripped, hstripped, Phrase.toQuery_stripped]
    apply phrase.toQuery_whole _ hq
    intro name hname hwhole
    rw [hphrase.eq_of_whole hname hwhole] at hlone
    exact absurd (hphrase.isIdentifier_of_mem name hname) hlone

/-- Layout and the case of operators do not matter: a text is parsed to the same tree when runs of
layout outside literals are replaced by other ones, and letters of its operators by letters in the
other case. -/
theorem parse_of_varies {s s' : String} (h : parse schema s = .ok q)
    (hvaries : Varies (IsInOperator s.toList) 0 s.toList s'.toList) :
  parse schema s' = .ok q
  := by
  rw [parse] at h ⊢
  generalize s.toList = cs at h hvaries
  generalize s'.toList = cs' at hvaries ⊢
  obtain ⟨hblank, rfl⟩ | ⟨found, hfound, hspelled, hq⟩ := parseChars_inv h
  · exact parseChars_of_isBlank (hvaries.isBlank hblank)
  cases hspelled with
  | blank hgap =>
    cases hq
    have hgap' := hvaries.isGap hgap
    exact parseChars_of_isBlank fun c hc => Text.isBlank_of_isLayout (hgap' c hc)
  | @freeText gap gap' raw quote start hgap hgap' hquote hraw =>
    have hopens : isLayout quote = false := by
      obtain rfl | rfl := hquote <;> rfl
    obtain ⟨gap₁, _, rfl, hgap₁, -, h₁⟩ := hvaries.gap_inv hgap (.cons hopens)
    obtain ⟨gap₂, rfl, h₂⟩ := vary_quoted hquote hraw h₁
    exact parseChars_of_quoted hgap₁ (h₂.isGap hgap') hquote hraw hq
  | phrase hgap hgap' hphrase =>
    exact parseChars_of_varies_phrase hgap hgap' hphrase hfound hq hvaries

/-- The layout in the quoted string stays, and so does the case of the name of the reference. -/
theorem parse_of_varies_people :
  ∃ q, parse people "name in [ \"a  b\" ]|!TALL" = .ok q
    ∧ parse people "name\nIn\t [\r\"a  b\"\t\t]|!TALL" = .ok q
  := by
  have hparse : parse people "name in [ \"a  b\" ]|!TALL"
      = .ok (.join .or [.ofRule ⟨"name", .isIn, some (.list [.string "a  b"])⟩,
          .reference { name := "TALL", negated := true }]) := by
    decide +kernel
  have htext : "name in [ \"a  b\" ]|!TALL".toList
      = ['n', 'a', 'm', 'e', ' ', 'i', 'n', ' ', '[', ' ', '"', 'a', ' ', ' ', 'b', '"', ' ', ']',
          '|', '!', 'T', 'A', 'L', 'L'] := by
    decide
  have htext' : "name\nIn\t [\r\"a  b\"\t\t]|!TALL".toList
      = ['n', 'a', 'm', 'e', '\n', 'I', 'n', '\t', ' ', '[', '\r', '"', 'a', ' ', ' ', 'b', '"',
          '\t', '\t', ']', '|', '!', 'T', 'A', 'L', 'L'] := by
    decide
  have hoperators : operators "name in [ \"a  b\" ]|!TALL".toList = [(['i', 'n'], 7)] := by
    decide +kernel
  have hinside : IsInOperator "name in [ \"a  b\" ]|!TALL".toList 5 := by
    rw [IsInOperator, hoperators]
    exact ⟨_, List.mem_singleton_self _, by decide, by decide⟩
  have hbody : LiteralBody (endsLiteral '"') ['a', ' ', ' ', 'b'] :=
    .plain (by decide) rfl (.plain (by decide) rfl (.plain (by decide) rfl
      (.plain (by decide) rfl .nil)))
  refine ⟨_, hparse, parse_of_varies hparse ?_⟩
  generalize IsInOperator "name in [ \"a  b\" ]|!TALL".toList = inside at hinside ⊢
  have hrun {c d : Char} {gap gap' rest rest' : List Char} {place : Nat}
      (hgap : (c :: gap).all isLayout = true) (hgap' : (d :: gap').all isLayout = true)
      (hmax : Stops isLayout rest)
      (h : Varies inside (place + byteCount (c :: gap)) rest rest') :
      Varies inside place (c :: gap ++ rest) (d :: gap' ++ rest') :=
    .layout (List.cons_ne_nil c gap) (List.all_eq_true.1 hgap) (List.cons_ne_nil d gap')
      (List.all_eq_true.1 hgap') hmax h
  rw [htext, htext']
  refine .same rfl rfl (.same rfl rfl (.same rfl rfl (.same rfl rfl ?_)))
  refine @hrun ' ' '\n' [] [] _ _ _ rfl rfl (.cons rfl) (.letter hinside rfl rfl ?_)
  refine .same rfl rfl (@hrun ' ' '\t' [] [' '] _ _ _ rfl rfl (.cons rfl) (.same rfl rfl ?_))
  refine @hrun ' ' '\r' [] [] _ _ _ rfl rfl (.cons rfl) (.literal rfl hbody ?_)
  refine @hrun ' ' '\t' [] ['\t'] _ _ _ rfl rfl (.cons rfl) (.same rfl rfl ?_)
  exact .same rfl rfl (.same rfl rfl (.same rfl rfl (.same rfl rfl (.same rfl rfl
    (.same rfl rfl .nil)))))

end Query

end Sift
