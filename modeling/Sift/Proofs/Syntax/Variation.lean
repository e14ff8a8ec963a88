import Sift.Proofs.Syntax.Parentheses
import Sift.Proofs.Syntax.Transparent

/-!
# Variations of a text

`Varies inside place cs cs'` says that a text is another one with its layout varied: the maximal
runs of layout outside literals are other such runs, and letters that stand where `inside` allows it
are in another case. What such a text is at its beginning is settled token by token
(`Varies.plain_inv`, `Varies.gap_inv`, `Varies.literal_inv`). If all letters that vary belong to
operators, a variation of a text that spells a phrase spells it, too (`Spells.keepsSpelling`).
-/

namespace Sift.Syntax

open Reader

/-! ### Varying layout and case -/

/-- A text in which the layout that stands outside literals is varied, and the case of letters at
the bytes that are `inside` of something. -/
inductive Varies (inside : Nat → Prop) : Nat → List Char → List Char → Prop where
  | nil {place : Nat} : Varies inside place [] []
  | layout {place : Nat} {gap gap' rest rest' : List Char} (hne : gap ≠ []) (hgap : IsGap gap)
      (hne' : gap' ≠ []) (hgap' : IsGap gap') (hmax : Stops isLayout rest)
      (h : Varies inside (place + byteCount gap) rest rest') :
      Varies inside place (gap ++ rest) (gap' ++ rest')
  | literal {place : Nat} {quote : Char} {body rest rest' : List Char}
      (hquote : opensLiteral quote = true) (hbody : LiteralBody (endsLiteral quote) body)
      (h : Varies inside (place + byteCount (quote :: body ++ [quote])) rest rest') :
      Varies inside place (quote :: body ++ quote :: rest) (quote :: body ++ quote :: rest')
  | same {place : Nat} {c : Char} {rest rest' : List Char} (hlayout : isLayout c = false)
      (hliteral : opensLiteral c = false)
      (h : Varies inside (place + c.utf8Size) rest rest') :
      Varies inside place (c :: rest) (c :: rest')
  | letter {place : Nat} {c d : Char} {rest rest' : List Char} (hinside : inside place)
      (halpha : c.isAlpha = true) (hcase : d.toLower = c.toLower)
      (h : Varies inside (place + c.utf8Size) rest rest') :
      Varies inside place (c :: rest) (d :: rest')

/-- Whether characters are the same but for the case of a letter. -/
def SameLetter (c d : Char) : Prop :=
  d.toLower = c.toLower

namespace SameLetter

variable {c d : Char}

theorem isAlpha (h : SameLetter c d) :
  d.isAlpha = c.isAlpha
  := by
  obtain rfl | ⟨-, rfl⟩ := Pattern.toLower_eq_toLower_iff.1 h
  · rfl
  · exact Pattern.isAlpha_otherCase

theorem eq_of_not_isAlpha (h : SameLetter c d) (hc : c.isAlpha = false) :
  d = c
  := by
  obtain rfl | ⟨halpha, -⟩ := Pattern.toLower_eq_toLower_iff.1 h
  · rfl
  · rw [hc] at halpha
    cases halpha

variable {text text' : List Char}

theorem map_toLower (h : List.Forall₂ SameLetter text text') :
  text'.map Char.toLower = text.map Char.toLower
  := by
  induction h with
  | nil => rfl
  | cons hc _ ih => rw [List.map_cons, List.map_cons, ih, hc]

theorem isAlpha_of_mem (h : List.Forall₂ SameLetter text text')
    (htext : ∀ c ∈ text, c.isAlpha = true) :
  ∀ d ∈ text', d.isAlpha = true
  := by
  induction h with
  | nil => exact List.forall_mem_nil _
  | cons hc _ ih =>
    rw [List.forall_mem_cons] at htext ⊢
    exact ⟨hc.isAlpha.trans htext.1, ih htext.2⟩

theorem eq_of_forall_not_isAlpha (h : List.Forall₂ SameLetter text text')
    (htext : ∀ c ∈ text, c.isAlpha = false) :
  text' = text
  := by
  induction h with
  | nil => rfl
  | cons hc _ ih =>
    rw [List.forall_mem_cons] at htext
    rw [hc.eq_of_not_isAlpha htext.1, ih htext.2]

theorem stops_isAlpha (h : List.Forall₂ SameLetter text text') (htext : Stops Char.isAlpha text) :
  Stops Char.isAlpha text'
  := by
  cases h with
  | nil => exact htext
  | cons hc =>
    rintro _ ⟨⟩
    exact hc.isAlpha.trans (htext _ rfl)

end SameLetter

/-- Whether a character that is not in a literal stays as it is. -/
structure IsSign (c : Char) : Prop where
  not_isLayout : isLayout c = false
  not_opensLiteral : opensLiteral c = false
  not_isAlpha : c.isAlpha = false

theorem isSign_token (condition : Condition) :
  IsSign condition.token
  := by
  cases condition <;> exact ⟨rfl, rfl, rfl⟩

theorem not_isLayout_of_isAlpha {c : Char} (h : c.isAlpha = true) :
  isLayout c = false
  := not_isLayout_of_isBare (isBare_of_isAlpha h)

theorem not_isLayout_of_opensLiteral {c : Char} (h : opensLiteral c = true) :
  isLayout c = false
  := by
  by_contra hne
  have hplain := isPlain_of_isLayout (by simpa using hne)
  rw [isPlain, h] at hplain
  cases hplain

theorem not_opensLiteral_of_isPlain {c : Char} (h : isPlain c = true) :
  opensLiteral c = false
  := by
  simp only [isPlain, Bool.and_eq_true, Bool.not_eq_true'] at h
  exact h.1.1

namespace Varies

variable {inside : Nat → Prop} {place : Nat} {rest cs' : List Char}

theorem cast (h : Varies inside place rest cs') {place' : Nat} (hplace : place = place') :
  Varies inside place' rest cs'
  := hplace ▸ h

/-- A character that is neither layout nor opens a literal stays, but for its case. -/
theorem char_inv {c : Char} (hlayout : isLayout c = false) (hliteral : opensLiteral c = false)
    (h : Varies inside place (c :: rest) cs') :
  ∃ d rest', cs' = d :: rest' ∧ SameLetter c d ∧ (¬inside place → d = c)
    ∧ Varies inside (place + c.utf8Size) rest rest'
  := by
  generalize hcs : c :: rest = cs at h
  cases h with
  | nil => cases hcs
  | @layout _ gap _ _ _ hne hgap =>
    cases gap with
    | nil => exact absurd rfl hne
    | cons d gap =>
      obtain ⟨rfl, -⟩ := List.cons.inj hcs
      rw [hgap c (by simp)] at hlayout
      cases hlayout
  | literal hquote =>
    obtain ⟨rfl, -⟩ := List.cons.inj hcs
    rw [hquote] at hliteral
    cases hliteral
  | same _ _ h =>
    obtain ⟨rfl, rfl⟩ := List.cons.inj hcs
    exact ⟨_, _, rfl, (rfl : SameLetter c c), fun _ => rfl, h⟩
  | letter hinside halpha hcase h =>
    obtain ⟨rfl, rfl⟩ := List.cons.inj hcs
    exact ⟨_, _, rfl, hcase, fun hne => absurd hinside hne, h⟩

/-- Characters that are neither layout nor open literals stay, but for their case. -/
theorem plain_inv {text : List Char}
    (htext : ∀ c ∈ text, isLayout c = false ∧ opensLiteral c = false)
    (h : Varies inside place (text ++ rest) cs') :
  ∃ text' rest', cs' = text' ++ rest' ∧ List.Forall₂ SameLetter text text'
    ∧ ((∀ o, place ≤ o → o < place + byteCount text → ¬inside o) → text' = text)
    ∧ Varies inside (place + byteCount text) rest rest'
  := by
  induction text generalizing place cs' with
  | nil => exact ⟨[], cs', rfl, .nil, fun _ => rfl, h⟩
  | cons c text ih =>
    rw [List.forall_mem_cons] at htext
    obtain ⟨d, tail, rfl, hsame, hkept, h⟩ := h.char_inv htext.1.1 htext.1.2
    obtain ⟨text', rest', rfl, hall, hkept', h⟩ := ih htext.2 h
    rw [Nat.add_assoc, ← byteCount_cons] at h
    refine ⟨d :: text', rest', rfl, .cons hsame hall, ?_, h⟩
    intro hinside
    have hpos := c.utf8Size_pos
    rw [byteCount_cons] at hinside
    rw [hkept (hinside place (Nat.le_refl _) (by omega)), hkept']
    intro o hlow hhigh
    exact hinside o (by omega) (by omega)

/-- Characters outside are kept if they are neither layout nor open literals. -/
theorem kept_inv {text : List Char}
    (htext : ∀ c ∈ text, isLayout c = false ∧ opensLiteral c = false)
    (hinside : ∀ o, place ≤ o → o < place + byteCount text → ¬inside o)
    (h : Varies inside place (text ++ rest) cs') :
  ∃ rest', cs' = text ++ rest' ∧ Varies inside (place + byteCount text) rest rest'
  := by
  obtain ⟨text', rest', rfl, -, hkept, h⟩ := h.plain_inv htext
  exact ⟨rest', by rw [hkept hinside], h⟩

/-- A sign is kept. -/
theorem sign_inv {c : Char} (hc : IsSign c) (h : Varies inside place (c :: rest) cs') :
  ∃ rest', cs' = c :: rest' ∧ Varies inside (place + c.utf8Size) rest rest'
  := by
  obtain ⟨d, rest', rfl, hsame, -, h⟩ := h.char_inv hc.not_isLayout hc.not_opensLiteral
  rw [hsame.eq_of_not_isAlpha hc.not_isAlpha]
  exact ⟨rest', rfl, h⟩

/-- A run of layout is another one, and none is none. -/
theorem gap_inv {gap : List Char} (hgap : IsGap gap) (hrest : Stops isLayout rest)
    (h : Varies inside place (gap ++ rest) cs') :
  ∃ gap' rest', cs' = gap' ++ rest' ∧ IsGap gap' ∧ (gap' = [] ↔ gap = [])
    ∧ Varies inside (place + byteCount gap) rest rest'
  := by
  cases gap with
  | nil => exact ⟨[], cs', rfl, IsGap.nil, Iff.rfl, h⟩
  | cons c gap =>
    have hc : isLayout c = true := hgap c (by simp)
    generalize hcs : c :: gap ++ rest = cs at h
    cases h with
    | nil => cases hcs
    | @layout _ gap₀ gap' rest₀ rest' hne hgap₀ hne' hgap' hmax h =>
      have hrun := run_append hgap hrest
      rw [hcs, run_append hgap₀ hmax, Lexeme.mk.injEq] at hrun
      obtain ⟨rfl, -, rfl⟩ := hrun
      exact ⟨gap', rest', rfl, hgap', by simp [hne'], h⟩
    | literal hquote =>
      obtain ⟨rfl, -⟩ := List.cons.inj hcs
      rw [not_isLayout_of_opensLiteral hquote] at hc
      cases hc
    | same hlayout =>
      obtain ⟨rfl, -⟩ := List.cons.inj hcs
      rw [hlayout] at hc
      cases hc
    | letter _ halpha =>
      obtain ⟨rfl, -⟩ := List.cons.inj hcs
      rw [not_isLayout_of_isAlpha halpha] at hc
      cases hc

/-- A sign with layout behind it. -/
theorem opening_inv {c : Char} {gap : List Char} (hc : IsSign c) (hgap : IsGap gap)
    (hrest : Stops isLayout rest) (h : Varies inside place (c :: (gap ++ rest)) cs') :
  ∃ gap' rest', cs' = c :: (gap' ++ rest') ∧ IsGap gap'
    ∧ Varies inside (place + byteCount (c :: gap)) rest rest'
  := by
  obtain ⟨_, rfl, h₁⟩ := h.sign_inv hc
  obtain ⟨gap', rest', rfl, hgap', -, h₂⟩ := h₁.gap_inv hgap hrest
  exact ⟨gap', rest', rfl, hgap', h₂.cast (Nat.add_assoc _ _ _)⟩

/-- A sign with layout before it. -/
theorem closing_inv {c : Char} {gap : List Char} (hgap : IsGap gap) (hc : IsSign c)
    (h : Varies inside place (gap ++ c :: rest) cs') :
  ∃ gap' rest', cs' = gap' ++ c :: rest' ∧ IsGap gap'
    ∧ Varies inside (place + byteCount (gap ++ [c])) rest rest'
  := by
  obtain ⟨gap', _, rfl, hgap', -, h₁⟩ := h.gap_inv hgap (.cons hc.not_isLayout)
  obtain ⟨rest', rfl, h₂⟩ := h₁.sign_inv hc
  refine ⟨gap', rest', rfl, hgap', h₂.cast ?_⟩
  rw [byteCount_append, Nat.add_assoc]
  rfl

/-- A literal is kept. -/
theorem literal_inv {quote : Char} {body : List Char} (hquote : opensLiteral quote = true)
    (hbody : LiteralBody (endsLiteral quote) body)
    (h : Varies inside place (quote :: body ++ quote :: rest) cs') :
  ∃ rest', cs' = quote :: body ++ quote :: rest'
    ∧ Varies inside (place + byteCount (quote :: body ++ [quote])) rest rest'
  := by
  have hne : quote ≠ '\\' := by
    rintro rfl
    cases hquote
  generalize hcs : quote :: body ++ quote :: rest = cs at h
  cases h with
  | nil => cases hcs
  | @layout _ gap _ _ _ hne hgap =>
    cases gap with
    | nil => exact absurd rfl hne
    | cons d gap =>
      obtain ⟨rfl, -⟩ := List.cons.inj hcs
      have := hgap quote (by simp)
      rw [not_isLayout_of_opensLiteral hquote] at this
      cases this
  | @literal _ _ body₀ rest₀ rest' _ hbody₀ h =>
    obtain ⟨rfl, htail⟩ := List.cons.inj hcs
    replace htail : body ++ quote :: rest = body₀ ++ quote :: rest₀ := htail
    have hclose := closeLiteral_of_body hne hbody 0 rest
    rw [htail, closeLiteral_of_body hne hbody₀, Option.some_inj, Prod.mk.injEq] at hclose
    obtain ⟨-, rfl⟩ := hclose
    obtain rfl := List.append_cancel_right htail
    exact ⟨rest', rfl, h⟩
  | same _ hliteral =>
    obtain ⟨rfl, -⟩ := List.cons.inj hcs
    rw [hquote] at hliteral
    cases hliteral
  | letter _ halpha =>
    obtain ⟨rfl, -⟩ := List.cons.inj hcs
    have := not_opensLiteral_of_isPlain (isPlain_of_isAlpha halpha)
    rw [hquote] at this
    cases this

end Varies

/-! ### Literals -/

section Literals

variable {inside : Nat → Prop} {place : Nat} {text rest cs' : List Char}

theorem LiteralBody.mono {ends other : Char → Bool} {body : List Char} (h : LiteralBody ends body)
    (hends : ∀ c, ends c = false → other c = false) :
  LiteralBody other body
  := by
  induction h with
  | nil => exact .nil
  | plain hc hplain _ ih => exact .plain hc (hends _ hplain) ih
  | escaped c _ ih => exact .escaped c ih

theorem stays_of_isBare {text : List Char} (h : ∀ c ∈ text, isBare c = true) :
  ∀ c ∈ text, isLayout c = false ∧ opensLiteral c = false
  := by
  intro c hc
  exact ⟨not_isLayout_of_isBare (h c hc), not_opensLiteral_of_isPlain (isPlain_of_isBare (h c hc))⟩

theorem vary_quoted {quote : Char} {raw : List Char} (hquote : IsQuote quote)
    (hraw : LiteralBody (· = quote) raw)
    (h : Varies inside place (quote :: raw ++ [quote] ++ rest) cs') :
  ∃ rest', cs' = quote :: raw ++ [quote] ++ rest'
    ∧ Varies inside (place + byteCount (quote :: raw ++ [quote])) rest rest'
  := by
  have hopens : opensLiteral quote = true := by
    obtain rfl | rfl := hquote <;> rfl
  have hslash : quote ≠ '/' := by
    obtain rfl | rfl := hquote <;> decide
  have hbody : LiteralBody (endsLiteral quote) raw := by
    apply hraw.mono
    intro c hc
    rw [decide_eq_false_iff_not] at hc
    simp [endsLiteral, hc, hslash]
  rw [List.append_assoc] at h
  obtain ⟨rest', rfl, hvaries⟩ := Varies.literal_inv hopens hbody h
  exact ⟨rest', by simp, hvaries⟩

/-- A literal that may stand in a list is kept. -/
theorem Scalar.Spelled.vary {s : Scalar} (hs : s.Spelled text)
    (hinside : ∀ o, place ≤ o → o < place + byteCount text → ¬inside o)
    (h : Varies inside place (text ++ rest) cs') :
  ∃ rest', cs' = text ++ rest' ∧ Varies inside (place + byteCount text) rest rest'
  := by
  cases hs with
  | quoted hquote hraw => exact vary_quoted hquote hraw h
  | word htext => exact h.kept_inv (stays_of_isBare htext.all_isBare) hinside

theorem stops_isLayout_of_head (h : text.head?.any (!isLayout ·) = true) (rest : List Char) :
  Stops isLayout (text ++ rest)
  := by
  cases text with
  | nil => cases h
  | cons c text =>
    rintro _ ⟨⟩
    simpa using h

theorem head_items {place : Nat} {items : List Item}
    (hitems : Joined ',' (fun _ text item => Item.Spelled item text) place text items) :
  text.head?.any (!isLayout ·) = true
  := by
  apply hitems.head
  rintro _ text _ ⟨hs⟩
  exact hs.head_not_isLayout

/-- A variation of a list of items is one of the same items. -/
theorem vary_items {place₀ : Nat} {items : List Item}
    (hitems : Joined ',' (fun _ text item => Item.Spelled item text) place₀ text items)
    (hinside : ∀ o, place ≤ o → o < place + byteCount text → ¬inside o)
    (h : Varies inside place (text ++ rest) cs') (place₁ : Nat) :
  ∃ text' rest', cs' = text' ++ rest'
    ∧ Joined ',' (fun _ text item => Item.Spelled item text) place₁ text' items
    ∧ Varies inside (place + byteCount text) rest rest'
  := by
  induction hitems generalizing place cs' place₁ with
  | only hitem =>
    cases hitem with
    | scalar hs =>
      obtain ⟨rest', rfl, h₁⟩ := hs.vary hinside h
      exact ⟨_, rest', rfl, .only (.scalar hs), h₁⟩
  | @cons _ text gap gap' texts item items hitem hgap hgap' hothers ih =>
    cases hitem with
    | @scalar s _ hs =>
      simp only [List.append_assoc, List.cons_append] at h
      simp only [byteCount_append, byteCount_cons] at hinside
      obtain ⟨_, rfl, h₁⟩ := hs.vary (fun o hlow hhigh => hinside o hlow (by omega)) h
      obtain ⟨gap₁, _, rfl, hgap₁, h₂⟩ := h₁.closing_inv hgap ⟨rfl, rfl, rfl⟩
      obtain ⟨gap₂, _, rfl, hgap₂, -, h₃⟩ :=
        h₂.gap_inv hgap' (stops_isLayout_of_head (head_items hothers) _)
      simp only [byteCount_append, byteCount_cons, byteCount_nil] at h₃
      obtain ⟨texts', rest', rfl, hothers', h₄⟩ := ih
        (fun o hlow hhigh => hinside o (by omega) (by omega)) h₃
        (place₁ + byteCount (text ++ (gap₁ ++ ',' :: gap₂)))
      refine ⟨text ++ (gap₁ ++ ',' :: (gap₂ ++ texts')), rest', by simp,
        .cons (.scalar hs) hgap₁ hgap₂ hothers', h₄.cast ?_⟩
      simp only [byteCount_append, byteCount_cons]
      omega

/-- A variation of a literal spells the same literal. -/
theorem Literal.Spelled.vary {literal : Literal} (hliteral : literal.Spelled text)
    (hinside : ∀ o, place ≤ o → o < place + byteCount text → ¬inside o)
    (h : Varies inside place (text ++ rest) cs') :
  ∃ text' rest', cs' = text' ++ rest' ∧ literal.Spelled text' ∧ text'.head? = text.head?
    ∧ Varies inside (place + byteCount text) rest rest'
  := by
  cases hliteral with
  | scalar hs =>
    obtain ⟨rest', rfl, h₁⟩ := hs.vary hinside h
    exact ⟨text, rest', rfl, .scalar hs, rfl, h₁⟩
  | @regex body flags hbody hflags =>
    have hends : LiteralBody (endsLiteral '/') body := by
      apply hbody.mono
      intro c hc
      simp only [endsRegex, isLineEnd, Bool.or_eq_false_iff, decide_eq_false_iff_not] at hc
      simp [endsLiteral, hc.1, hc.2.1]
    simp only [List.append_assoc, List.cons_append] at h
    simp only [byteCount_append, byteCount_cons, List.cons_append] at hinside
    obtain ⟨_, rfl, h₁⟩ := Varies.literal_inv rfl hends h
    simp only [byteCount_append, byteCount_cons, byteCount_nil, List.cons_append] at h₁
    obtain ⟨rest', rfl, h₂⟩ := h₁.kept_inv
      (stays_of_isBare fun c hc => isBare_of_isAlpha (hflags c hc))
      (fun o hlow hhigh => hinside o (by omega) (by omega))
    refine ⟨_, rest', by simp, .regex hbody hflags, rfl, h₂.cast ?_⟩
    simp only [byteCount_append, byteCount_cons, List.cons_append]
    omega
  | @empty gap hgap =>
    simp only [List.append_assoc, List.cons_append, List.nil_append] at h
    obtain ⟨gap₁, _, rfl, hgap₁, h₁⟩ := h.opening_inv ⟨rfl, rfl, rfl⟩ hgap (.cons rfl)
    obtain ⟨rest', rfl, h₂⟩ := h₁.sign_inv ⟨rfl, rfl, rfl⟩
    refine ⟨'[' :: (gap₁ ++ [']']), rest', by simp, .empty hgap₁, rfl, h₂.cast ?_⟩
    simp only [byteCount_append, byteCount_cons, byteCount_nil]
    omega
  | @list place₀ gap text gap' items hgap hgap' hitems =>
    simp only [List.append_assoc, List.cons_append, List.nil_append] at h
    simp only [byteCount_append, byteCount_cons] at hinside
    obtain ⟨gap₁, _, rfl, hgap₁, h₁⟩ := h.opening_inv ⟨rfl, rfl, rfl⟩ hgap
      (stops_isLayout_of_head (head_items hitems) _)
    rw [byteCount_cons] at h₁
    obtain ⟨text', _, rfl, hitems', h₂⟩ :=
      vary_items hitems (fun o hlow hhigh => hinside o (by omega) (by omega)) h₁ place₀
    obtain ⟨gap₂, rest', rfl, hgap₂, h₃⟩ := h₂.closing_inv hgap' ⟨rfl, rfl, rfl⟩
    refine ⟨'[' :: (gap₁ ++ (text' ++ (gap₂ ++ [']']))), rest', by simp,
      .list hgap₁ hgap₂ hitems', rfl, h₃.cast ?_⟩
    simp only [byteCount_append, byteCount_cons, byteCount_nil]
    omega

end Literals

/-! ### The operators of a phrase -/

theorem Spells.stops_isLayout {level : Level} {place : Nat} {text rest : List Char}
    {phrase : Phrase} (h : Spells level place text phrase) :
  Stops isLayout (text ++ rest)
  := stops_isLayout_of_head (head_of_isOperandStart h.head) rest

mutual

/-- The operators of a phrase, each with the place where it ends. -/
def Phrase.operators : Phrase → List (List Char × Nat)
  | .anyOf operands => operatorsOfAll operands
  | .allOf operands => operatorsOfAll operands
  | .not operand => operand.operators
  | .empty => []
  | .group inner => inner.operators
  | .comparison _ operator operatorEnd _ => [(operator, operatorEnd)]
  | .name .. => []

/-- The operators of some phrases, each with the place where it ends. -/
def operatorsOfAll : List Phrase → List (List Char × Nat)
  | [] => []
  | phrase :: rest => phrase.operators ++ operatorsOfAll rest

end

theorem operators_chainPhrase (condition : Condition) (phrases : List Phrase) :
  (chainPhrase condition phrases).operators = phrases.flatMap Phrase.operators
  := by
  have hall : operatorsOfAll phrases = phrases.flatMap Phrase.operators := by
    induction phrases with
    | nil => rfl
    | cons _ _ ih => rw [operatorsOfAll, ih, List.flatMap_cons]
  rw [← hall]
  cases condition <;> rfl

/-- Whether a byte of a text belongs to an operator of a phrase. -/
def Phrase.HasOperatorAt (phrase : Phrase) (o : Nat) : Prop :=
  ∃ op ∈ phrase.operators, op.2 ≤ o + byteCount op.1 ∧ o < op.2

theorem hasOperatorAt_chainPhrase {condition : Condition} {phrases : List Phrase} {o : Nat} :
  (chainPhrase condition phrases).HasOperatorAt o ↔ ∃ phrase ∈ phrases, phrase.HasOperatorAt o
  := by
  simp only [Phrase.HasOperatorAt, operators_chainPhrase, List.mem_flatMap]
  constructor
  · rintro ⟨op, ⟨phrase, hphrase, hop⟩, hbounds⟩
    exact ⟨phrase, hphrase, op, hop, hbounds⟩
  · rintro ⟨phrase, hphrase, op, hop, hbounds⟩
    exact ⟨op, ⟨phrase, hphrase, hop⟩, hbounds⟩

theorem hasOperatorAt_only {condition : Condition} {phrase : Phrase} {o : Nat} :
  (chainPhrase condition [phrase]).HasOperatorAt o ↔ phrase.HasOperatorAt o
  := by
  rw [hasOperatorAt_chainPhrase]
  simp

theorem hasOperatorAt_cons {condition : Condition} {phrase : Phrase} {phrases : List Phrase}
    {o : Nat} :
  (chainPhrase condition (phrase :: phrases)).HasOperatorAt o
    ↔ phrase.HasOperatorAt o ∨ (chainPhrase condition phrases).HasOperatorAt o
  := by
  rw [hasOperatorAt_chainPhrase, List.exists_mem_cons_iff, ← hasOperatorAt_chainPhrase]

/-- The operators of a phrase stand in the text that spells it. -/
theorem Spells.bounds_of_hasOperatorAt {level : Level} {place : Nat} {text : List Char}
    {phrase : Phrase} (h : Spells level place text phrase) {o : Nat}
    (ho : phrase.HasOperatorAt o) :
  place ≤ o ∧ o < place + byteCount text
  := by
  induction h with
  | name | empty =>
    obtain ⟨_, ⟨⟩, -⟩ := ho
  | comparison =>
    obtain ⟨_, hop, hlow, hhigh⟩ := ho
    obtain rfl := List.mem_singleton.1 hop
    simp only [byteCount_append] at hlow hhigh ⊢
    omega
  | group _ _ _ ih =>
    have := ih ho
    simp only [byteCount_cons, byteCount_append] at this ⊢
    omega
  | plain _ ih => exact ih ho
  | not _ _ ih =>
    have := ih ho
    simp only [byteCount_cons, byteCount_append] at this ⊢
    omega
  | only _ ih =>
    exact ih (hasOperatorAt_only.1 ho)
  | joined _ _ _ _ ih ihs =>
    simp only [byteCount_cons, byteCount_append] at ihs ⊢
    obtain ho | ho := hasOperatorAt_cons.1 ho
    · have := ih ho
      omega
    · have := ihs ho
      omega

/-! ### Comparisons -/

section Comparisons

variable {inside : Nat → Prop} {place : Nat} {rest cs' : List Char}

theorem stays_of_isIdentifier {name : List Char} (h : isIdentifier name = true) :
  ∀ c ∈ name, isLayout c = false ∧ opensLiteral c = false
  := stays_of_isBare fun c hc => isBare_of_isIdentifierChar (isIdentifierChar_of_mem h c hc)

theorem not_isAlpha_of_isLayout {c : Char} (h : isLayout c = true) :
  c.isAlpha = false
  := by
  by_contra halpha
  rw [not_isLayout_of_isAlpha (by simpa using halpha)] at h
  cases h

theorem OperatorBefore.stays {token next : List Char} (h : OperatorBefore token next) :
  ∀ c ∈ token, isLayout c = false ∧ opensLiteral c = false
  := by
  have hsign {c : Char} (hc : isOperatorSign c = true) :
      isLayout c = false ∧ opensLiteral c = false := by
    obtain rfl | rfl | rfl | rfl | rfl | rfl | rfl | rfl | rfl := isOperatorSign_cases hc
    all_goals exact ⟨rfl, rfl⟩
  cases h with
  | word _ hword => exact stays_of_isBare fun c hc => isBare_of_isAlpha (hword c hc)
  | negated _ hword =>
    rw [List.forall_mem_cons]
    exact ⟨hsign rfl, stays_of_isBare fun c hc => isBare_of_isAlpha (hword c hc)⟩
  | signs _ hsigns => exact fun c hc => hsign (hsigns c hc)

/-- A token whose letters are in another case is the token of an operator, too. -/
theorem OperatorBefore.vary {token token' next next' : List Char} (h : OperatorBefore token next)
    (htoken : List.Forall₂ SameLetter token token')
    (halpha : Stops Char.isAlpha next → Stops Char.isAlpha next')
    (hsign : Stops isOperatorSign next → Stops isOperatorSign next') :
  OperatorBefore token' next'
  := by
  have h := h.congr halpha hsign
  cases h with
  | word hne hword hnext =>
    refine .word ?_ (SameLetter.isAlpha_of_mem htoken hword) hnext
    rintro rfl
    cases htoken
    exact hne rfl
  | @negated word _ hne hword hnext =>
    cases htoken with
    | @cons _ d _ word' hmark htoken =>
      rw [hmark.eq_of_not_isAlpha rfl]
      refine .negated ?_ (SameLetter.isAlpha_of_mem htoken hword) hnext
      rintro rfl
      cases htoken
      exact hne rfl
  | signs hne hsigns hnext hmark =>
    rw [SameLetter.eq_of_forall_not_isAlpha htoken
      fun c hc => not_isAlpha_of_isOperatorSign (hsigns c hc)]
    exact .signs hne hsigns hnext hmark

/-- What comes behind an operator is varied to something that begins like it. -/
theorem ValueSpelled.vary {value : Option Literal} {tail : List Char} (h : ValueSpelled value tail)
    (hinside : ∀ o, place ≤ o → o < place + byteCount tail → ¬inside o)
    (hvaries : Varies inside place (tail ++ rest) cs') :
  ∃ tail' rest', cs' = tail' ++ rest' ∧ ValueSpelled value tail'
    ∧ (∀ test : Char → Bool, (∀ c, isLayout c = true → test c = false) →
      Stops test tail → Stops test tail')
    ∧ Varies inside (place + byteCount tail) rest rest'
  := by
  cases h with
  | none => exact ⟨[], cs', rfl, .none, fun _ _ h => h, hvaries⟩
  | @some gap text literal hgap hliteral =>
    rw [List.append_assoc] at hvaries
    rw [byteCount_append] at hinside
    have hstops := stops_isLayout_of_head hliteral.head_not_isLayout rest
    obtain ⟨gap', _, rfl, hgap', hempty, h₁⟩ := hvaries.gap_inv hgap hstops
    obtain ⟨text', rest', rfl, hliteral', hhead, h₂⟩ :=
      hliteral.vary (fun o hlow hhigh => hinside o (by omega) (by omega)) h₁
    refine ⟨gap' ++ text', rest', by simp, .some hgap' hliteral', ?_, h₂.cast ?_⟩
    · intro test htest h
      cases gap' with
      | cons c gap' =>
        rintro _ ⟨⟩
        exact htest _ (hgap' c (by simp))
      | nil =>
        rw [hempty.1 rfl, List.nil_append, Stops, ← hhead] at h
        exact h
    · rw [byteCount_append, Nat.add_assoc]

/-- Whether every variation of a text in some place spells a phrase like the given one, wherever it
stands. -/
def KeepsSpelling (inside : Nat → Prop) (level : Level) (place : Nat) (text : List Char)
    (phrase : Phrase) : Prop :=
  ∀ rest cs', Varies inside place (text ++ rest) cs' → ∀ place',
    ∃ text' rest' phrase', cs' = text' ++ rest' ∧ Spells level place' text' phrase'
      ∧ phrase'.stripped = phrase.stripped
      ∧ Varies inside (place + byteCount text) rest rest'

/-- A comparison is kept if no letters vary but those of its operator. -/
theorem keepsSpelling_comparison {field gap op tail : List Char} {value : Option Literal}
    {operatorEnd : Nat} (hfield : isIdentifier field = true) (hgap : IsGap gap)
    (hfresh : gap = [] → Stops Char.isAlpha op) (hop : OperatorBefore op tail)
    (htail : ValueSpelled value tail)
    (hinside : ∀ o, place ≤ o → o < place + byteCount (field ++ (gap ++ (op ++ tail))) → inside o →
      place + byteCount (field ++ gap) ≤ o ∧ o < place + byteCount (field ++ (gap ++ op))) :
  KeepsSpelling inside .primary place (field ++ (gap ++ (op ++ tail)))
    (.comparison field op operatorEnd value)
  := by
  intro rest cs' h place'
  rw [List.append_assoc, List.append_assoc, List.append_assoc] at h
  simp only [byteCount_append] at hinside
  have hstops : Stops isLayout (op ++ (tail ++ rest)) :=
    stops_isLayout_of_head hop.head_not_isLayout _
  obtain ⟨_, rfl, h₁⟩ := h.kept_inv (stays_of_isIdentifier hfield) fun o hlow hhigh ho => by
    have := hinside o hlow (by omega) ho
    omega
  obtain ⟨gap', _, rfl, hgap', hempty, h₂⟩ := h₁.gap_inv hgap hstops
  obtain ⟨op', _, rfl, hsame, -, h₃⟩ := h₂.plain_inv hop.stays
  obtain ⟨tail', rest', rfl, htail', hhead, h₄⟩ := htail.vary (fun o hlow hhigh ho => by
    have := hinside o (by omega) (by omega) ho
    omega) h₃
  have hop' : OperatorBefore op' tail' := by
    apply hop.vary hsame
    · exact hhead _ fun c hc => not_isAlpha_of_isLayout hc
    · exact hhead _ fun c hc => not_isOperatorSign_of_isLayout hc
  refine ⟨field ++ (gap' ++ (op' ++ tail')), rest', _, by simp, .comparison hfield hgap' ?_ hop'
    htail', ?_, h₄.cast ?_⟩
  · exact fun hnil => SameLetter.stops_isAlpha hsame (hfresh (hempty.1 hnil))
  · rw [Phrase.stripped, Phrase.stripped, SameLetter.map_toLower hsame]
  · simp only [byteCount_append]
    omega

end Comparisons

/-! ### Phrases -/

namespace KeepsSpelling

variable {inside : Nat → Prop} {level : Level} {condition : Condition} {place : Nat}
  {gap text gap' : List Char} {phrase : Phrase}

theorem name (htext : isIdentifier text = true)
    (hinside : ∀ o, place ≤ o → o < place + byteCount text → ¬inside o) :
  KeepsSpelling inside .primary place text (.name text place)
  := by
  intro rest cs' h place'
  obtain ⟨rest', rfl, h₁⟩ := h.kept_inv (stays_of_isIdentifier htext) hinside
  exact ⟨text, rest', _, rfl, .name htext, rfl, h₁⟩

theorem empty (hgap : IsGap gap) :
  KeepsSpelling inside .primary place ('(' :: (gap ++ [')'])) .empty
  := by
  intro rest cs' h place'
  simp only [List.append_assoc, List.cons_append, List.nil_append] at h
  obtain ⟨gap₁, _, rfl, hgap₁, h₁⟩ := h.opening_inv ⟨rfl, rfl, rfl⟩ hgap (.cons rfl)
  obtain ⟨rest', rfl, h₂⟩ := h₁.sign_inv ⟨rfl, rfl, rfl⟩
  refine ⟨'(' :: (gap₁ ++ [')']), rest', _, by simp, .empty hgap₁, rfl, h₂.cast ?_⟩
  simp only [byteCount_append, byteCount_cons, byteCount_nil]
  omega

theorem group (hgap : IsGap gap) (hgap' : IsGap gap')
    (hphrase : Spells (.chain .or) (place + byteCount ('(' :: gap)) text phrase)
    (hkeeps : KeepsSpelling inside (.chain .or) (place + byteCount ('(' :: gap)) text phrase) :
  KeepsSpelling inside .primary place ('(' :: (gap ++ (text ++ (gap' ++ [')'])))) (.group phrase)
  := by
  intro rest cs' h place'
  simp only [List.append_assoc, List.cons_append, List.nil_append] at h
  obtain ⟨gap₁, _, rfl, hgap₁, h₁⟩ :=
    h.opening_inv ⟨rfl, rfl, rfl⟩ hgap hphrase.stops_isLayout
  obtain ⟨text', _, phrase', rfl, hphrase', hstripped, h₂⟩ :=
    hkeeps _ _ h₁ (place' + byteCount ('(' :: gap₁))
  obtain ⟨gap₂, rest', rfl, hgap₂, h₃⟩ := h₂.closing_inv hgap' ⟨rfl, rfl, rfl⟩
  refine ⟨'(' :: (gap₁ ++ (text' ++ (gap₂ ++ [')']))), rest', _, by simp,
    .group hgap₁ hgap₂ hphrase', ?_, h₃.cast ?_⟩
  · rw [Phrase.stripped, Phrase.stripped, hstripped]
  · simp only [byteCount_append, byteCount_cons]
    omega

theorem plain (hkeeps : KeepsSpelling inside .primary place text phrase) :
  KeepsSpelling inside .operand place text phrase
  := by
  intro rest cs' h place'
  obtain ⟨text', rest', phrase', rfl, hphrase', hstripped, h₁⟩ := hkeeps rest cs' h place'
  exact ⟨text', rest', phrase', rfl, .plain hphrase', hstripped, h₁⟩

theorem not (hgap : IsGap gap)
    (hphrase : Spells .primary (place + byteCount ('!' :: gap)) text phrase)
    (hkeeps : KeepsSpelling inside .primary (place + byteCount ('!' :: gap)) text phrase) :
  KeepsSpelling inside .operand place ('!' :: (gap ++ text)) (.not phrase)
  := by
  intro rest cs' h place'
  simp only [List.append_assoc, List.cons_append] at h
  obtain ⟨gap₁, _, rfl, hgap₁, h₁⟩ :=
    h.opening_inv ⟨rfl, rfl, rfl⟩ hgap hphrase.stops_isLayout
  obtain ⟨text', rest', phrase', rfl, hphrase', hstripped, h₂⟩ :=
    hkeeps _ _ h₁ (place' + byteCount ('!' :: gap₁))
  refine ⟨'!' :: (gap₁ ++ text'), rest', _, by simp, .not hgap₁ hphrase', ?_, h₂.cast ?_⟩
  · rw [Phrase.stripped, Phrase.stripped, hstripped]
  · simp only [byteCount_append, byteCount_cons]
    omega

theorem only (hkeeps : KeepsSpelling inside (operandLevel condition) place text phrase) :
  KeepsSpelling inside (.chain condition) place text (chainPhrase condition [phrase])
  := by
  intro rest cs' h place'
  obtain ⟨text', rest', phrase', rfl, hphrase', hstripped, h₁⟩ := hkeeps rest cs' h place'
  refine ⟨text', rest', _, rfl, .only hphrase', ?_, h₁⟩
  simp only [stripped_chainPhrase, List.map_cons, List.map_nil, hstripped]

theorem joined {texts : List Char} {phrases : List Phrase} {placeOthers : Nat}
    (hplace : placeOthers = place + byteCount (text ++ (gap ++ condition.token :: gap')))
    (hkeeps : KeepsSpelling inside (operandLevel condition) place text phrase) (hgap : IsGap gap)
    (hgap' : IsGap gap')
    (hothers : Spells (.chain condition) placeOthers texts (chainPhrase condition phrases))
    (hkeepsOthers : KeepsSpelling inside (.chain condition) placeOthers texts
      (chainPhrase condition phrases)) :
  KeepsSpelling inside (.chain condition) place
    (text ++ (gap ++ condition.token :: (gap' ++ texts)))
    (chainPhrase condition (phrase :: phrases))
  := by
  intro rest cs' h place'
  simp only [List.append_assoc, List.cons_append] at h
  simp only [byteCount_append, byteCount_cons] at hplace
  obtain ⟨text', _, phrase', rfl, hphrase', hstripped, h₁⟩ := hkeeps _ _ h place'
  obtain ⟨gap₁, _, rfl, hgap₁, h₂⟩ := h₁.closing_inv hgap (isSign_token condition)
  obtain ⟨gap₂, _, rfl, hgap₂, -, h₃⟩ := h₂.gap_inv hgap' hothers.stops_isLayout
  simp only [byteCount_append, byteCount_cons, byteCount_nil] at h₃
  obtain ⟨texts', rest', _, rfl, hothers', hstripped', h₄⟩ :=
    hkeepsOthers _ _ (h₃.cast (by omega))
      (place' + byteCount (text' ++ (gap₁ ++ condition.token :: gap₂)))
  obtain ⟨others, rfl⟩ := hothers'.exists_chainPhrase
  rw [stripped_chainPhrase, stripped_chainPhrase, chainPhrase_inj] at hstripped'
  refine ⟨text' ++ (gap₁ ++ condition.token :: (gap₂ ++ texts')), rest', _, by simp,
    .joined hphrase' hgap₁ hgap₂ hothers', ?_, h₄.cast ?_⟩
  · simp only [stripped_chainPhrase, List.map_cons, hstripped, hstripped']
  · simp only [byteCount_append, byteCount_cons]
    omega

end KeepsSpelling

/-- A text that spells a phrase keeps to it if no letters vary but those of operators. -/
theorem Spells.keepsSpelling {inside : Nat → Prop} {level : Level} {place : Nat} {text : List Char}
    {phrase : Phrase} (h : Spells level place text phrase)
    (hinside : ∀ o, place ≤ o → o < place + byteCount text → inside o → phrase.HasOperatorAt o) :
  KeepsSpelling inside level place text phrase
  := by
  induction h with
  | name htext =>
    apply KeepsSpelling.name htext
    intro o hlow hhigh ho
    obtain ⟨_, ⟨⟩, -⟩ := hinside o hlow hhigh ho
  | comparison hfield hgap hfresh hop htail =>
    apply keepsSpelling_comparison hfield hgap hfresh hop htail
    intro o hlow hhigh ho
    obtain ⟨_, hmem, hend⟩ := hinside o hlow hhigh ho
    obtain rfl := List.mem_singleton.1 hmem
    simp only [byteCount_append] at hend ⊢
    omega
  | empty hgap => exact .empty hgap
  | group hgap hgap' hphrase ih =>
    apply KeepsSpelling.group hgap hgap' hphrase
    apply ih
    simp only [byteCount_append, byteCount_cons] at hinside ⊢
    exact fun o hlow hhigh => hinside o (by omega) (by omega)
  | plain _ ih => exact (ih hinside).plain
  | not hgap hphrase ih =>
    apply KeepsSpelling.not hgap hphrase
    apply ih
    simp only [byteCount_append, byteCount_cons] at hinside ⊢
    exact fun o hlow hhigh => hinside o (by omega) (by omega)
  | only _ ih =>
    simp only [hasOperatorAt_only] at hinside
    exact (ih hinside).only
  | joined hphrase hgap hgap' hothers ih ihs =>
    -- an operator of the chain stands in the part of the text that its own operand spells
    apply KeepsSpelling.joined rfl _ hgap hgap' hothers
    · apply ihs
      intro o hlow hhigh ho
      simp only [byteCount_append, byteCount_cons] at hlow hhigh hinside
      obtain hfirst | hrest := hasOperatorAt_cons.1 (hinside o (by omega) (by omega) ho)
      · have := hphrase.bounds_of_hasOperatorAt hfirst
        omega
      · exact hrest
    · apply ih
      intro o hlow hhigh ho
      rw [byteCount_append] at hinside
      obtain hfirst | hrest := hasOperatorAt_cons.1 (hinside o hlow (by omega) ho)
      · exact hfirst
      · have := hothers.bounds_of_hasOperatorAt hrest
        rw [byteCount_append] at this
        omega

end Sift.Syntax
