import Sift.Proofs.Syntax.Grammar

/-!
# What is spelled is read

A phrase that a text spells is read from it, wherever the text stands, if what comes behind it can
follow a phrase (`Follows`): nothing, a closing parenthesis, or the sign of a chain around it.
`ReadsParts.separated` is the rule for parts with signs between them, `Spells.isRead` the induction
over the grammar, and `sentence_of_spells` the result for whole texts.
-/

namespace Sift.Syntax

open Reader

/-! ### Parts with signs between them -/

namespace Reader

variable {α β : Type}

/-- Whether the parts of texts with a sign between each two are read one by one, where what comes
behind them stops them. Parts are as long as `bound` at most. -/
structure ReadsParts (sign : Char) (operand : Reader α) (IsPart : Nat → List Char → β → Prop)
    (good : β → α → Prop) (stops : List Char → Prop) (bound : Nat) : Prop where
  not_isLayout : isLayout sign = false
  stops_sign : ∀ gap rest, IsGap gap → stops (gap ++ sign :: rest)
  head : ∀ place text b, IsPart place text b → text.head?.any (!isLayout ·) = true
  reads : ∀ place text b, IsPart place text b → text.length ≤ bound → ∀ rest, stops rest →
    Reads operand (text ++ rest) fun a behind => good b a ∧ afterLayout behind = afterLayout rest

namespace ReadsParts

variable {sign : Char} {operand : Reader α} {IsPart : Nat → List Char → β → Prop}
  {good : β → α → Prop} {stops : List Char → Prop} {bound : Nat} {rest : List Char}

/-- Where there is no sign there are no further operands. -/
theorem no_operands {cs : List Char} (h : (afterLayout cs).head? ≠ some sign) (count : Nat) :
  Reads (operands sign operand count) cs fun as behind => as = [] ∧ behind = cs
  := by
  cases count with
  | zero => exact Reads.pure ⟨rfl, rfl⟩
  | succ count =>
    apply Reads.or_right _ (Reads.pure ⟨rfl, rfl⟩)
    apply Refuses.layout_bind
    exact Refuses.bind (Refuses.sign h)

/-- Parts behind a sign are further operands. -/
theorem operands (h : ReadsParts sign operand IsPart good stops bound) {place : Nat}
    {texts : List Char} {bs : List β} (hjoined : Joined sign IsPart place texts bs)
    (hbound : texts.length ≤ bound) (hrest : stops rest)
    (hend : (afterLayout rest).head? ≠ some sign) {gap' : List Char} (hgap' : IsGap gap')
    {count : Nat} (hcount : texts.length ≤ count) {cs : List Char}
    (hcs : afterLayout cs = sign :: (gap' ++ (texts ++ rest))) :
  Reads (Reader.operands sign operand count) cs fun as behind =>
    List.Forall₂ good bs as ∧ afterLayout behind = afterLayout rest
  := by
  have hpos {text : List Char} {place : Nat} {b : β} (hb : IsPart place text b) :
      0 < text.length := by
    cases text with
    | nil => exact absurd (h.head _ _ _ hb) Bool.false_ne_true
    | cons => simp
  induction hjoined generalizing gap' count cs with
  | @only place text b hb =>
    obtain ⟨count, rfl⟩ : ∃ n, count = n + 1 := Nat.exists_eq_add_one.2 (by
      have := hpos hb
      omega)
    apply Reads.or_left
    apply Reads.layout_bind
    rw [hcs]
    apply Reads.sign_bind
    apply Reads.layout_bind
    rw [hgap'.afterLayout_append, afterLayout_append (h.head _ _ _ hb)]
    apply Reads.bind (h.reads _ _ _ hb hbound rest hrest)
    rintro a behind ⟨ha, hbehind⟩
    rw [← hbehind] at hend
    apply Reads.bind (no_operands hend count)
    rintro _ _ ⟨rfl, rfl⟩
    exact Reads.pure ⟨.cons ha .nil, hbehind⟩
  | @cons place text gap gap'' texts b bs hb hgap hgap'' _ ih =>
    simp only [List.length_append, List.length_cons] at hbound hcount
    obtain ⟨count, rfl⟩ : ∃ n, count = n + 1 := Nat.exists_eq_add_one.2 (by
      have := hpos hb
      omega)
    have htext : text ++ (gap ++ sign :: (gap'' ++ texts)) ++ rest
        = text ++ (gap ++ sign :: (gap'' ++ (texts ++ rest))) := by simp
    apply Reads.or_left
    apply Reads.layout_bind
    rw [hcs]
    apply Reads.sign_bind
    apply Reads.layout_bind
    rw [hgap'.afterLayout_append, htext, afterLayout_append (h.head _ _ _ hb)]
    apply Reads.bind (h.reads _ _ _ hb (by omega) _ (h.stops_sign gap _ hgap))
    rintro a behind ⟨ha, hbehind⟩
    rw [hgap.afterLayout_append, afterLayout_cons_of_not_isLayout h.not_isLayout] at hbehind
    apply Reads.bind (ih (by omega) hgap'' (by omega) hbehind)
    rintro as behind' ⟨has, hbehind'⟩
    exact Reads.pure ⟨.cons ha has, hbehind'⟩

/-- Parts with signs between them are read one after the other. -/
theorem separated (h : ReadsParts sign operand IsPart good stops bound) {place : Nat}
    {texts : List Char} {bs : List β} (hjoined : Joined sign IsPart place texts bs)
    (hbound : texts.length ≤ bound) (hrest : stops rest)
    (hend : (afterLayout rest).head? ≠ some sign) :
  Reads (Reader.separated sign operand) (texts ++ rest) fun as behind =>
    List.Forall₂ good bs as ∧ afterLayout behind = afterLayout rest
  := by
  cases hjoined with
  | @only _ text b hb =>
    apply Reads.bind (h.reads _ _ _ hb hbound rest hrest)
    rintro a behind ⟨ha, hbehind⟩
    have hothers : Reads (fun cursor trace =>
        Reader.operands sign operand cursor.rest.length cursor trace) behind fun as behind' =>
        as = [] ∧ behind' = behind := by
      intro offset trace
      rw [← hbehind] at hend
      exact no_operands hend _ offset trace
    apply Reads.bind hothers
    rintro _ _ ⟨rfl, rfl⟩
    exact Reads.pure ⟨.cons ha .nil, hbehind⟩
  | @cons _ text gap gap' texts b bs hb hgap hgap' hothers =>
    simp only [List.length_append, List.length_cons] at hbound
    have htext : text ++ (gap ++ sign :: (gap' ++ texts)) ++ rest
        = text ++ (gap ++ sign :: (gap' ++ (texts ++ rest))) := by simp
    rw [htext]
    apply Reads.bind (h.reads _ _ _ hb (by omega) _ (h.stops_sign gap _ hgap))
    rintro a behind ⟨ha, hbehind⟩
    rw [hgap.afterLayout_append, afterLayout_cons_of_not_isLayout h.not_isLayout] at hbehind
    have hlength := length_afterLayout_le behind
    rw [hbehind] at hlength
    simp only [List.length_append, List.length_cons] at hlength
    have hoperands : Reads (fun cursor trace =>
        Reader.operands sign operand cursor.rest.length cursor trace) behind fun as behind' =>
        List.Forall₂ good bs as ∧ afterLayout behind' = afterLayout rest := by
      intro offset trace
      have hcount : texts.length ≤ behind.length := by omega
      exact h.operands hothers (by omega) hrest hend hgap' hcount hbehind offset trace
    apply Reads.bind hoperands
    rintro as behind' ⟨has, hbehind'⟩
    exact Reads.pure ⟨.cons ha has, hbehind'⟩

end ReadsParts

end Reader

/-! ### Literals -/

section Literals

variable {text rest : List Char}

theorem IsWord.head_ne (h : IsWord text) {sign : Char} (hsign : isBare sign = false)
    (rest : List Char) :
  (text ++ rest).head? ≠ some sign
  := by
  obtain ⟨c, tail, rfl, hc⟩ := h.head
  rintro ⟨⟩
  rw [hc] at hsign
  cases hsign

theorem IsWord.refuses_readQuoted (h : IsWord text) (rest : List Char) :
  Refuses readQuoted (text ++ rest)
  := by
  apply Syntax.refuses_readQuoted
  intro c hc
  constructor <;> rintro rfl <;> exact h.head_ne rfl rest hc

theorem reads_readQuoted_spelled {quote : Char} {raw : List Char} (hquote : IsQuote quote)
    (hraw : LiteralBody (· = quote) raw) (rest : List Char) :
  Reads readQuoted (quote :: raw ++ [quote] ++ rest) fun found behind =>
    found = raw ∧ behind = rest
  := by
  have hfound : quoted (quote :: raw ++ [quote] ++ rest) =
      some ⟨raw, quote :: raw ++ [quote], rest⟩ :=
    quoted_eq_some_iff.2 ⟨quote, raw, rest, hquote, hraw, rfl, by simp⟩
  apply Reads.construct
  exact Reads.lexeme hfound ⟨rfl, rfl⟩

/-- A word is read as a number, or else as a truth value, or else as a bare word. -/
theorem IsWord.reads (h : IsWord text) (hrest : endsWord rest = true) :
  Reads (construct .number (lexeme number)) (text ++ rest)
      (fun s behind => s = wordScalar text ∧ behind = rest)
    ∨ Refuses (construct .number (lexeme number)) (text ++ rest)
      ∧ (Reads (construct .boolean (lexeme boolean)) (text ++ rest)
          (fun s behind => s = wordScalar text ∧ behind = rest)
        ∨ Refuses (construct .boolean (lexeme boolean)) (text ++ rest)
          ∧ Reads (construct .bare (lexeme bare)) (text ++ rest)
            fun found behind => .bare found = wordScalar text ∧ behind = rest)
  := by
  have hbare : bare (text ++ rest) = some ⟨text, text, rest⟩ :=
    someRun_append h.ne_nil h.all_isBare (stops_isBare_iff.2 hrest)
  obtain hnumber | ⟨hnumber, hboolean | ⟨hboolean, hscalar⟩⟩ := h.cases hrest
  · exact .inl (Reads.construct (Reads.lexeme hnumber ⟨rfl, rfl⟩))
  · right
    refine ⟨Refuses.construct (Refuses.lexeme hnumber), .inl ?_⟩
    exact Reads.construct (Reads.lexeme hboolean ⟨rfl, rfl⟩)
  · right
    refine ⟨Refuses.construct (Refuses.lexeme hnumber), .inr ?_⟩
    refine ⟨Refuses.construct (Refuses.lexeme hboolean), ?_⟩
    exact Reads.construct (Reads.lexeme hbare ⟨hscalar.symm, rfl⟩)

/-- A word can end where layout begins. -/
theorem endsWord_gap {gap : List Char} (hgap : IsGap gap) (hrest : endsWord rest = true) :
  endsWord (gap ++ rest) = true
  := by
  cases gap with
  | nil => exact hrest
  | cons c gap => exact stops_isBare_iff.1 (.cons (isBare_of_isLayout (hgap c (by simp))))

theorem Scalar.Spelled.reads {s : Scalar} (h : s.Spelled text) (hrest : endsWord rest = true) :
  Reads readScalar (text ++ rest) fun found behind => found = s ∧ behind = rest
  := by
  cases h with
  | quoted hquote hraw =>
    apply Reads.or_left
    apply Reads.or_left
    exact Reads.map_eq (reads_readQuoted_spelled hquote hraw rest)
  | word htext =>
    have hquoted := Refuses.map (g := Scalar.quoted) (htext.refuses_readQuoted rest)
    obtain hnumber | ⟨hnumber, hboolean | ⟨hboolean, hbare⟩⟩ := htext.reads hrest
    · exact Reads.or_left (Reads.or_right hquoted hnumber)
    · exact Reads.or_right (Refuses.or hquoted hnumber) (Reads.or_left hboolean)
    · exact Reads.or_right (Refuses.or hquoted hnumber) (Reads.or_right hboolean (Reads.map hbare))

/-- The items of a list are read where its end or the next item comes. -/
theorem readsParts_readItem (bound : Nat) :
  ReadsParts ',' readItem (fun _ text item => Item.Spelled item text)
    (fun item found => found = item)
    (fun rest => endsWord rest = true ∧ (afterLayout rest).head?.any [',', ']'].contains = true)
    bound
  := by
  constructor
  · rfl
  · intro gap rest hgap
    rw [hgap.afterLayout_append]
    exact ⟨endsWord_gap hgap rfl, rfl⟩
  · rintro _ text _ ⟨h⟩
    exact h.head_not_isLayout
  · rintro _ text _ ⟨h⟩ - rest ⟨hends, hbefore⟩
    have hcheck : Reads (before [',', ']']) (afterLayout rest)
        fun _ behind => behind = afterLayout rest := Reads.before hbefore rfl
    apply Reads.or_left
    apply Reads.bind (Reads.construct (h.reads hends))
    rintro _ _ ⟨rfl, rfl⟩
    apply Reads.layout_bind
    apply Reads.bind hcheck
    rintro _ _ rfl
    exact Reads.pure ⟨rfl, afterLayout_afterLayout _⟩

/-- An empty list is read. -/
theorem reads_readList_empty {gap : List Char} (hgap : IsGap gap) (rest : List Char) :
  Reads readList ('[' :: (gap ++ [']']) ++ rest) fun found behind => found = [] ∧ behind = rest
  := by
  have htext : '[' :: (gap ++ [']']) ++ rest = '[' :: (gap ++ ']' :: rest) := by simp
  have hskip : afterLayout (']' :: rest) = ']' :: rest := rfl
  rw [htext]
  apply Reads.construct
  apply Reads.or_left
  apply Reads.sign_bind
  apply Reads.layout_bind
  rw [hgap.afterLayout_append, hskip]
  apply Reads.sign_bind
  exact Reads.pure ⟨rfl, rfl⟩

/-- A list of literals is read item by item. -/
theorem reads_readList_joined {place : Nat} {gap gap' : List Char} {items : List Item}
    (hgap : IsGap gap) (hgap' : IsGap gap')
    (hitems : Joined ',' (fun _ text item => Item.Spelled item text) place text items)
    (rest : List Char) :
  Reads readList ('[' :: (gap ++ (text ++ (gap' ++ [']']))) ++ rest) fun found behind =>
    found = items ∧ behind = rest
  := by
  have htext : '[' :: (gap ++ (text ++ (gap' ++ [']']))) ++ rest
      = '[' :: (gap ++ (text ++ (gap' ++ ']' :: rest))) := by simp
  have hskip : afterLayout (gap' ++ ']' :: rest) = ']' :: rest := hgap'.afterLayout_append _
  have hhead : text.head?.any (fun c => !isLayout c && c ≠ ']') = true := by
    apply hitems.head
    rintro _ text _ ⟨h⟩
    exact h.head
  have hfirst : afterLayout (gap ++ (text ++ (gap' ++ ']' :: rest)))
      = text ++ (gap' ++ ']' :: rest) := by
    rw [hgap.afterLayout_append]
    apply afterLayout_append
    cases text with
    | nil => cases hhead
    | cons c text =>
      rw [List.head?_cons, Option.any_some, Bool.and_eq_true] at hhead
      exact hhead.1
  have hread : Reads (separated ',' readItem) (text ++ (gap' ++ ']' :: rest)) fun found behind =>
      List.Forall₂ (fun item found => found = item) items found
        ∧ afterLayout behind = afterLayout (gap' ++ ']' :: rest) := by
    apply (readsParts_readItem text.length).separated hitems (Nat.le_refl _)
    · rw [hskip]
      exact ⟨endsWord_gap hgap' rfl, rfl⟩
    · rw [hskip]
      simp
  rw [htext]
  apply Reads.construct
  apply Reads.or_right
  · apply Refuses.sign_bind
    apply Refuses.layout_bind
    rw [hfirst]
    apply Refuses.bind
    apply Refuses.sign
    cases text with
    | nil => cases hhead
    | cons c text =>
      rintro ⟨⟩
      cases hhead
  · apply Reads.sign_bind
    apply Reads.layout_bind
    rw [hfirst]
    apply Reads.bind hread
    rintro found behind ⟨hfound, hbehind⟩
    apply Reads.layout_bind
    rw [hbehind, hskip]
    apply Reads.sign_bind
    apply Reads.pure
    refine ⟨?_, rfl⟩
    rw [← List.forall₂_eq_eq_eq]
    exact hfound.flip

/-- What begins as a list is no other literal. -/
theorem reads_readLiteral_of_readList {tail : List Char} {items : List Item}
    (h : Reads readList ('[' :: tail) fun found behind => found = items ∧ behind = rest) :
  Reads readLiteral ('[' :: tail) fun found behind => found = .list items ∧ behind = rest
  := by
  apply Reads.construct
  apply Reads.or_right
  · apply refuses_readRegex
    rintro ⟨⟩
  · apply Reads.or_right
    · apply Refuses.map
      apply Refuses.map
      apply refuses_readQuoted
      rintro _ ⟨⟩
      decide
    · exact Reads.or_left (Reads.map_eq h)

/-- A word is no other literal. -/
theorem IsWord.reads_readLiteral (h : IsWord text) (hrest : endsWord rest = true) :
  Reads readLiteral (text ++ rest) fun found behind =>
    found = .scalar (wordScalar text) ∧ behind = rest
  := by
  apply Reads.construct
  apply Reads.or_right (refuses_readRegex (h.head_ne rfl rest))
  apply Reads.or_right (Refuses.map (Refuses.map (h.refuses_readQuoted rest)))
  apply Reads.or_right (Refuses.map (refuses_readList (h.head_ne rfl rest)))
  obtain hnumber | ⟨hnumber, hboolean | ⟨hboolean, hbare⟩⟩ := h.reads hrest
  · exact Reads.or_left (Reads.map_eq hnumber)
  · apply Reads.or_right (Refuses.map hnumber)
    exact Reads.or_left (Reads.map_eq hboolean)
  · apply Reads.or_right (Refuses.map hnumber)
    apply Reads.or_right (Refuses.map hboolean)
    apply Reads.map
    apply hbare.mono
    rintro found _ ⟨hfound, rfl⟩
    exact ⟨by rw [hfound], rfl⟩

/-- A literal that is spelled is read where a word can end behind it. -/
theorem Literal.Spelled.reads {literal : Literal} (h : literal.Spelled text)
    (hrest : endsWord rest = true) :
  Reads readLiteral (text ++ rest) fun found behind => found = literal ∧ behind = rest
  := by
  cases h with
  | @regex body flags hbody hflags =>
    have htext : '/' :: body ++ '/' :: flags ++ rest = '/' :: body ++ '/' :: (flags ++ rest) := by
      simp
    rw [htext]
    apply Reads.construct
    apply Reads.or_left
    apply Reads.map
    apply Reads.construct
    exact Reads.lexeme (regex_append hbody hflags hrest) ⟨rfl, rfl⟩
  | empty hgap => exact reads_readLiteral_of_readList (reads_readList_empty hgap rest)
  | list hgap hgap' hitems =>
    exact reads_readLiteral_of_readList (reads_readList_joined hgap hgap' hitems rest)
  | scalar h =>
    cases h with
    | word htext => exact htext.reads_readLiteral hrest
    | quoted hquote hraw =>
      apply Reads.construct
      apply Reads.or_right
      · apply refuses_readRegex
        obtain rfl | rfl := hquote <;> rintro ⟨⟩
      · apply Reads.or_left
        exact Reads.map_eq (Reads.map_eq (reads_readQuoted_spelled hquote hraw rest))

end Literals

/-! ### What comes behind a phrase -/

/-- Whether a text goes on with nothing, a closing parenthesis, or the sign of some conditions,
perhaps behind layout. -/
def Follows (conditions : List Condition) (rest : List Char) : Prop :=
  ∀ c ∈ (afterLayout rest).head?, c = ')' ∨ ∃ condition ∈ conditions, c = condition.token

namespace Follows

variable {conditions : List Condition} {rest : List Char}

theorem of_isGap (h : IsGap rest) :
  Follows conditions rest
  := by
  rw [Follows, h.afterLayout_eq]
  rintro _ ⟨⟩

theorem close {gap : List Char} (hgap : IsGap gap) (rest : List Char) :
  Follows conditions (gap ++ ')' :: rest)
  := by
  rw [Follows, hgap.afterLayout_append]
  rintro _ ⟨⟩
  exact .inl rfl

theorem sign {condition : Condition} (hmem : condition ∈ conditions) {gap : List Char}
    (hgap : IsGap gap) (rest : List Char) :
  Follows conditions (gap ++ condition.token :: rest)
  := by
  have hskip : afterLayout (condition.token :: rest) = condition.token :: rest := by
    cases condition <;> rfl
  rw [Follows, hgap.afterLayout_append, hskip]
  rintro _ ⟨⟩
  exact .inr ⟨condition, hmem, rfl⟩

theorem mono (h : Follows conditions rest) {others : List Condition}
    (hsub : ∀ condition ∈ conditions, condition ∈ others) :
  Follows others rest
  := by
  intro c hc
  obtain h | ⟨condition, hmem, hc⟩ := h c hc
  · exact .inl h
  · exact .inr ⟨condition, hsub condition hmem, hc⟩

theorem head_afterLayout (h : Follows conditions rest) :
  ∀ c ∈ (afterLayout rest).head?, c = ')' ∨ c = '&' ∨ c = '|'
  := by
  intro c hc
  obtain h | ⟨condition, -, rfl⟩ := h c hc
  · exact .inl h
  · cases condition
    · exact .inr (.inl rfl)
    · exact .inr (.inr rfl)

/-- A chain ends where there is no sign of its own. -/
theorem head_afterLayout_ne (h : Follows conditions rest) {condition : Condition}
    (hmem : condition ∉ conditions) :
  (afterLayout rest).head? ≠ some condition.token
  := by
  intro hhead
  obtain hc | ⟨other, hother, hc⟩ := h _ hhead
  · cases condition <;> cases hc
  · have heq : condition = other := by
      cases condition <;> cases other <;> cases hc <;> rfl
    exact hmem (heq ▸ hother)

theorem head (h : Follows conditions rest) :
  ∀ c ∈ rest.head?, isLayout c = true ∨ c = ')' ∨ c = '&' ∨ c = '|'
  := by
  cases rest with
  | nil => rintro _ ⟨⟩
  | cons c rest =>
    rintro _ ⟨⟩
    by_cases hc : isLayout c = true
    · exact .inl hc
    · have hskip : afterLayout (c :: rest) = c :: rest :=
        afterLayout_cons_of_not_isLayout (by simpa using hc) rest
      exact .inr (h.head_afterLayout c (by rw [hskip]; rfl))

theorem endsWord (h : Follows conditions rest) :
  endsWord rest = true
  := by
  rw [← stops_isBare_iff]
  intro c hc
  obtain hlayout | rfl | rfl | rfl := h.head c hc
  · exact isBare_of_isLayout hlayout
  · rfl
  · rfl
  · rfl

theorem stops_isOperatorSign (h : Follows conditions rest) :
  Stops isOperatorSign rest
  := by
  intro c hc
  obtain hlayout | rfl | rfl | rfl := h.head c hc
  · exact not_isOperatorSign_of_isLayout hlayout
  · rfl
  · rfl
  · rfl

theorem stops_isAlpha (h : Follows conditions rest) :
  Stops Char.isAlpha rest
  := (stops_isBare_iff.2 h.endsWord).mono fun _ => isBare_of_isAlpha

end Follows

/-! ### Phrases -/

/-- The conditions whose signs can follow a phrase of a level. -/
def Level.behind : Level → List Condition
  | .primary | .operand => [.and, .or]
  | .chain .and => [.or]
  | .chain .or => []

/-- The reader of the phrases of a level. -/
def Level.reader (inner : Reader Phrase) : Level → Reader Phrase
  | .primary => readPrimary inner
  | .operand => readOperand inner
  | .chain .and => readAllOf inner
  | .chain .or => readAnyOf inner

/-- Whether a text in which groups are nested less than `depth` times is read as a phrase, where
what comes behind it can follow the phrase. -/
def Level.IsRead (depth : Nat) (level : Level) (text : List Char) (phrase : Phrase) : Prop :=
  ∀ rest, Follows level.behind rest → Reads (level.reader (nested depth)) (text ++ rest)
    fun found behind => found.stripped = phrase.stripped ∧ afterLayout behind = afterLayout rest

theorem isBare_of_isOperatorSign {c : Char} (h : isOperatorSign c = true) :
  isBare c = false
  := by
  obtain rfl | rfl | rfl | rfl | rfl | rfl | rfl | rfl | rfl := isOperatorSign_cases h <;> rfl

section Primaries

variable {inner : Reader Phrase} {rest : List Char}

/-- The field of a comparison ends before its operator. -/
theorem endsWord_operator {gap op tail : List Char} (hgap : IsGap gap)
    (hfresh : gap = [] → Stops Char.isAlpha op) (hop : OperatorBefore op tail)
    (rest : List Char) :
  endsWord (gap ++ (op ++ rest)) = true
  := by
  rw [← stops_isBare_iff]
  cases gap with
  | cons c gap => exact .cons (isBare_of_isLayout (hgap c (by simp)))
  | nil =>
    obtain ⟨c, tail, rfl, hc | hc⟩ := hop.head
    · have := hfresh rfl c rfl
      rw [hc] at this
      cases this
    · exact .cons (isBare_of_isOperatorSign hc)

/-- The value of a comparison is read, and none if it has none. -/
theorem ValueSpelled.reads {value : Option Literal} {tail : List Char} (h : ValueSpelled value tail)
    (hrest : Follows [.and, .or] rest) :
  Reads (optional readLiteral) (afterLayout (tail ++ rest)) fun found behind =>
    found = value ∧ afterLayout behind = afterLayout rest
  := by
  cases h with
  | none =>
    apply Reads.optional_none (refuses_readLiteral hrest.head_afterLayout)
    exact ⟨rfl, afterLayout_afterLayout rest⟩
  | some hgap h =>
    rw [List.append_assoc, hgap.afterLayout_append, afterLayout_append h.head_not_isLayout]
    apply Reads.optional_some
    apply (h.reads hrest.endsWord).mono
    rintro _ _ ⟨rfl, rfl⟩
    exact ⟨rfl, rfl⟩

theorem reads_readComparison {field gap op tail : List Char} {value : Option Literal}
    (hfield : isIdentifier field = true) (hgap : IsGap gap)
    (hfresh : gap = [] → Stops Char.isAlpha op) (hop : OperatorBefore op tail)
    (htail : ValueSpelled value tail) (hrest : Follows [.and, .or] rest) :
  Reads readComparison (field ++ (gap ++ (op ++ (tail ++ rest)))) fun found behind =>
    (∃ operatorEnd, found = .comparison field op operatorEnd value)
      ∧ afterLayout behind = afterLayout rest
  := by
  have hnext : OperatorBefore op (tail ++ rest) :=
    hop.congr (·.append hrest.stops_isAlpha) (·.append hrest.stops_isOperatorSign)
  have hoperator : operator (op ++ (tail ++ rest)) = some ⟨op, op, tail ++ rest⟩ :=
    operator_eq_some_iff.2 ⟨op, _, rfl, rfl, hnext⟩
  have hread : Reads (construct .operator (lexeme operator)) (op ++ (tail ++ rest))
      fun found behind => found = op ∧ behind = tail ++ rest :=
    Reads.construct (Reads.lexeme hoperator ⟨rfl, rfl⟩)
  have hplace : Reads place (tail ++ rest) fun _ behind => behind = tail ++ rest :=
    Reads.place fun _ => rfl
  apply Reads.construct
  apply Reads.bind (reads_readIdentifier hfield (endsWord_operator hgap hfresh hop _))
  rintro _ _ ⟨rfl, rfl⟩
  apply Reads.layout_bind
  rw [hgap.afterLayout_append, afterLayout_append hop.head_not_isLayout]
  apply Reads.bind hread
  rintro _ _ ⟨rfl, rfl⟩
  apply Reads.bind hplace
  rintro operatorEnd _ rfl
  apply Reads.layout_bind
  apply Reads.bind (htail.reads hrest)
  rintro _ behind ⟨rfl, hbehind⟩
  exact Reads.pure ⟨⟨operatorEnd, rfl⟩, hbehind⟩

/-- A name is no comparison. -/
theorem refuses_readComparison {name : List Char} (hname : isIdentifier name = true)
    (hrest : Follows [.and, .or] rest) :
  Refuses readComparison (name ++ rest)
  := by
  apply Refuses.construct
  apply Refuses.bind_of_reads (reads_readIdentifier hname hrest.endsWord)
  rintro _ _ ⟨rfl, rfl⟩
  apply Refuses.layout_bind
  apply Refuses.bind
  apply Refuses.construct
  apply Refuses.lexeme
  apply operator_eq_none
  intro c hc
  obtain rfl | rfl | rfl := hrest.head_afterLayout c hc <;> decide

theorem reads_readName {name : List Char} (hname : isIdentifier name = true)
    (hrest : endsWord rest = true) :
  Reads readName (name ++ rest) fun found behind =>
    (∃ start, found = .name name start) ∧ behind = rest
  := by
  have hplace : Reads place (name ++ rest) fun _ behind => behind = name ++ rest :=
    Reads.place fun _ => rfl
  apply Reads.construct
  apply Reads.bind hplace
  rintro start _ rfl
  apply Reads.bind (reads_readIdentifier hname hrest)
  rintro _ _ ⟨rfl, rfl⟩
  exact Reads.pure ⟨⟨start, rfl⟩, rfl⟩

/-- Parentheses are read with what stands in them. -/
theorem reads_readGroup {gap text gap' : List Char} {good : Phrase → Prop} (hgap : IsGap gap)
    (hgap' : IsGap gap') (hhead : text.head?.any (!isLayout ·) = true)
    (h : ∀ rest, Follows [] rest → Reads inner (text ++ rest) fun found behind =>
      good found ∧ afterLayout behind = afterLayout rest) :
  Reads (readGroup inner) ('(' :: (gap ++ (text ++ (gap' ++ [')']))) ++ rest) fun found behind =>
    (∃ phrase, found = .group phrase ∧ good phrase) ∧ behind = rest
  := by
  have htext : '(' :: (gap ++ (text ++ (gap' ++ [')']))) ++ rest
      = '(' :: (gap ++ (text ++ (gap' ++ ')' :: rest))) := by simp
  have hskip : afterLayout (')' :: rest) = ')' :: rest := rfl
  have hsome : Reads (optional inner) (text ++ (gap' ++ ')' :: rest)) fun found behind =>
      (∃ phrase, found = some phrase ∧ good phrase) ∧ afterLayout behind = ')' :: rest := by
    apply Reads.optional_some
    apply (h _ (Follows.close hgap' rest)).mono
    rintro phrase behind ⟨hphrase, hbehind⟩
    rw [hgap'.afterLayout_append, hskip] at hbehind
    exact ⟨⟨phrase, rfl, hphrase⟩, hbehind⟩
  rw [htext]
  apply Reads.construct
  apply Reads.sign_bind
  apply Reads.layout_bind
  rw [hgap.afterLayout_append, afterLayout_append hhead]
  apply Reads.bind hsome
  rintro _ behind ⟨⟨phrase, rfl, hphrase⟩, hbehind⟩
  apply Reads.layout_bind
  rw [hbehind]
  apply Reads.sign_bind
  exact Reads.pure ⟨⟨phrase, rfl, hphrase⟩, rfl⟩

/-- Parentheses around nothing are read. -/
theorem reads_readGroup_empty {gap : List Char} (hgap : IsGap gap)
    (hinner : Refuses inner (')' :: rest)) :
  Reads (readGroup inner) ('(' :: (gap ++ [')']) ++ rest) fun found behind =>
    found = .empty ∧ behind = rest
  := by
  have htext : '(' :: (gap ++ [')']) ++ rest = '(' :: (gap ++ ')' :: rest) := by simp
  have hskip : afterLayout (')' :: rest) = ')' :: rest := rfl
  have hnone : Reads (optional inner) (')' :: rest) fun found behind =>
      found = none ∧ behind = ')' :: rest :=
    Reads.optional_none hinner ⟨rfl, rfl⟩
  rw [htext]
  apply Reads.construct
  apply Reads.sign_bind
  apply Reads.layout_bind
  rw [hgap.afterLayout_append, hskip]
  apply Reads.bind hnone
  rintro _ _ ⟨rfl, rfl⟩
  apply Reads.layout_bind
  rw [hskip]
  apply Reads.sign_bind
  exact Reads.pure ⟨rfl, rfl⟩

end Primaries

/-! ### The levels of the grammar -/

section Levels

variable {depth place : Nat} {text : List Char} {phrase : Phrase}

/-- A chain consists of its operands with the sign between them. -/
theorem Spells.joined_operands {condition : Condition}
    (h : Spells (.chain condition) place text phrase) :
  ∃ phrases, phrase = chainPhrase condition phrases
    ∧ Joined condition.token (Spells (operandLevel condition)) place text phrases
  := by
  generalize hlevel : Level.chain condition = level at h
  induction h with
  | name | comparison | empty | group | plain | not => cases hlevel
  | only h =>
    cases hlevel
    exact ⟨_, rfl, .only h⟩
  | joined h hgap hgap' _ _ ih =>
    cases hlevel
    obtain ⟨phrases, hphrases, hjoined⟩ := ih rfl
    rw [chainPhrase_inj] at hphrases
    rw [← hphrases] at hjoined
    exact ⟨_, rfl, .cons h hgap hgap' hjoined⟩

/-- What the parentheses of a primary phrase are around is nested less deeply. -/
theorem Spells.isRead_primary
    (hinner : ∀ inner, inner < depth → ∀ place text phrase, Spells (.chain .or) place text phrase →
      text.length ≤ inner → Level.IsRead inner (.chain .or) text phrase)
    (h : Spells .primary place text phrase) (hdepth : text.length ≤ depth) :
  Level.IsRead depth .primary text phrase
  := by
  intro rest hrest
  cases h with
  | name hname =>
    apply Reads.construct
    apply Reads.or_right (refuses_readGroup (identifier_head_ne hname rfl rest))
    apply Reads.or_right (refuses_readComparison hname hrest)
    apply (reads_readName hname hrest.endsWord).mono
    rintro _ _ ⟨⟨start, rfl⟩, rfl⟩
    exact ⟨rfl, rfl⟩
  | @comparison _ field gap op tail value hfield hgap hfresh hop htail =>
    have htext : field ++ (gap ++ (op ++ tail)) ++ rest = field ++ (gap ++ (op ++ (tail ++ rest))) := by
      simp only [List.append_assoc]
    rw [htext]
    apply Reads.construct
    apply Reads.or_right (refuses_readGroup (identifier_head_ne hfield rfl _))
    apply Reads.or_left
    apply (reads_readComparison hfield hgap hfresh hop htail hrest).mono
    rintro _ _ ⟨⟨operatorEnd, rfl⟩, hbehind⟩
    exact ⟨rfl, hbehind⟩
  | empty hgap =>
    apply Reads.construct
    apply Reads.or_left
    apply (reads_readGroup_empty hgap (refuses_nested depth rest)).mono
    rintro _ _ ⟨rfl, rfl⟩
    exact ⟨rfl, rfl⟩
  | group hgap hgap' h =>
    simp only [List.length_cons, List.length_append] at hdepth
    obtain ⟨inner, rfl⟩ : ∃ inner, depth = inner + 1 := Nat.exists_eq_add_one.2 (by omega)
    have hread := hinner inner (Nat.lt_succ_self _) _ _ _ h (by omega)
    have hnested : nested (inner + 1) = readAnyOf (nested inner) := readPhrase_eq inner
    apply Reads.construct
    apply Reads.or_left
    rw [hnested]
    apply (reads_readGroup hgap hgap' (head_of_isOperandStart h.head) hread).mono
    rintro _ _ ⟨⟨found, rfl, hfound⟩, rfl⟩
    exact ⟨by rw [Phrase.stripped, Phrase.stripped, hfound], rfl⟩

theorem Spells.head_ne_mark (h : Spells .primary place text phrase) (rest : List Char) :
  (text ++ rest).head? ≠ some '!'
  := by
  cases h with
  | name hname => exact identifier_head_ne hname rfl rest
  | comparison hfield =>
    rw [List.append_assoc]
    exact identifier_head_ne hfield rfl _
  | empty | group => rintro ⟨⟩

/-- An exclamation mark before a primary phrase is read. -/
theorem Spells.isRead_operand
    (hprimary : ∀ place text phrase, Spells .primary place text phrase → text.length ≤ depth →
      Level.IsRead depth .primary text phrase)
    (h : Spells .operand place text phrase) (hdepth : text.length ≤ depth) :
  Level.IsRead depth .operand text phrase
  := by
  intro rest hrest
  cases h with
  | plain h =>
    have hnone : Reads (optional (construct .negation (sign '!'))) (text ++ rest)
        fun negation behind => negation = none ∧ behind = text ++ rest :=
      Reads.optional_none (Refuses.construct (Refuses.sign (h.head_ne_mark rest))) ⟨rfl, rfl⟩
    apply Reads.construct
    apply Reads.bind hnone
    rintro _ _ ⟨rfl, rfl⟩
    apply Reads.layout_bind
    rw [afterLayout_operand h.head]
    apply Reads.bind (hprimary _ _ _ h hdepth rest hrest)
    intro found behind hfound
    exact Reads.pure hfound
  | @not _ gap text phrase hgap h =>
    have hsome : Reads (optional (construct .negation (sign '!'))) ('!' :: (gap ++ text ++ rest))
        fun negation behind => negation.isSome = true ∧ behind = gap ++ text ++ rest :=
      Reads.optional_some (Reads.construct (Reads.sign ⟨rfl, rfl⟩))
    simp only [List.length_cons, List.length_append] at hdepth
    apply Reads.construct
    apply Reads.bind hsome
    rintro negation _ ⟨hnegation, rfl⟩
    apply Reads.layout_bind
    rw [List.append_assoc, hgap.afterLayout_append, afterLayout_operand h.head]
    apply Reads.bind (hprimary _ _ _ h (by omega) rest hrest)
    rintro found behind ⟨hfound, hbehind⟩
    rw [if_pos hnegation]
    exact Reads.pure ⟨by rw [Phrase.stripped, Phrase.stripped, hfound], hbehind⟩

/-- The operands of a chain are read where the chain ends or the next operand comes. -/
theorem readsParts_operand {condition : Condition}
    (hoperand : ∀ place text phrase, Spells (operandLevel condition) place text phrase →
      text.length ≤ depth → Level.IsRead depth (operandLevel condition) text phrase) :
  ReadsParts condition.token ((operandLevel condition).reader (nested depth))
    (Spells (operandLevel condition)) (fun phrase found => found.stripped = phrase.stripped)
    (Follows (operandLevel condition).behind) depth
  := by
  constructor
  · cases condition <;> rfl
  · intro gap rest hgap
    apply Follows.sign _ hgap
    cases condition <;> decide
  · intro place text phrase h
    exact head_of_isOperandStart h.head
  · exact hoperand

/-- Operands with signs between them are read as a chain. -/
theorem Spells.isRead_chain {condition : Condition}
    (hoperand : ∀ place text phrase, Spells (operandLevel condition) place text phrase →
      text.length ≤ depth → Level.IsRead depth (operandLevel condition) text phrase)
    (h : Spells (.chain condition) place text phrase) (hdepth : text.length ≤ depth) :
  Level.IsRead depth (.chain condition) text phrase
  := by
  intro rest hrest
  obtain ⟨phrases, rfl, hjoined⟩ := h.joined_operands
  have hsub : ∀ other ∈ (Level.chain condition).behind, other ∈ (operandLevel condition).behind := by
    cases condition <;> decide
  have hmem : condition ∉ (Level.chain condition).behind := by
    cases condition <;> decide
  have hread := (readsParts_operand hoperand).separated hjoined hdepth (hrest.mono hsub)
    (hrest.head_afterLayout_ne hmem)
  have hchain : Reads (chainPhrase condition <$>
      separated condition.token ((operandLevel condition).reader (nested depth))) (text ++ rest)
      fun found behind => found.stripped = (chainPhrase condition phrases).stripped
        ∧ afterLayout behind = afterLayout rest := by
    apply Reads.map
    apply hread.mono
    rintro found behind ⟨hfound, hbehind⟩
    refine ⟨?_, hbehind⟩
    have hstripped : found.map Phrase.stripped = phrases.map Phrase.stripped := by
      rw [← List.forall₂_eq_eq_eq, List.forall₂_map_left_iff, List.forall₂_map_right_iff]
      exact hfound.flip
    rw [stripped_chainPhrase, stripped_chainPhrase, hstripped]
  cases condition with
  | and => exact Reads.construct hchain
  | or => exact Reads.construct hchain

/-- What is spelled is read. -/
theorem Spells.isRead {level : Level} (h : Spells level place text phrase)
    (hdepth : text.length ≤ depth) :
  Level.IsRead depth level text phrase
  := by
  induction depth using Nat.strong_induction_on generalizing level place text phrase with
  | _ depth ih =>
    have hprimary (place : Nat) (text : List Char) (phrase : Phrase)
        (h : Spells .primary place text phrase) (hdepth : text.length ≤ depth) :
        Level.IsRead depth .primary text phrase :=
      h.isRead_primary (fun inner hlt _ _ _ h hinner => ih inner hlt h hinner) hdepth
    have hoperand (place : Nat) (text : List Char) (phrase : Phrase)
        (h : Spells .operand place text phrase) (hdepth : text.length ≤ depth) :
        Level.IsRead depth .operand text phrase := h.isRead_operand hprimary hdepth
    have hall (place : Nat) (text : List Char) (phrase : Phrase)
        (h : Spells (.chain .and) place text phrase) (hdepth : text.length ≤ depth) :
        Level.IsRead depth (.chain .and) text phrase := h.isRead_chain hoperand hdepth
    match level with
    | .primary => exact hprimary _ _ _ h hdepth
    | .operand => exact hoperand _ _ _ h hdepth
    | .chain .and => exact hall _ _ _ h hdepth
    | .chain .or => exact h.isRead_chain hall hdepth

end Levels

/-! ### Whole texts -/

section Sentences

variable {gap gap' : List Char}

/-- What is read behind the layout at the beginning is the sentence if only layout follows it. -/
theorem sentence_of_reads {content : List Char} {good : Sentence → Prop} (hgap : IsGap gap)
    (hskip : afterLayout content = content)
    (h : Reads (readFreeText.or fun cursor trace =>
      (Sentence.phrase <$> readPhrase cursor.rest.length) cursor trace) content
      fun found behind => good found ∧ afterLayout behind = []) :
  ∃ found, sentence (gap ++ content) = .ok found ∧ good found
  := by
  have hfound : Reads (optional (readFreeText.or fun cursor trace =>
      (Sentence.phrase <$> readPhrase cursor.rest.length) cursor trace)) content
      fun found behind => (∃ inner, found = some inner ∧ good inner) ∧ afterLayout behind = [] := by
    apply Reads.optional_some
    apply h.mono
    rintro inner behind ⟨hinner, hbehind⟩
    exact ⟨⟨inner, rfl, hinner⟩, hbehind⟩
  have hend : Reads atEnd [] fun _ _ => True := Reads.atEnd trivial
  have hquery : Reads readQuery (gap ++ content) fun found _ => good found := by
    apply Reads.construct
    apply Reads.layout_bind
    rw [hgap.afterLayout_append, hskip]
    apply Reads.bind hfound
    rintro _ behind ⟨⟨inner, rfl, hinner⟩, hbehind⟩
    apply Reads.layout_bind
    rw [hbehind]
    apply Reads.bind hend
    intro _ _ _
    exact Reads.pure hinner
  obtain ⟨found, cursor, after, hread, hgood⟩ := hquery 0 {}
  refine ⟨found, ?_, hgood⟩
  rw [sentence, hread]

/-- A text that spells a phrase, with layout around it, is read as the phrase. -/
theorem sentence_of_spells {place : Nat} {text : List Char} {phrase : Phrase}
    (h : Spells (.chain .or) place text phrase) (hgap : IsGap gap) (hgap' : IsGap gap') :
  ∃ found, sentence (gap ++ (text ++ gap')) = .ok (.phrase found)
    ∧ found.stripped = phrase.stripped
  := by
  have hlength : text.length ≤ (text ++ gap').length := by simp
  have hphrase : Reads (Sentence.phrase <$> readPhrase (text ++ gap').length) (text ++ gap')
      fun found behind => (∃ other, found = .phrase other ∧ other.stripped = phrase.stripped)
        ∧ afterLayout behind = [] := by
    apply Reads.map
    rw [readPhrase_eq]
    apply (h.isRead hlength gap' (Follows.of_isGap hgap')).mono
    rintro other behind ⟨hother, hbehind⟩
    rw [hgap'.afterLayout_eq] at hbehind
    exact ⟨⟨other, rfl, hother⟩, hbehind⟩
  have hhead : (text ++ gap').head?.any isOperandStart = true := by
    have := h.head
    cases text with
    | nil => cases this
    | cons c text => exact this
  obtain ⟨_, hsentence, found, rfl, hfound⟩ := sentence_of_reads hgap (afterLayout_operand h.head _)
    (Reads.or_right (refuses_readFreeText hhead) fun offset trace => hphrase offset trace)
  exact ⟨found, hsentence, hfound⟩

/-- A text that is a quoted string, with layout around it, is read as that. -/
theorem sentence_of_quoted {quote : Char} {raw : List Char} (hquote : IsQuote quote)
    (hraw : LiteralBody (· = quote) raw) (hgap : IsGap gap) (hgap' : IsGap gap') :
  ∃ start, sentence (gap ++ (quote :: raw ++ [quote] ++ gap')) = .ok (.freeText raw start)
  := by
  have hskip : afterLayout (quote :: raw ++ [quote] ++ gap') = quote :: raw ++ [quote] ++ gap' := by
    rw [List.append_assoc, List.cons_append]
    apply afterLayout_cons_of_not_isLayout
    obtain rfl | rfl := hquote <;> rfl
  have hplace : Reads place (quote :: raw ++ [quote] ++ gap') fun _ behind =>
      behind = quote :: raw ++ [quote] ++ gap' := Reads.place fun _ => rfl
  have hend : Reads beforeEnd [] fun _ behind => behind = [] := Reads.beforeEnd rfl
  have hfree : Reads readFreeText (quote :: raw ++ [quote] ++ gap') fun found behind =>
      (∃ start, found = .freeText raw start) ∧ afterLayout behind = [] := by
    apply Reads.construct
    apply Reads.bind hplace
    rintro start _ rfl
    apply Reads.bind (reads_readQuoted_spelled hquote hraw gap')
    rintro _ _ ⟨rfl, rfl⟩
    apply Reads.layout_bind
    rw [hgap'.afterLayout_eq]
    apply Reads.bind hend
    rintro _ _ rfl
    exact Reads.pure ⟨⟨start, rfl⟩, rfl⟩
  obtain ⟨_, hsentence, start, rfl⟩ := sentence_of_reads hgap hskip (Reads.or_left hfree)
  exact ⟨start, hsentence⟩

end Sentences

end Sift.Syntax
