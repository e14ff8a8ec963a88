import Sift.Proofs.Syntax.Grammar

/-!
# What is read is spelled

A phrase that is read from a text and means a tree is spelled by the text, up to the layout behind
it (`recognizes_readPhrase`). A whole text is a phrase or a lone quoted string with layout around
it, or nothing but layout (`Sentence.Spelled`).
-/

namespace Sift.Syntax

open Reader

/-! ### Tokens -/

section Tokens

variable {cursor behind : Cursor}

theorem spans_advance {cursor : Cursor} {text rest : List Char} (h : cursor.rest = text ++ rest) :
  Spans cursor text (cursor.advance text rest)
  := ⟨h, rfl⟩

theorem spans_of_identifier {name : List Char} (h : Takes readIdentifier cursor name behind) :
  Spans cursor name behind ∧ isIdentifier name = true ∧ Stops isIdentifierChar behind.rest
  := by
  obtain ⟨found, hfound, rfl, rfl⟩ := h.construct_inv.lexeme_inv
  obtain ⟨name, rest, rfl, hcs, hname, hrest⟩ := exists_of_identifier hfound
  exact ⟨spans_advance hcs, hname, hrest⟩

theorem spans_of_operator {op : List Char}
    (h : Takes (construct .operator (lexeme operator)) cursor op behind) :
  Spans cursor op behind ∧ OperatorBefore op behind.rest
  := by
  obtain ⟨found, hfound, rfl, rfl⟩ := h.construct_inv.lexeme_inv
  obtain ⟨op, rest, rfl, hcs, hop⟩ := operator_eq_some_iff.1 hfound
  exact ⟨spans_advance hcs, hop⟩

/-! ### Literals -/

theorem spells_of_quoted {raw : List Char} (h : Takes readQuoted cursor raw behind) :
  ∃ quote, IsQuote quote ∧ LiteralBody (· = quote) raw
    ∧ Spans cursor (quote :: raw ++ [quote]) behind
  := by
  obtain ⟨found, hfound, rfl, rfl⟩ := h.construct_inv.lexeme_inv
  obtain ⟨quote, raw, rest, hquote, hraw, rfl, hcs⟩ := quoted_eq_some_iff.1 hfound
  exact ⟨quote, hquote, hraw, spans_advance (by rw [hcs]; simp)⟩

theorem spells_of_number {s : Scalar}
    (h : Takes (construct .number (lexeme number)) cursor s behind) :
  ∃ text, Spans cursor text behind ∧ s.Spelled text
  := by
  obtain ⟨found, hfound, rfl, rfl⟩ := h.construct_inv.lexeme_inv
  obtain ⟨hcs, hword, hends⟩ := exists_of_number hfound
  refine ⟨found.text, spans_advance hcs, ?_⟩
  obtain hnumber | ⟨hnone, -⟩ := hword.cases hends
  · rw [← hcs, hfound] at hnumber
    have hvalue := congrArg Lexeme.value (Option.some.inj hnumber)
    rw [hvalue]
    exact .word hword
  · rw [← hcs, hfound] at hnone
    cases hnone

theorem spells_of_boolean {s : Scalar} (hnumber : Misses (construct .number (lexeme number)) cursor)
    (h : Takes (construct .boolean (lexeme boolean)) cursor s behind) :
  ∃ text, Spans cursor text behind ∧ s.Spelled text
  := by
  obtain ⟨found, hfound, rfl, rfl⟩ := h.construct_inv.lexeme_inv
  obtain ⟨b, rest, rfl, hcs, hends⟩ := boolean_eq_some_iff.1 hfound
  refine ⟨_, spans_advance hcs, ?_⟩
  have hnone := hnumber.construct_inv.lexeme_inv
  have hword := isWord_bool b
  rw [hcs] at hnone hfound
  obtain h | ⟨-, h | ⟨h, -⟩⟩ := hword.cases hends
  · rw [hnone] at h
    cases h
  · rw [hfound] at h
    have hvalue := congrArg Lexeme.value (Option.some.inj h)
    rw [hvalue]
    exact .word hword
  · rw [hfound] at h
    cases h

theorem spells_of_bare {text : List Char}
    (hnumber : Misses (construct .number (lexeme number)) cursor)
    (hboolean : Misses (construct .boolean (lexeme boolean)) cursor)
    (h : Takes (construct .bare (lexeme bare)) cursor text behind) :
  Spans cursor text behind ∧ Scalar.Spelled (.bare text) text
  := by
  obtain ⟨found, hfound, rfl, rfl⟩ := h.construct_inv.lexeme_inv
  obtain ⟨text, rest, rfl, hcs, hne, htext, hrest⟩ := someRun_eq_some_iff.1 hfound
  refine ⟨spans_advance hcs, ?_⟩
  have hword : IsWord text := ⟨hne, htext⟩
  have hnone := hnumber.construct_inv.lexeme_inv
  have hnone' := hboolean.construct_inv.lexeme_inv
  rw [hcs] at hnone hnone'
  obtain h | ⟨-, h | ⟨-, h⟩⟩ := hword.cases (stops_isBare_iff.1 hrest)
  · rw [hnone] at h
    cases h
  · rw [hnone'] at h
    cases h
  · rw [← h]
    exact .word hword

theorem spells_of_scalar {s : Scalar} (h : Takes readScalar cursor s behind) :
  ∃ text, Spans cursor text behind ∧ s.Spelled text
  := by
  obtain h | ⟨hmiss, h⟩ := h.or_inv
  · obtain h | ⟨-, h⟩ := h.or_inv
    · obtain ⟨raw, rfl, hread⟩ := h.map_inv
      obtain ⟨quote, hquote, hraw, hspans⟩ := spells_of_quoted hread
      exact ⟨_, hspans, .quoted hquote hraw⟩
    · exact spells_of_number h
  · have hnumber := hmiss.or_inv.2
    obtain h | ⟨hboolean, h⟩ := h.or_inv
    · exact spells_of_boolean hnumber h
    · obtain ⟨text, rfl, hread⟩ := h.map_inv
      exact ⟨text, spells_of_bare hnumber hboolean hread⟩

theorem covers_of_item {item : Item} (h : Takes readItem cursor item behind) {v : Value}
    (hv : item.toValue = .ok v) :
  ∃ text, Covers cursor text behind ∧ item.Spelled text
  := by
  obtain h | ⟨-, h⟩ := h.or_inv
  · obtain ⟨s, afterScalar, hscalar, h⟩ := h.bind_inv
    obtain ⟨_, between, hlayout, h⟩ := h.bind_inv
    obtain ⟨_, _, hbefore, h⟩ := h.bind_inv
    obtain ⟨rfl, rfl⟩ := h.pure_inv
    obtain rfl := hbefore.before_inv
    obtain ⟨text, hspans, hs⟩ := spells_of_scalar hscalar.construct_inv
    obtain ⟨-, gap, hgap, hspans'⟩ := hlayout.layout_inv
    exact ⟨text, (Covers.of_spans hspans).gap hgap hspans', .scalar hs⟩
  · obtain ⟨text, rfl, -⟩ := h.map_inv
    cases hv

theorem spells_of_list {items : List Item} (h : Takes readList cursor items behind)
    {vs : List Value} (hvs : items.mapM Item.toValue = .ok vs) :
  ∃ text, Spans cursor text behind ∧ Literal.Spelled (.list items) text
  := by
  obtain h | ⟨-, h⟩ := h.construct_inv.or_inv
  · obtain ⟨_, afterOpen, hopen, h⟩ := h.bind_inv
    obtain ⟨_, between, hlayout, h⟩ := h.bind_inv
    obtain ⟨_, _, hclose, h⟩ := h.bind_inv
    obtain ⟨rfl, rfl⟩ := h.pure_inv
    obtain ⟨-, gap, hgap, hspans⟩ := hlayout.layout_inv
    exact ⟨_, hopen.sign_inv.trans (hspans.trans hclose.sign_inv), .empty hgap⟩
  · obtain ⟨_, afterOpen, hopen, h⟩ := h.bind_inv
    obtain ⟨_, first, hlayout, h⟩ := h.bind_inv
    obtain ⟨found, afterItems, hitems, h⟩ := h.bind_inv
    obtain ⟨_, between, hlayout', h⟩ := h.bind_inv
    obtain ⟨_, _, hclose, h⟩ := h.bind_inv
    obtain ⟨rfl, rfl⟩ := h.pure_inv
    obtain ⟨hfirst, gap, hgap, hspans⟩ := hlayout.layout_inv
    obtain ⟨-, gap', hgap', hspans'⟩ := hlayout'.layout_inv
    have hitem (cursor : Cursor) (item : Item) (behind : Cursor)
        (_ : afterLayout cursor.rest = cursor.rest) (h : Takes readItem cursor item behind)
        (hv : ∃ v, item.toValue = .ok v) :
        ∃ text, Covers cursor text behind ∧ item.Spelled text := by
      obtain ⟨v, hv⟩ := hv
      exact covers_of_item h hv
    obtain ⟨text, hcovers, hjoined⟩ := exists_joined (fun _ text item => Item.Spelled item text)
      hitem hitems hfirst (exists_of_mapM_eq_ok hvs)
    obtain ⟨gap'', hgap'', hcovers⟩ := hcovers.gap hgap' hspans'
    refine ⟨_, ?_, .list hgap hgap'' hjoined⟩
    have := hopen.sign_inv.trans (hspans.trans (hcovers.trans hclose.sign_inv))
    simpa using this

theorem spells_of_literal {literal : Literal} (h : Takes readLiteral cursor literal behind)
    {v : Value} (hv : literal.toValue = .ok v) :
  ∃ text, Spans cursor text behind ∧ literal.Spelled text
  := by
  obtain h | ⟨-, h⟩ := h.construct_inv.or_inv
  · obtain ⟨regex, rfl, hread⟩ := h.map_inv
    obtain ⟨found, hfound, rfl, rfl⟩ := hread.construct_inv.lexeme_inv
    obtain ⟨body, flags, rest, hbody, hflags, rfl, hcs⟩ := exists_of_regex hfound
    refine ⟨_, spans_advance ?_, .regex hbody hflags⟩
    rw [hcs, RegexLiteral.text]
    simp
  obtain h | ⟨-, h⟩ := h.or_inv
  · obtain ⟨s, rfl, hscalar⟩ := h.map_inv
    obtain ⟨raw, rfl, hread⟩ := hscalar.map_inv
    obtain ⟨quote, hquote, hraw, hspans⟩ := spells_of_quoted hread
    exact ⟨_, hspans, .scalar (.quoted hquote hraw)⟩
  obtain h | ⟨-, h⟩ := h.or_inv
  · obtain ⟨items, rfl, hread⟩ := h.map_inv
    rw [Literal.toValue] at hv
    obtain ⟨vs, hvs, -⟩ := map_eq_ok_iff.mp hv
    exact spells_of_list hread hvs
  obtain h | ⟨hnumber, h⟩ := h.or_inv
  · obtain ⟨s, rfl, hread⟩ := h.map_inv
    obtain ⟨text, hspans, hs⟩ := spells_of_number hread
    exact ⟨text, hspans, .scalar hs⟩
  obtain h | ⟨hboolean, h⟩ := h.or_inv
  · obtain ⟨s, rfl, hread⟩ := h.map_inv
    obtain ⟨text, hspans, hs⟩ := spells_of_boolean hnumber.map_inv hread
    exact ⟨text, hspans, .scalar hs⟩
  · obtain ⟨text, rfl, hread⟩ := h.map_inv
    obtain ⟨hspans, hs⟩ := spells_of_bare hnumber.map_inv hboolean.map_inv hread
    exact ⟨text, hspans, .scalar hs⟩

end Tokens

/-! ### Phrases -/

section Phrases

variable {schema : Schema} {whole : List Char}

/-- Whether what a reader finds where no layout stands is spelled on a level of the grammar, if it
means a tree. -/
def Recognizes (schema : Schema) (whole : List Char) (level : Level) (reader : Reader Phrase) :
    Prop :=
  ∀ cursor phrase behind, afterLayout cursor.rest = cursor.rest →
    Takes reader cursor phrase behind → (∃ q, phrase.toQuery schema whole = .ok q) →
    ∃ text, Covers cursor text behind ∧ Spells level cursor.offset text phrase

theorem exists_value_of_comparison {field op : List Char} {operatorEnd : Nat} {literal : Literal}
    {q : Query}
    (h : (Phrase.comparison field op operatorEnd (some literal)).toQuery schema whole = .ok q) :
  ∃ v, literal.toValue = .ok v
  := by
  rw [Phrase.toQuery, comparisonRule] at h
  split at h
  case isTrue => cases h
  case isFalse =>
    split at h
    case h_1 => cases h
    case h_2 =>
      obtain ⟨v, hv, -⟩ := map_eq_ok_iff.mp h
      exact ⟨v, hv⟩

theorem covers_of_comparison {cursor behind : Cursor} {phrase : Phrase}
    (h : Takes readComparison cursor phrase behind)
    (hphrase : ∃ q, phrase.toQuery schema whole = .ok q) :
  ∃ text, Covers cursor text behind ∧ Spells .primary cursor.offset text phrase
  := by
  obtain ⟨field, afterField, hfield, h⟩ := h.construct_inv.bind_inv
  obtain ⟨_, beforeOp, hlayout, h⟩ := h.bind_inv
  obtain ⟨op, _, hop, h⟩ := h.bind_inv
  obtain ⟨operatorEnd, afterOp, hplace, h⟩ := h.bind_inv
  obtain ⟨_, beforeValue, hlayout', h⟩ := h.bind_inv
  obtain ⟨value, _, hvalue, h⟩ := h.bind_inv
  obtain ⟨rfl, rfl⟩ := h.pure_inv
  obtain ⟨rfl, rfl⟩ := hplace.place_inv
  obtain ⟨hfield, hidentifier, hstops⟩ := spans_of_identifier hfield
  obtain ⟨-, gap, hgap, hspans⟩ := hlayout.layout_inv
  obtain ⟨hop, htoken⟩ := spans_of_operator hop
  obtain ⟨-, gap', hgap', hspans'⟩ := hlayout'.layout_inv
  have hfront : Spans cursor (field ++ (gap ++ op)) afterOp := hfield.trans (hspans.trans hop)
  have hfresh : gap = [] → Stops Char.isAlpha op := by
    rintro rfl
    rw [hspans.rest, List.nil_append, hop.rest] at hstops
    apply hstops.of_append.mono
    intro c hc
    simp [isIdentifierChar, Char.isAlphanum, hc]
  have htail {tail rest : List Char} {value : Option Literal} (htail : ValueSpelled value tail)
      (hrest : afterOp.rest = tail ++ rest) :
      Spells .primary cursor.offset (field ++ (gap ++ (op ++ tail)))
        (.comparison field op afterOp.offset value) := by
    rw [hfront.offset]
    rw [hrest] at htoken
    exact .comparison hidentifier hgap hfresh (htoken.congr Stops.of_append Stops.of_append) htail
  obtain ⟨literal, rfl, hliteral⟩ | ⟨rfl, rfl⟩ := hvalue.optional_inv
  · obtain ⟨q, hq⟩ := hphrase
    obtain ⟨v, hv⟩ := exists_value_of_comparison hq
    obtain ⟨text, hspans'', hspelled⟩ := spells_of_literal hliteral hv
    have hvalue := hspans'.trans hspans''
    refine ⟨_, Covers.of_spans ?_, htail (.some hgap' hspelled) hvalue.rest⟩
    have := hfront.trans hvalue
    simpa using this
  · refine ⟨_, ?_, htail .none rfl⟩
    rw [List.append_nil]
    exact (Covers.of_spans hfront).gap hgap' hspans'

variable {inner : Reader Phrase}

theorem covers_of_group (hinner : Recognizes schema whole (.chain .or) inner)
    {cursor behind : Cursor} {phrase : Phrase} (h : Takes (readGroup inner) cursor phrase behind)
    (hphrase : ∃ q, phrase.toQuery schema whole = .ok q) :
  ∃ text, Covers cursor text behind ∧ Spells .primary cursor.offset text phrase
  := by
  obtain ⟨_, afterOpen, hopen, h⟩ := h.construct_inv.bind_inv
  obtain ⟨_, first, hlayout, h⟩ := h.bind_inv
  obtain ⟨found, afterInner, hfound, h⟩ := h.bind_inv
  obtain ⟨_, beforeClose, hlayout', h⟩ := h.bind_inv
  obtain ⟨_, _, hclose, h⟩ := h.bind_inv
  obtain ⟨rfl, rfl⟩ := h.pure_inv
  obtain ⟨hfirst, gap, hgap, hspans⟩ := hlayout.layout_inv
  obtain ⟨-, gap', hgap', hspans'⟩ := hlayout'.layout_inv
  have hfront : Spans cursor ('(' :: gap) first := hopen.sign_inv.trans hspans
  obtain ⟨inside, rfl, hinside⟩ | ⟨rfl, rfl⟩ := hfound.optional_inv
  · obtain ⟨text, hcovers, hspells⟩ := hinner first inside afterInner hfirst hinside hphrase
    obtain ⟨gap'', hgap'', hcovers⟩ := hcovers.gap hgap' hspans'
    rw [hfront.offset] at hspells
    refine ⟨_, Covers.of_spans ?_, .group hgap hgap'' hspells⟩
    have := hfront.trans (hcovers.trans hclose.sign_inv)
    simpa using this
  · refine ⟨_, Covers.of_spans ?_, .empty (hgap.append hgap')⟩
    have := hfront.trans (hspans'.trans hclose.sign_inv)
    simpa using this

theorem recognizes_primary (hinner : Recognizes schema whole (.chain .or) inner) :
  Recognizes schema whole .primary (readPrimary inner)
  := by
  intro cursor phrase behind _ h hphrase
  obtain h | ⟨-, h⟩ := h.construct_inv.or_inv
  · exact covers_of_group hinner h hphrase
  obtain h | ⟨-, h⟩ := h.or_inv
  · exact covers_of_comparison h hphrase
  · obtain ⟨start, _, hplace, h⟩ := h.construct_inv.bind_inv
    obtain ⟨name, _, hname, h⟩ := h.bind_inv
    obtain ⟨rfl, rfl⟩ := h.pure_inv
    obtain ⟨rfl, rfl⟩ := hplace.place_inv
    obtain ⟨hspans, hidentifier, -⟩ := spans_of_identifier hname
    exact ⟨name, Covers.of_spans hspans, .name hidentifier⟩

theorem recognizes_operand (hprimary : Recognizes schema whole .primary (readPrimary inner)) :
  Recognizes schema whole .operand (readOperand inner)
  := by
  intro cursor phrase behind hcursor h hphrase
  obtain ⟨negation, afterMark, hnegation, h⟩ := h.construct_inv.bind_inv
  obtain ⟨_, first, hlayout, h⟩ := h.bind_inv
  obtain ⟨operand, _, hoperand, h⟩ := h.bind_inv
  obtain ⟨hresult, rfl⟩ := h.pure_inv
  obtain ⟨hfirst, gap, hgap, hspans⟩ := hlayout.layout_inv
  obtain ⟨_, rfl, hmark⟩ | ⟨rfl, rfl⟩ := hnegation.optional_inv
  · rw [Option.isSome_some, if_pos rfl] at hresult
    subst hresult
    obtain ⟨q, hq⟩ := hphrase
    rw [Phrase.toQuery] at hq
    obtain ⟨inside, hinside, -⟩ := map_eq_ok_iff.mp hq
    have hfront : Spans cursor ('!' :: gap) first := hmark.construct_inv.sign_inv.trans hspans
    obtain ⟨text, hcovers, hspells⟩ := hprimary first operand _ hfirst hoperand ⟨inside, hinside⟩
    rw [hfront.offset] at hspells
    exact ⟨_, Covers.trans hfront hcovers, .not hgap hspells⟩
  · rw [Option.isSome_none, if_neg Bool.false_ne_true] at hresult
    subst hresult
    rw [hspans.rest] at hcursor
    obtain rfl := hgap.eq_nil hcursor
    obtain ⟨text, hcovers, hspells⟩ := hprimary first phrase _ hfirst hoperand hphrase
    rw [hspans.offset] at hspells
    exact ⟨text, Covers.trans hspans hcovers, .plain hspells⟩

theorem exists_toQuery_of_mem {condition : Condition} {phrases : List Phrase} {q : Query}
    (h : (chainPhrase condition phrases).toQuery schema whole = .ok q) :
  ∀ phrase ∈ phrases, ∃ q, phrase.toQuery schema whole = .ok q
  := by
  have hall {phrases : List Phrase} {qs : List Query}
      (h : allToQueries schema whole phrases = .ok qs) :
      ∀ phrase ∈ phrases, ∃ q, phrase.toQuery schema whole = .ok q := by
    induction phrases generalizing qs with
    | nil => exact List.forall_mem_nil _
    | cons phrase rest ih =>
      obtain ⟨q, others, hq, hothers, -⟩ := allToQueries_cons_eq_ok_iff.1 h
      exact List.forall_mem_cons.2 ⟨⟨q, hq⟩, ih hothers⟩
  cases condition with
  | and | or =>
    rw [chainPhrase, Phrase.toQuery] at h
    obtain ⟨qs, hqs, -⟩ := map_eq_ok_iff.mp h
    exact hall hqs

/-- Parts that are spelled are a chain that is spelled. -/
theorem spells_of_joined {condition : Condition} {place : Nat} {text : List Char}
    {phrases : List Phrase}
    (h : Joined condition.token (Spells (operandLevel condition)) place text phrases) :
  Spells (.chain condition) place text (chainPhrase condition phrases)
  := by
  induction h with
  | only h => exact .only h
  | cons h hgap hgap' _ ih => exact .joined h hgap hgap' ih

theorem recognizes_chain {condition : Condition} {kind : Construct} {operand : Reader Phrase}
    (hoperand : Recognizes schema whole (operandLevel condition) operand) :
  Recognizes schema whole (.chain condition)
    (construct kind (chainPhrase condition <$> separated condition.token operand))
  := by
  intro cursor phrase behind hcursor h hphrase
  obtain ⟨phrases, rfl, hphrases⟩ := h.construct_inv.map_inv
  obtain ⟨q, hq⟩ := hphrase
  obtain ⟨text, hcovers, hjoined⟩ := exists_joined (Spells (operandLevel condition)) hoperand
    hphrases hcursor (exists_toQuery_of_mem hq)
  exact ⟨text, hcovers, spells_of_joined hjoined⟩

/-- What is read as a phrase is spelled. -/
theorem recognizes_readPhrase (depth : Nat) :
  Recognizes schema whole (.chain .or) (readPhrase depth)
  := by
  have hanyOf {inner : Reader Phrase} (hinner : Recognizes schema whole (.chain .or) inner) :
      Recognizes schema whole (.chain .or) (readAnyOf inner) := by
    have hallOf : Recognizes schema whole (.chain .and) (readAllOf inner) :=
      recognizes_chain (recognizes_operand (recognizes_primary hinner))
    exact recognizes_chain hallOf
  induction depth with
  | zero =>
    apply hanyOf
    rintro cursor phrase behind - ⟨trace, after, ⟨⟩⟩
  | succ depth ih => exact hanyOf ih

/-! ### Whole texts -/

/-- Whether a text spells a sentence: a phrase or a lone quoted string with layout around it, or
nothing. -/
inductive Sentence.Spelled : Sentence → List Char → Prop where
  | phrase {gap text gap' : List Char} {phrase : Phrase} (hgap : IsGap gap) (hgap' : IsGap gap')
      (h : Spells (.chain .or) (byteCount gap) text phrase) :
      Spelled (.phrase phrase) (gap ++ (text ++ gap'))
  | freeText {gap gap' raw : List Char} {quote : Char} {start : Nat} (hgap : IsGap gap)
      (hgap' : IsGap gap') (hquote : IsQuote quote) (hraw : LiteralBody (· = quote) raw) :
      Spelled (.freeText raw start) (gap ++ (quote :: raw ++ [quote] ++ gap'))
  | blank {gap : List Char} (hgap : IsGap gap) : Spelled .blank gap

theorem covers_of_freeText {cursor behind : Cursor} {found : Sentence}
    (h : Takes readFreeText cursor found behind) :
  ∃ quote raw start, found = .freeText raw start ∧ IsQuote quote ∧ LiteralBody (· = quote) raw
    ∧ Covers cursor (quote :: raw ++ [quote]) behind
  := by
  obtain ⟨start, _, hplace, h⟩ := h.construct_inv.bind_inv
  obtain ⟨raw, afterQuoted, hquoted, h⟩ := h.bind_inv
  obtain ⟨_, last, hlayout, h⟩ := h.bind_inv
  obtain ⟨_, _, hend, h⟩ := h.bind_inv
  obtain ⟨rfl, rfl⟩ := h.pure_inv
  obtain ⟨-, rfl⟩ := hend.beforeEnd_inv
  obtain ⟨-, rfl⟩ := hplace.place_inv
  obtain ⟨quote, hquote, hraw, hspans⟩ := spells_of_quoted hquoted
  obtain ⟨-, gap, hgap, hspans'⟩ := hlayout.layout_inv
  exact ⟨quote, raw, start, rfl, hquote, hraw, (Covers.of_spans hspans).gap hgap hspans'⟩

/-- A text that is a sentence, which means a tree, spells it. -/
theorem spelled_of_sentence {cs : List Char} {found : Sentence} (h : sentence cs = .ok found)
    {q : Query} (hq : found.toQuery schema whole = .ok q) :
  found.Spelled cs
  := by
  rw [sentence] at h
  split at h
  case h_2 => cases h
  case h_1 found' behind after hread =>
    cases h
    have h : Takes readQuery ⟨0, cs⟩ found behind := ⟨_, _, hread⟩
    obtain ⟨_, first, hlayout, h⟩ := h.construct_inv.bind_inv
    obtain ⟨content, afterContent, hcontent, h⟩ := h.bind_inv
    obtain ⟨_, last, hlayout', h⟩ := h.bind_inv
    obtain ⟨_, _, hend, h⟩ := h.bind_inv
    obtain ⟨rfl, rfl⟩ := h.pure_inv
    obtain ⟨hfirst, gap, hgap, hspans⟩ := hlayout.layout_inv
    obtain ⟨-, gap', hgap', hspans'⟩ := hlayout'.layout_inv
    have hcs : cs = gap ++ first.rest := hspans.rest
    have hcovered {text : List Char} (hcovers : Covers first text afterContent) :
        ∃ gap', IsGap gap' ∧ first.rest = text ++ gap' := by
      obtain ⟨gap'', hgap'', hcovers⟩ := hcovers.gap hgap' hspans'
      exact ⟨gap'', hgap'', by rw [hcovers.rest, hend.atEnd_inv, List.append_nil]⟩
    obtain ⟨found, rfl, hfound⟩ | ⟨rfl, hempty⟩ := hcontent.optional_inv
    · obtain hfree | ⟨-, trace, after, hphrase⟩ := hfound.or_inv
      · obtain ⟨quote, raw, start, rfl, hquote, hraw, hcovers⟩ := covers_of_freeText hfree
        obtain ⟨gap'', hgap'', hrest⟩ := hcovered hcovers
        rw [hcs, hrest]
        exact .freeText hgap hgap'' hquote hraw
      · have hphrase : Takes (Sentence.phrase <$> readPhrase first.rest.length) first found
          afterContent := ⟨trace, after, hphrase⟩
        obtain ⟨phrase, rfl, htakes⟩ := hphrase.map_inv
        obtain ⟨text, hcovers, hspells⟩ :=
          recognizes_readPhrase _ first phrase afterContent hfirst htakes ⟨q, hq⟩
        obtain ⟨gap'', hgap'', hrest⟩ := hcovered hcovers
        rw [hspans.offset, Nat.zero_add] at hspells
        rw [hcs, hrest]
        exact .phrase hgap hgap'' hspells
    · rw [hempty] at hcovered
      obtain ⟨gap'', hgap'', hrest⟩ := hcovered (Covers.of_spans (Spans.refl first))
      rw [hcs, hrest]
      exact .blank (hgap.append hgap'')

end Phrases

end Sift.Syntax
