import Sift.Proofs.Query.Unchecked

/-!
# Texts that spell queries

A text is parsed to a tree if and only if it is blank, or spells a sentence that means the tree in
it: `parseChars_of_spells` and `parseChars_of_quoted` make trees out of spellings, and
`parseChars_inv` tells what a text that is parsed spells. An identifier that is all there is of a
text is what is left of the text without the white space around it (`trim_identifier`).
-/

namespace Sift

/-! ### White space around a text -/

namespace Text

theorem mem_dropWhile_isBlank {c : Char} (hc : isBlank c = false) {cs : List Char} (h : c ∈ cs) :
  c ∈ cs.dropWhile isBlank
  := by
  rw [← List.takeWhile_append_dropWhile (p := isBlank) (l := cs), List.mem_append] at h
  obtain h | h := h
  · rw [List.mem_takeWhile_imp h] at hc
    cases hc
  · exact h

/-- What is no white space is kept. -/
theorem mem_trim {c : Char} (hc : isBlank c = false) {cs : List Char} (h : c ∈ cs) :
  c ∈ trim cs
  := by
  rw [trim, List.mem_reverse]
  apply mem_dropWhile_isBlank hc
  rw [List.mem_reverse]
  exact mem_dropWhile_isBlank hc h

theorem isEmpty_trim_iff {cs : List Char} :
  (trim cs).isEmpty = true ↔ ∀ c ∈ cs, isBlank c = true
  := by
  rw [List.isEmpty_iff]
  constructor
  · intro hnil c hc
    by_contra hblank
    have := mem_trim (by simpa using hblank) hc
    rw [hnil] at this
    cases this
  · intro h
    have hfront : cs.dropWhile isBlank = [] := List.dropWhile_eq_nil_iff.2 h
    rw [trim, hfront]
    rfl

theorem isBlank_of_isLayout {c : Char} (h : Syntax.isLayout c = true) :
  isBlank c = true
  := by
  obtain rfl | rfl | rfl | rfl := Syntax.isLayout_cases h <;> rfl

/-- A text without white space at its ends is what is left when that around it is cut off. -/
theorem trim_padded {gap text gap' : List Char} (hgap : ∀ c ∈ gap, isBlank c = true)
    (hgap' : ∀ c ∈ gap', isBlank c = true) (hhead : ∀ c ∈ text.head?, isBlank c = false)
    (hlast : ∀ c ∈ text.getLast?, isBlank c = false) (hne : text ≠ []) :
  trim (gap ++ (text ++ gap')) = text
  := by
  have hfront : (text ++ gap').dropWhile isBlank = text ++ gap' := by
    cases text with
    | nil => exact absurd rfl hne
    | cons c text => exact List.dropWhile_cons_of_neg (by simp [hhead c rfl])
  have hback : text.reverse.dropWhile isBlank = text.reverse := by
    cases hrev : text.reverse with
    | nil => rfl
    | cons c rest =>
      have hc : c ∈ text.getLast? := by
        rw [← List.head?_reverse, hrev]
        rfl
      exact List.dropWhile_cons_of_neg (by simp [hlast c hc])
  rw [trim, List.dropWhile_append_of_pos hgap, hfront, List.reverse_append,
    List.dropWhile_append_of_pos (by simpa using hgap'), hback, List.reverse_reverse]

end Text

namespace Syntax

theorem toNat_of_isIdentifierChar {c : Char} (h : isIdentifierChar c = true) :
  46 ≤ c.toNat ∧ c.toNat ≤ 122
  := by
  simp only [isIdentifierChar, Char.isAlphanum, Bool.or_eq_true, decide_eq_true_eq] at h
  obtain ((h | h) | rfl) | rfl := h
  · have := toNat_of_isAlpha h
    omega
  · simp only [Char.isDigit, Bool.and_eq_true, decide_eq_true_eq, ge_iff_le,
      UInt32.le_iff_toNat_le] at h
    change 48 ≤ c.toNat ∧ c.toNat ≤ 57 at h
    omega
  · decide
  · decide

theorem not_isBlank_of_isIdentifierChar {c : Char} (h : isIdentifierChar c = true) :
  Text.isBlank c = false
  := by
  by_contra hblank
  have hblank : Text.isBlank c = true := by simpa using hblank
  have hbounds := toNat_of_isIdentifierChar h
  rw [Text.isBlank, Text.Ranges.has_iff] at hblank
  obtain ⟨range, hrange, hlow, hhigh⟩ := hblank
  simp only [Text.blanks, List.mem_cons, List.not_mem_nil, or_false] at hrange
  obtain rfl | rfl | rfl | rfl | rfl | rfl | rfl | rfl | rfl | rfl := hrange <;> omega

/-! ### Identifiers in a text -/

theorem names_chainPhrase (condition : Condition) (phrases : List Phrase) :
  (chainPhrase condition phrases).names = phrases.flatMap Phrase.names
  := by
  have hall : namesOfAll phrases = phrases.flatMap Phrase.names := by
    induction phrases with
    | nil => rfl
    | cons _ _ ih => rw [namesOfAll, ih, List.flatMap_cons]
  rw [← hall]
  cases condition <;> rfl

section Names

variable {level : Level} {place : Nat} {text gap gap' : List Char} {phrase : Phrase}

theorem Spells.isIdentifier_of_mem (h : Spells level place text phrase) :
  ∀ name ∈ phrase.names, isIdentifier name = true
  := by
  induction h with
  | name htext => exact List.forall_mem_singleton.2 htext
  | comparison | empty => exact List.forall_mem_nil _
  | group _ _ _ ih | plain _ ih | not _ _ ih => exact ih
  | only _ ih =>
    rw [names_chainPhrase, List.flatMap_singleton]
    exact ih
  | joined _ _ _ _ ih ihs =>
    rw [names_chainPhrase] at ihs ⊢
    rw [List.flatMap_cons, List.forall_mem_append]
    exact ⟨ih, ihs⟩

/-- An identifier is all there is of a phrase, or the phrase has a sign that is part of no
identifier. -/
theorem Spells.lone_or_sign (h : Spells level place text phrase) :
  ∀ name ∈ phrase.names, text = name ∨ ∃ c ∈ text, c ∈ ['(', '!', '&', '|']
  := by
  induction h with
  | name htext => exact List.forall_mem_singleton.2 (.inl rfl)
  | comparison | empty => exact List.forall_mem_nil _
  | group | not => exact fun _ _ => .inr ⟨_, List.mem_cons_self, by decide⟩
  | plain _ ih => exact ih
  | only _ ih =>
    rw [names_chainPhrase, List.flatMap_singleton]
    exact ih
  | @joined condition =>
    have hsign : condition.token ∈ ['(', '!', '&', '|'] := by
      cases condition <;> decide
    exact fun _ _ => .inr ⟨condition.token, by simp, hsign⟩

theorem trim_identifier (hgap : IsGap gap) (hgap' : IsGap gap')
    (hname : isIdentifier text = true) :
  Text.trim (gap ++ (text ++ gap')) = text
  := by
  have hblank : ∀ c ∈ text, Text.isBlank c = false :=
    fun c hc => not_isBlank_of_isIdentifierChar (isIdentifierChar_of_mem hname c hc)
  apply Text.trim_padded
  · exact fun c hc => Text.isBlank_of_isLayout (hgap c hc)
  · exact fun c hc => Text.isBlank_of_isLayout (hgap' c hc)
  · exact fun c hc => hblank c (List.mem_of_mem_head? hc)
  · exact fun c hc => hblank c (List.mem_of_mem_getLast? hc)
  · rintro rfl
    cases hname

/-- An identifier of a phrase that is the whole text is all there is of the phrase. -/
theorem Spells.eq_of_whole (h : Spells level place text phrase) {name : List Char}
    (hname : name ∈ phrase.names) (hwhole : name = Text.trim (gap ++ (text ++ gap'))) :
  text = name
  := by
  obtain htext | ⟨c, hc, hsign⟩ := h.lone_or_sign name hname
  · exact htext
  · have hblank : Text.isBlank c = false ∧ isIdentifierChar c = false := by
      simp only [List.mem_cons, List.not_mem_nil, or_false] at hsign
      obtain rfl | rfl | rfl | rfl := hsign <;> decide
    have hmem : c ∈ name := by
      rw [hwhole]
      exact Text.mem_trim hblank.1 (by simp [hc])
    have := isIdentifierChar_of_mem (h.isIdentifier_of_mem name hname) c hmem
    rw [hblank.2] at this
    cases this

end Names

end Syntax

namespace Query

open Syntax

variable {schema : Schema} {q : Query}

/-! ### Parsing what is spelled -/

/-- A text that spells a phrase, which means a tree in it, is parsed to the tree. -/
theorem parseChars_of_spells {place : Nat} {gap text gap' : List Char} {phrase : Phrase}
    (hgap : IsGap gap) (hgap' : IsGap gap') (h : Spells (.chain .or) place text phrase)
    (hq : phrase.toQuery schema (Text.trim (gap ++ (text ++ gap'))) = .ok q) :
  parseChars schema (gap ++ (text ++ gap')) = .ok q
  := by
  have hblank : ¬(Text.trim (gap ++ (text ++ gap'))).isEmpty = true := by
    rw [Text.isEmpty_trim_iff]
    intro hall
    have hhead := h.head
    cases text with
    | nil => cases hhead
    | cons c text =>
      have := not_isBlank_of_isOperandStart (c := c) (by simpa using hhead)
      rw [hall c (by simp)] at this
      cases this
  obtain ⟨found, hfound, hstripped⟩ := sentence_of_spells h hgap hgap'
  rw [parseChars_eq_ok_iff, if_neg hblank, parseDelimited_eq_ok_iff]
  refine ⟨_, hfound, ?_⟩
  rw [Sentence.toQuery, ← Phrase.toQuery_stripped, hstripped, Phrase.toQuery_stripped]
  exact hq

/-- A text that is a quoted string is parsed to what the string is a shorthand of. -/
theorem parseChars_of_quoted {gap gap' raw : List Char} {quote : Char} {start : Nat}
    (hgap : IsGap gap) (hgap' : IsGap gap') (hquote : IsQuote quote)
    (hraw : LiteralBody (· = quote) raw) (hq : shorthand schema (unescape raw) start = .ok q) :
  parseChars schema (gap ++ (quote :: raw ++ [quote] ++ gap')) = .ok q
  := by
  have hblank : ¬(Text.trim (gap ++ (quote :: raw ++ [quote] ++ gap'))).isEmpty = true := by
    rw [Text.isEmpty_trim_iff]
    intro hall
    have := hall quote (by simp)
    obtain rfl | rfl := hquote <;> cases this
  obtain ⟨found, hfound⟩ := sentence_of_quoted hquote hraw hgap hgap'
  rw [parseChars_eq_ok_iff, if_neg hblank, parseDelimited_eq_ok_iff]
  exact ⟨_, hfound, shorthand_eq_ok_iff.1 hq⟩

/-- What a text that is parsed is: blank, or a spelling of a sentence that means the tree. -/
theorem parseChars_inv {cs : List Char} (h : parseChars schema cs = .ok q) :
  (∀ c ∈ cs, Text.isBlank c = true) ∧ q = everything
    ∨ ∃ found : Sentence, sentence cs = .ok found ∧ found.Spelled cs
      ∧ found.toQuery schema (Text.trim cs) = .ok q
  := by
  rw [parseChars_eq_ok_iff] at h
  split at h
  case isTrue hblank => exact .inl ⟨Text.isEmpty_trim_iff.1 hblank, h⟩
  case isFalse =>
    obtain ⟨found, hfound, hq⟩ := parseDelimited_eq_ok_iff.1 h
    exact .inr ⟨found, hfound, spelled_of_sentence hfound hq, hq⟩

end Query

end Sift
