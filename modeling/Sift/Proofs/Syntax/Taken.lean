import Sift.Proofs.Syntax.Reader

/-!
# What readers take

`Takes reader cursor a behind` says that a reader that starts at `cursor` finds `a` and ends at
`behind`. There is an inversion for each way of making readers. What is taken is a part of the text
(`Spans`), perhaps with layout behind it (`Covers`). `Joined` are parts with a sign between each
two, and `exists_joined` says that this is what `Reader.separated` takes.
-/

namespace Sift.Syntax

/-! ### Gaps -/

/-- Whether some characters are nothing but layout. -/
def IsGap (gap : List Char) : Prop :=
  ∀ c ∈ gap, isLayout c = true

namespace IsGap

variable {gap other : List Char}

theorem nil :
  IsGap []
  := List.forall_mem_nil _

theorem append (h : IsGap gap) (hother : IsGap other) :
  IsGap (gap ++ other)
  := List.forall_mem_append.2 ⟨h, hother⟩

theorem afterLayout_append (h : IsGap gap) (rest : List Char) :
  afterLayout (gap ++ rest) = afterLayout rest
  := List.dropWhile_append_of_pos h

theorem afterLayout_eq (h : IsGap gap) :
  afterLayout gap = []
  := List.dropWhile_eq_nil_iff.2 h

/-- Where no layout stands there is no gap. -/
theorem eq_nil (h : IsGap gap) {rest : List Char}
    (hskip : afterLayout (gap ++ rest) = gap ++ rest) :
  gap = []
  := by
  rw [h.afterLayout_append] at hskip
  have hlength := length_afterLayout_le rest
  rw [hskip, List.length_append] at hlength
  rw [← List.length_eq_zero_iff]
  omega

end IsGap

theorem isGap_takeWhile (cs : List Char) :
  IsGap (cs.takeWhile isLayout)
  := fun _ => List.mem_takeWhile_imp

theorem afterLayout_cons_of_not_isLayout {c : Char} (h : isLayout c = false) (rest : List Char) :
  afterLayout (c :: rest) = c :: rest
  := List.dropWhile_cons_of_neg (by simp [h])

/-! ### Parts of a text -/

theorem byteCount_nil :
  byteCount [] = 0
  := rfl

theorem byteCount_cons (c : Char) (cs : List Char) :
  byteCount (c :: cs) = c.utf8Size + byteCount cs
  := rfl

theorem byteCount_append (cs ds : List Char) :
  byteCount (cs ++ ds) = byteCount cs + byteCount ds
  := by
  induction cs with
  | nil => simp [byteCount]
  | cons c cs ih =>
    change c.utf8Size + byteCount (cs ++ ds) = c.utf8Size + byteCount cs + byteCount ds
    rw [ih, Nat.add_assoc]

/-- Whether `text` is what stands between two places. -/
structure Spans (cursor : Cursor) (text : List Char) (behind : Cursor) : Prop where
  rest : cursor.rest = text ++ behind.rest
  offset : behind.offset = cursor.offset + byteCount text

namespace Spans

variable {cursor between behind : Cursor} {text text' : List Char}

theorem refl (cursor : Cursor) :
  Spans cursor [] cursor
  := ⟨rfl, rfl⟩

theorem trans (h : Spans cursor text between) (h' : Spans between text' behind) :
  Spans cursor (text ++ text') behind
  := by
  constructor
  · rw [h.rest, h'.rest, List.append_assoc]
  · rw [h'.offset, h.offset, byteCount_append, Nat.add_assoc]

end Spans

/-- Whether `text` is what stands between two places, up to layout behind it. -/
def Covers (cursor : Cursor) (text : List Char) (behind : Cursor) : Prop :=
  ∃ gap, IsGap gap ∧ Spans cursor (text ++ gap) behind

namespace Covers

variable {cursor between behind : Cursor} {text : List Char}

theorem of_spans (h : Spans cursor text behind) :
  Covers cursor text behind
  := ⟨[], IsGap.nil, by rwa [List.append_nil]⟩

theorem gap {gap : List Char} (h : Covers cursor text between) (hgap : IsGap gap)
    (hspans : Spans between gap behind) :
  Covers cursor text behind
  := by
  obtain ⟨before, hbefore, h⟩ := h
  use before ++ gap
  refine ⟨hbefore.append hgap, ?_⟩
  rw [← List.append_assoc]
  exact h.trans hspans

theorem trans {front : List Char} (h : Spans cursor front between)
    (h' : Covers between text behind) :
  Covers cursor (front ++ text) behind
  := by
  obtain ⟨gap, hgap, h'⟩ := h'
  use gap
  refine ⟨hgap, ?_⟩
  rw [List.append_assoc]
  exact h.trans h'

end Covers

namespace Reader

variable {α β : Type}

/-! ### Taking -/

/-- Whether a reader can find `a` between two places. -/
def Takes (reader : Reader α) (cursor : Cursor) (a : α) (behind : Cursor) : Prop :=
  ∃ trace after, reader cursor trace = (some (a, behind), after)

/-- Whether a reader can find nothing at a place. -/
def Misses (reader : Reader α) (cursor : Cursor) : Prop :=
  ∃ trace after, reader cursor trace = (none, after)

namespace Takes

variable {x y : Reader α} {f : α → Reader β} {cursor behind : Cursor} {a : α} {b : β}

theorem pure_inv {made : α} (h : Takes (Pure.pure made) cursor a behind) :
  a = made ∧ behind = cursor
  := by
  obtain ⟨_, _, ⟨⟩⟩ := h
  exact ⟨rfl, rfl⟩

theorem bind_inv (h : Takes (x >>= f) cursor b behind) :
  ∃ a between, Takes x cursor a between ∧ Takes (f a) between b behind
  := by
  obtain ⟨trace, after, h⟩ := h
  change andThen x f _ _ = _ at h
  simp only [andThen] at h
  split at h
  case h_1 a between trace' hx => exact ⟨a, between, ⟨trace, trace', hx⟩, ⟨trace', after, h⟩⟩
  case h_2 => cases h

theorem map_inv {g : α → β} (h : Takes (g <$> x) cursor b behind) :
  ∃ a, b = g a ∧ Takes x cursor a behind
  := by
  obtain ⟨a, between, hx, h⟩ := bind_inv h
  obtain ⟨rfl, rfl⟩ := h.pure_inv
  exact ⟨a, rfl, hx⟩

theorem or_inv (h : Takes (x.or y) cursor a behind) :
  Takes x cursor a behind ∨ Misses x cursor ∧ Takes y cursor a behind
  := by
  obtain ⟨trace, after, h⟩ := h
  simp only [Reader.or] at h
  split at h
  case h_1 found trace' hx =>
    cases h
    exact .inl ⟨trace, _, hx⟩
  case h_2 trace' hx => exact .inr ⟨⟨trace, trace', hx⟩, trace', after, h⟩

theorem construct_inv {kind : Construct} (h : Takes (construct kind x) cursor a behind) :
  Takes x cursor a behind
  := by
  obtain ⟨trace, after, h⟩ := h
  simp only [construct] at h
  split at h
  case h_1 found trace' hx =>
    cases h
    exact ⟨trace, _, hx⟩
  case h_2 => cases h

theorem optional_inv {found : Option α} (h : Takes (optional x) cursor found behind) :
  (∃ a, found = some a ∧ Takes x cursor a behind) ∨ found = none ∧ behind = cursor
  := by
  obtain h | ⟨-, h⟩ := h.or_inv
  · exact .inl h.map_inv
  · exact .inr h.pure_inv

theorem lexeme_inv {find : List Char → Option (Lexeme α)}
    (h : Takes (lexeme find) cursor a behind) :
  ∃ found, find cursor.rest = some found ∧ a = found.value
    ∧ behind = cursor.advance found.text found.rest
  := by
  obtain ⟨trace, after, h⟩ := h
  simp only [lexeme] at h
  split at h
  case h_1 found hfind =>
    cases h
    exact ⟨found, hfind, rfl, rfl⟩
  case h_2 => cases h

theorem place_inv {offset : Nat} (h : Takes place cursor offset behind) :
  offset = cursor.offset ∧ behind = cursor
  := by
  obtain ⟨_, _, ⟨⟩⟩ := h
  exact ⟨rfl, rfl⟩

theorem layout_inv {u : Unit} (h : Takes layout cursor u behind) :
  afterLayout behind.rest = behind.rest ∧ ∃ gap, IsGap gap ∧ Spans cursor gap behind
  := by
  obtain ⟨_, _, ⟨⟩⟩ := h
  refine ⟨afterLayout_afterLayout _, _, isGap_takeWhile cursor.rest, ?_⟩
  exact ⟨List.takeWhile_append_dropWhile.symm, rfl⟩

theorem sign_inv {c : Char} {u : Unit} (h : Takes (sign c) cursor u behind) :
  Spans cursor [c] behind
  := by
  obtain ⟨found, hfind, -, rfl⟩ := h.lexeme_inv
  split at hfind
  case h_1 d rest hrest =>
    split at hfind
    case isTrue hd =>
      cases hfind
      exact ⟨by rw [hrest, hd]; rfl, by rw [hd]; rfl⟩
    case isFalse => cases hfind
  case h_2 => cases hfind

theorem before_inv {signs : List Char} {u : Unit} (h : Takes (before signs) cursor u behind) :
  behind = cursor
  := by
  obtain ⟨trace, after, h⟩ := h
  simp only [before, Prod.mk.injEq] at h
  obtain ⟨h, -⟩ := h
  split at h
  case isTrue =>
    cases h
    rfl
  case isFalse => cases h

theorem atEnd_inv {u : Unit} (h : Takes atEnd cursor u behind) :
  cursor.rest = []
  := by
  obtain ⟨trace, after, h⟩ := h.construct_inv
  simp only [Prod.mk.injEq] at h
  obtain ⟨h, -⟩ := h
  split at h
  case isTrue hrest => exact List.isEmpty_iff.1 hrest
  case isFalse => cases h

theorem beforeEnd_inv {u : Unit} (h : Takes beforeEnd cursor u behind) :
  cursor.rest = [] ∧ behind = cursor
  := by
  obtain ⟨trace, after, h⟩ := h
  simp only [beforeEnd] at h
  split at h
  case h_1 found trace' hend =>
    cases h
    exact ⟨atEnd_inv ⟨trace, _, hend⟩, rfl⟩
  case h_2 => cases h

end Takes

namespace Misses

variable {x : Reader α} {cursor : Cursor}

theorem map_inv {g : α → β} (h : Misses (g <$> x) cursor) :
  Misses x cursor
  := by
  obtain ⟨trace, after, h⟩ := h
  change andThen x _ _ _ = _ at h
  simp only [andThen] at h
  split at h
  case h_1 => cases h
  case h_2 trace' hx => exact ⟨trace, trace', hx⟩

theorem or_inv {y : Reader α} (h : Misses (x.or y) cursor) :
  Misses x cursor ∧ Misses y cursor
  := by
  obtain ⟨trace, after, h⟩ := h
  simp only [Reader.or] at h
  split at h
  case h_1 => cases h
  case h_2 trace' hx => exact ⟨⟨trace, trace', hx⟩, trace', after, h⟩

theorem construct_inv {kind : Construct} (h : Misses (construct kind x) cursor) :
  Misses x cursor
  := by
  obtain ⟨trace, after, h⟩ := h
  simp only [construct] at h
  split at h
  case h_1 => cases h
  case h_2 trace' hx => exact ⟨trace, trace', hx⟩

theorem lexeme_inv {find : List Char → Option (Lexeme α)} (h : Misses (lexeme find) cursor) :
  find cursor.rest = none
  := by
  obtain ⟨trace, after, h⟩ := h
  simp only [lexeme] at h
  split at h
  case h_1 => cases h
  case h_2 hfind => exact hfind

end Misses

/-! ### Parts with signs between them -/

/-- Whether a text consists of parts with a sign between each two, where `IsPart` says of a place and
a text which part stands there. -/
inductive Joined (sign : Char) (IsPart : Nat → List Char → α → Prop) :
    Nat → List Char → List α → Prop where
  | only {place : Nat} {text : List Char} {a : α} (h : IsPart place text a) :
      Joined sign IsPart place text [a]
  | cons {place : Nat} {text gap gap' texts : List Char} {a : α} {as : List α}
      (h : IsPart place text a) (hgap : IsGap gap) (hgap' : IsGap gap')
      (hothers : Joined sign IsPart (place + byteCount (text ++ (gap ++ sign :: gap'))) texts as) :
      Joined sign IsPart place (text ++ (gap ++ sign :: (gap' ++ texts))) (a :: as)

/-- Joined parts begin as the first one does. -/
theorem Joined.head {sign : Char} {IsPart : Nat → List Char → α → Prop} {test : Char → Bool}
    (h : ∀ place text a, IsPart place text a → text.head?.any test = true) {place : Nat}
    {text : List Char} {as : List α} (hjoined : Joined sign IsPart place text as) :
  text.head?.any test = true
  := by
  cases hjoined with
  | only ha => exact h _ _ _ ha
  | @cons _ text _ _ _ a _ ha =>
    have := h _ _ _ ha
    cases text with
    | nil => cases this
    | cons c text => exact this

section Separated

variable {c : Char} {operand : Reader α} {good : α → Prop} {IsPart : Nat → List Char → α → Prop}

/-- What is taken behind a part goes on from it. -/
theorem joined_of_operands
    (hoperand : ∀ cursor a behind, afterLayout cursor.rest = cursor.rest →
      Takes operand cursor a behind → good a →
      ∃ text, Covers cursor text behind ∧ IsPart cursor.offset text a)
    {count : Nat} {cursor behind : Cursor} {as : List α}
    (h : Takes (operands c operand count) cursor as behind) (has : ∀ a ∈ as, good a)
    {start : Cursor} {text : List Char} {a : α} (ha : IsPart start.offset text a)
    (hcursor : Covers start text cursor) :
  ∃ texts, Covers start texts behind ∧ Joined c IsPart start.offset texts (a :: as)
  := by
  induction count generalizing cursor as start text a with
  | zero =>
    obtain ⟨rfl, rfl⟩ := Takes.pure_inv h
    exact ⟨text, hcursor, .only ha⟩
  | succ count ih =>
    obtain h | ⟨-, h⟩ := h.or_inv
    · obtain ⟨_, afterGap, hlayout, h⟩ := h.bind_inv
      obtain ⟨_, afterSign, hsign, h⟩ := h.bind_inv
      obtain ⟨_, next, hlayout', h⟩ := h.bind_inv
      obtain ⟨second, afterSecond, hsecond, h⟩ := h.bind_inv
      obtain ⟨others, _, hothers, h⟩ := h.bind_inv
      obtain ⟨rfl, rfl⟩ := h.pure_inv
      rw [List.forall_mem_cons] at has
      obtain ⟨-, gap, hgap, hspans⟩ := hlayout.layout_inv
      obtain ⟨hnext, gap', hgap', hspans'⟩ := hlayout'.layout_inv
      obtain ⟨gap₀, hgap₀, hcursor⟩ := hcursor
      obtain ⟨text', hcovers, hpart⟩ := hoperand next second afterSecond hnext hsecond has.1
      obtain ⟨texts, hcovers, hjoined⟩ := ih hothers has.2 hpart hcovers
      have hfront : Spans start (text ++ (gap₀ ++ gap ++ c :: gap')) next := by
        have := hcursor.trans (hspans.trans (hsign.sign_inv.trans hspans'))
        simpa using this
      rw [hfront.offset] at hjoined
      use text ++ (gap₀ ++ gap ++ c :: (gap' ++ texts))
      refine ⟨?_, .cons ha (hgap₀.append hgap) hgap' hjoined⟩
      have := Covers.trans hfront hcovers
      simpa using this
    · obtain ⟨rfl, rfl⟩ := h.pure_inv
      exact ⟨text, hcursor, .only ha⟩

/-- What is taken as parts with signs between them. -/
theorem exists_joined (IsPart : Nat → List Char → α → Prop)
    (hoperand : ∀ cursor a behind, afterLayout cursor.rest = cursor.rest →
      Takes operand cursor a behind → good a →
      ∃ text, Covers cursor text behind ∧ IsPart cursor.offset text a)
    {cursor behind : Cursor} {as : List α} (h : Takes (separated c operand) cursor as behind)
    (hcursor : afterLayout cursor.rest = cursor.rest) (has : ∀ a ∈ as, good a) :
  ∃ text, Covers cursor text behind ∧ Joined c IsPart cursor.offset text as
  := by
  obtain ⟨first, between, hfirst, h⟩ := h.bind_inv
  obtain ⟨others, _, hothers, h⟩ := h.bind_inv
  obtain ⟨rfl, rfl⟩ := h.pure_inv
  rw [List.forall_mem_cons] at has
  obtain ⟨text, hcovers, hpart⟩ := hoperand cursor first between hcursor hfirst has.1
  obtain ⟨trace, after, hothers⟩ := hothers
  exact joined_of_operands hoperand ⟨trace, after, hothers⟩ has.2 hpart hcovers

end Separated

end Reader

end Sift.Syntax
