import Sift.Proofs.Syntax.Taken
import Sift.Proofs.Syntax.Delimiter

/-!
# Parentheses outside literals

`HasParens` says which parentheses stand outside the literals of a text, all of which are closed, and
`Balanced` when such parentheses are. A closing one has its partner before it (`Opened`) and an
opening one behind it (`Closed`). `FirstUnmatched` is the first closing parenthesis without a
partner, or else the leftmost opening one that is never closed, and `checkDelimiters` finds just
that (`checkDelimiters_eq_unmatched_iff`).
-/

namespace Sift.Syntax

/-- A parenthesis and the byte at which it stands. -/
structure Paren where
  opens : Bool
  place : Nat
deriving DecidableEq

/-- Whether a character would end a literal that is opened by `quote`: only the same sign does, but
a regex must not go on behind its line either. -/
def endsLiteral (quote c : Char) : Bool :=
  c = quote || (quote = '/' && c = '\n')

/-- Whether some parentheses are those outside the literals of a text that begins at a place, where
every literal is closed. -/
inductive HasParens : Nat → List Char → List Paren → Prop where
  | nil {place : Nat} : HasParens place [] []
  | plain {place : Nat} {c : Char} {rest : List Char} {parens : List Paren}
      (hc : isPlain c = true) (h : HasParens (place + c.utf8Size) rest parens) :
      HasParens place (c :: rest) parens
  | opening {place : Nat} {rest : List Char} {parens : List Paren}
      (h : HasParens (place + 1) rest parens) :
      HasParens place ('(' :: rest) (⟨true, place⟩ :: parens)
  | closing {place : Nat} {rest : List Char} {parens : List Paren}
      (h : HasParens (place + 1) rest parens) :
      HasParens place (')' :: rest) (⟨false, place⟩ :: parens)
  | literal {place : Nat} {quote : Char} {body rest : List Char} {parens : List Paren}
      (hquote : opensLiteral quote = true) (hbody : LiteralBody (endsLiteral quote) body)
      (h : HasParens (place + byteCount (quote :: body ++ [quote])) rest parens) :
      HasParens place (quote :: body ++ quote :: rest) parens

/-- Whether every parenthesis is closed in its turn. -/
inductive Balanced : List Paren → Prop where
  | nil : Balanced []
  | wrap {place place' : Nat} {inner rest : List Paren} (hinner : Balanced inner)
      (hrest : Balanced rest) : Balanced (⟨true, place⟩ :: (inner ++ ⟨false, place'⟩ :: rest))

/-- Whether a closing parenthesis behind some parentheses has its partner among them. -/
def Opened (before : List Paren) : Prop :=
  ∃ front place inner, before = front ++ ⟨true, place⟩ :: inner ∧ Balanced inner

/-- Whether an opening parenthesis before some parentheses has its partner among them. -/
def Closed (after : List Paren) : Prop :=
  ∃ inner place rest, after = inner ++ ⟨false, place⟩ :: rest ∧ Balanced inner

/-- Whether a parenthesis has its partner among those before it or those behind it. -/
def HasPartner (before : List Paren) : Paren → List Paren → Prop
  | ⟨true, _⟩, after => Closed after
  | ⟨false, _⟩, _ => Opened before

/-- Whether the parenthesis at a place is the first one of its kind without a partner. -/
def FirstLone (opens : Bool) (parens : List Paren) (place : Nat) : Prop :=
  ∃ before after, parens = before ++ ⟨opens, place⟩ :: after
    ∧ ¬HasPartner before ⟨opens, place⟩ after
    ∧ ∀ front other rest, before = front ++ ⟨opens, other⟩ :: rest →
      HasPartner front ⟨opens, other⟩ (rest ++ ⟨opens, place⟩ :: after)

/-- Whether the parenthesis at a place is the one to blame: the first closing one without a partner,
or if there is none, the leftmost opening one that is never closed. -/
def FirstUnmatched (parens : List Paren) (place : Nat) : Prop :=
  FirstLone false parens place
    ∨ (¬∃ other, FirstLone false parens other) ∧ FirstLone true parens place

/-! ### Counting what is open -/

/-- How many parentheses are open behind some parentheses, before which `count` were open, where
none closes nothing. -/
def openBehind : Nat → List Paren → Option Nat
  | count, [] => some count
  | count, ⟨true, _⟩ :: rest => openBehind (count + 1) rest
  | 0, ⟨false, _⟩ :: _ => none
  | count + 1, ⟨false, _⟩ :: rest => openBehind count rest

theorem openBehind_append (count : Nat) (front rest : List Paren) :
  openBehind count (front ++ rest) = (openBehind count front).bind (openBehind · rest)
  := by
  fun_induction openBehind count front with
  | case1 => rfl
  | case2 _ _ _ ih => exact ih
  | case3 => rfl
  | case4 _ _ _ ih => exact ih

theorem Balanced.openBehind {parens : List Paren} (h : Balanced parens) (count : Nat) :
  openBehind count parens = some count
  := by
  induction h generalizing count with
  | nil => rfl
  | wrap _ _ ih ihs =>
    rw [Syntax.openBehind, openBehind_append, ih, Option.bind_some, Syntax.openBehind, ihs]

/-- Parentheses none of which closes nothing: balanced ones, with some that are never closed between
them. -/
inductive Rising : List Paren → Prop where
  | balanced {parens : List Paren} (h : Balanced parens) : Rising parens
  | step {parens rest : List Paren} (h : Balanced parens) (place : Nat) (hrest : Rising rest) :
      Rising (parens ++ ⟨true, place⟩ :: rest)

theorem Rising.openBehind {parens : List Paren} (h : Rising parens) (count : Nat) :
  ∃ more, openBehind count parens = some (count + more)
  := by
  induction h generalizing count with
  | balanced h => exact ⟨0, h.openBehind count⟩
  | step h place _ ih =>
    obtain ⟨more, hmore⟩ := ih (count + 1)
    use 1 + more
    rw [openBehind_append, h.openBehind, Option.bind_some, Syntax.openBehind, hmore, Nat.add_assoc]

theorem Closed.openBehind {parens : List Paren} (h : Closed parens) :
  openBehind 0 parens = none
  := by
  obtain ⟨inner, place, rest, rfl, hinner⟩ := h
  rw [openBehind_append, hinner.openBehind, Option.bind_some, Syntax.openBehind]

theorem Rising.not_closed {parens : List Paren} (h : Rising parens) :
  ¬Closed parens
  := by
  intro hclosed
  obtain ⟨more, hmore⟩ := h.openBehind 0
  rw [hclosed.openBehind] at hmore
  cases hmore

/-- Some parentheses close what is open before them, or else none of them closes nothing. -/
theorem closed_or_rising (parens : List Paren) :
  Closed parens ∨ Rising parens
  := by
  induction hlength : parens.length using Nat.strong_induction_on generalizing parens with
  | _ length ih =>
    subst hlength
    match parens with
    | [] => exact .inr (.balanced .nil)
    | ⟨false, place⟩ :: rest => exact .inl ⟨[], place, rest, rfl, .nil⟩
    | ⟨true, place⟩ :: rest =>
      obtain ⟨inner, place', others, rfl, hinner⟩ | hrest := ih rest.length (by simp) rest rfl
      · have hwrap {parens : List Paren} (h : Balanced parens) :
            Balanced (⟨true, place⟩ :: (inner ++ ⟨false, place'⟩ :: parens)) :=
          .wrap hinner h
        have hothers := ih others.length (by simp; omega) others rfl
        obtain ⟨inner', last, behind, rfl, hinner'⟩ | hothers := hothers
        · exact .inl ⟨_, last, behind, by simp, hwrap hinner'⟩
        · right
          cases hothers with
          | balanced h => exact .balanced (hwrap h)
          | @step front rest h last hrest =>
            have := Rising.step (hwrap h) last hrest
            simpa using this
      · exact .inr (.step .nil place hrest)

/-! ### Partners -/

theorem Balanced.not_opened {parens : List Paren} (h : Balanced parens) :
  ¬Opened parens
  := by
  rintro ⟨front, place, inner, rfl, hinner⟩
  have hcount := h.openBehind 0
  rw [openBehind_append] at hcount
  obtain ⟨count, -, hcount⟩ := Option.bind_eq_some_iff.1 hcount
  rw [Syntax.openBehind, hinner.openBehind] at hcount
  cases hcount

/-- What is open behind balanced parentheses was opened last. -/
theorem Rising.balanced_or_opened {parens : List Paren} (h : Rising parens) :
  Balanced parens ∨ Opened parens
  := by
  induction h with
  | balanced h => exact .inl h
  | @step front rest h place _ ih =>
    right
    obtain hrest | ⟨before, last, inner, rfl, hinner⟩ := ih
    · exact ⟨front, place, rest, rfl, hrest⟩
    · exact ⟨front ++ ⟨true, place⟩ :: before, last, inner, by simp, hinner⟩

/-- Where no parenthesis closes nothing, each closing one has a partner. -/
theorem Rising.opened {before after : List Paren} {place : Nat}
    (h : Rising (before ++ ⟨false, place⟩ :: after)) :
  Opened before
  := by
  obtain ⟨more, hmore⟩ := h.openBehind 0
  rw [openBehind_append] at hmore
  obtain hbefore | hbefore := closed_or_rising before
  · rw [hbefore.openBehind] at hmore
    cases hmore
  · obtain hbalanced | hopened := hbefore.balanced_or_opened
    · rw [hbalanced.openBehind, Option.bind_some, Syntax.openBehind] at hmore
      cases hmore
    · exact hopened

/-- In balanced parentheses each opening one has a partner. -/
theorem Balanced.closed {before after : List Paren} {place : Nat}
    (h : Balanced (before ++ ⟨true, place⟩ :: after)) :
  Closed after
  := by
  obtain hafter | hafter := closed_or_rising after
  · exact hafter
  · have hcount := h.openBehind 0
    rw [openBehind_append] at hcount
    obtain ⟨count, -, hcount⟩ := Option.bind_eq_some_iff.1 hcount
    obtain ⟨more, hmore⟩ := hafter.openBehind (count + 1)
    rw [Syntax.openBehind, hmore, Option.some_inj] at hcount
    omega

theorem Closed.append {parens : List Paren} (h : Closed parens) (rest : List Paren) :
  Closed (parens ++ rest)
  := by
  obtain ⟨inner, place, others, rfl, hinner⟩ := h
  exact ⟨inner, place, others ++ rest, by simp, hinner⟩

/-! ### The parenthesis to blame -/

/-- The place of the parenthesis that is found unmatched where some are open. -/
def findUnmatched : List Nat → List Paren → Option Nat
  | opened, [] => opened.getLast?
  | opened, ⟨true, place⟩ :: rest => findUnmatched (place :: opened) rest
  | [], ⟨false, place⟩ :: _ => some place
  | _ :: opened, ⟨false, _⟩ :: rest => findUnmatched opened rest

theorem Balanced.findUnmatched_append {parens : List Paren} (h : Balanced parens)
    (opened : List Nat) (rest : List Paren) :
  findUnmatched opened (parens ++ rest) = findUnmatched opened rest
  := by
  induction h generalizing opened rest with
  | nil => rfl
  | wrap _ _ ih ihs =>
    rw [List.cons_append, findUnmatched, List.append_assoc, ih, List.cons_append, findUnmatched, ihs]

/-- What is open before parentheses that rise stays open. -/
theorem Rising.findUnmatched {parens : List Paren} (h : Rising parens) (opened : List Nat) :
  ∃ more, findUnmatched opened parens = (more ++ opened).getLast?
  := by
  induction h generalizing opened with
  | @balanced parens h =>
    use []
    have := h.findUnmatched_append opened []
    rwa [List.append_nil] at this
  | step h place _ ih =>
    obtain ⟨more, hmore⟩ := ih (place :: opened)
    use more ++ [place]
    rw [h.findUnmatched_append, Syntax.findUnmatched, hmore, List.append_assoc]
    rfl

/-- Parentheses are balanced, or one of them is found unmatched and is the one to blame. -/
theorem balanced_or_firstUnmatched (parens : List Paren) :
  (findUnmatched [] parens = none ∧ Balanced parens)
    ∨ ∃ place, findUnmatched [] parens = some place ∧ ¬Balanced parens
      ∧ FirstUnmatched parens place
  := by
  obtain hclosed | hrising := closed_or_rising parens
  · have hne : ¬Balanced parens := fun h => (Rising.balanced h).not_closed hclosed
    obtain ⟨inner, place, rest, rfl, hinner⟩ := hclosed
    right
    refine ⟨place, ?_, hne, .inl ⟨inner, rest, rfl, hinner.not_opened, ?_⟩⟩
    · rw [hinner.findUnmatched_append, findUnmatched]
    · rintro front other behind rfl
      exact (Rising.balanced hinner).opened
  · have hnone : ¬∃ other, FirstLone false parens other := by
      rintro ⟨other, before, after, rfl, hopened, -⟩
      exact hopened hrising.opened
    cases hrising with
    | balanced h =>
      left
      refine ⟨?_, h⟩
      have := h.findUnmatched_append [] []
      rwa [List.append_nil] at this
    | @step front rest h place hrest =>
      right
      refine ⟨place, ?_, ?_, .inr ⟨hnone, front, rest, rfl, hrest.not_closed, ?_⟩⟩
      · obtain ⟨more, hmore⟩ := hrest.findUnmatched [place]
        rw [h.findUnmatched_append, findUnmatched, hmore, List.getLast?_concat]
      · intro hbalanced
        exact hrest.not_closed hbalanced.closed
      · rintro before other behind rfl
        exact h.closed.append _

/-- There is one first parenthesis without a partner at most. -/
theorem FirstLone.unique {opens : Bool} {parens : List Paren} {place other : Nat}
    (h : FirstLone opens parens place) (h' : FirstLone opens parens other) :
  place = other
  := by
  obtain ⟨before, after, rfl, hlone, hfirst⟩ := h
  obtain ⟨before', after', heq, hlone', hfirst'⟩ := h'
  obtain ⟨middle, hbefore, hafter⟩ | ⟨middle, hbefore, hafter⟩ := List.append_eq_append_iff.1 heq
  · cases middle with
    | nil =>
      obtain ⟨⟨⟩, -⟩ := List.cons.inj hafter
      rfl
    | cons paren middle =>
      obtain ⟨rfl, rfl⟩ := List.cons.inj hafter
      exact absurd (hfirst' before place middle hbefore) hlone
  · cases middle with
    | nil =>
      obtain ⟨⟨⟩, -⟩ := List.cons.inj hafter
      rfl
    | cons paren middle =>
      obtain ⟨rfl, rfl⟩ := List.cons.inj hafter
      exact absurd (hfirst before' other middle hbefore) hlone'

theorem FirstUnmatched.unique {parens : List Paren} {place other : Nat}
    (h : FirstUnmatched parens place) (h' : FirstUnmatched parens other) :
  place = other
  := by
  obtain h | ⟨hnone, h⟩ := h
  · obtain h' | ⟨hnone, -⟩ := h'
    · exact h.unique h'
    · exact absurd ⟨_, h⟩ hnone
  · obtain h' | ⟨-, h'⟩ := h'
    · exact absurd ⟨_, h'⟩ hnone
    · exact h.unique h'

/-- In balanced parentheses none is to blame. -/
theorem Balanced.not_firstUnmatched {parens : List Paren} (h : Balanced parens) (place : Nat) :
  ¬FirstUnmatched parens place
  := by
  rintro (⟨before, after, rfl, hlone, -⟩ | ⟨-, before, after, rfl, hlone, -⟩)
  · exact hlone (Rising.balanced h).opened
  · exact hlone h.closed

/-- The parenthesis that is found unmatched is the one to blame. -/
theorem findUnmatched_eq_some_iff {parens : List Paren} {place : Nat} :
  findUnmatched [] parens = some place ↔ FirstUnmatched parens place
  := by
  obtain ⟨hnone, hbalanced⟩ | ⟨found, hsome, -, hfound⟩ := balanced_or_firstUnmatched parens
  · simp [hnone, hbalanced.not_firstUnmatched]
  · rw [hsome, Option.some_inj]
    constructor
    · rintro rfl
      exact hfound
    · exact hfound.unique

theorem findUnmatched_eq_none_iff {parens : List Paren} :
  findUnmatched [] parens = none ↔ Balanced parens
  := by
  obtain ⟨hnone, hbalanced⟩ | ⟨found, hsome, hne, -⟩ := balanced_or_firstUnmatched parens
  · simp [hnone, hbalanced]
  · simp [hsome, hne]

/-! ### Delimiters of texts -/

/-- A literal is closed where its body ends. -/
theorem closeLiteral_of_body {quote : Char} (hquote : quote ≠ '\\') {body : List Char}
    (hbody : LiteralBody (endsLiteral quote) body) (place : Nat) (rest : List Char) :
  closeLiteral quote place (body ++ quote :: rest)
    = some (place + byteCount (body ++ [quote]), rest)
  := by
  induction hbody generalizing place with
  | nil =>
    rw [List.nil_append, closeLiteral.eq_def]
    simp [hquote, byteCount]
  | plain hc hends _ ih =>
    simp only [endsLiteral, Bool.or_eq_false_iff, decide_eq_false_iff_not,
      ← Bool.decide_and] at hends
    rw [List.cons_append, closeLiteral.eq_def]
    simp only [hc, hends.1, hends.2, if_false, ih, List.cons_append, byteCount_cons,
      Nat.add_assoc]
  | escaped c _ ih =>
    rw [List.cons_append, List.cons_append, closeLiteral.eq_def]
    simp only [if_true, ih, List.cons_append, byteCount_cons, Nat.add_assoc]

/-- What is found in a text whose literals are closed depends only on its parentheses. -/
theorem delimiterFault_of_hasParens {place : Nat} {cs : List Char} {parens : List Paren}
    (h : HasParens place cs parens) (opened : List Nat) :
  delimiterFault opened place cs = (findUnmatched opened parens).map .unmatched
  := by
  induction h generalizing opened with
  | nil =>
    rw [delimiterFault, findUnmatched]
  | @plain place c rest parens hc _ ih =>
    simp only [isPlain, Bool.and_eq_true, Bool.not_eq_true', decide_eq_true_eq] at hc
    rw [delimiterFault.eq_def]
    simp only [hc.1.1, Bool.false_eq_true, if_false, hc.1.2, hc.2, ih]
  | @opening place rest parens _ ih =>
    have hopens : opensLiteral '(' = false := rfl
    rw [delimiterFault.eq_def, findUnmatched, ← ih]
    simp only [hopens, Bool.false_eq_true, if_false, if_true]
    rfl
  | @closing place rest parens _ ih =>
    have hopens : opensLiteral ')' = false := rfl
    have hne : ')' ≠ '(' := by decide
    rw [delimiterFault.eq_def]
    simp only [hopens, Bool.false_eq_true, if_false, if_true, hne]
    cases opened with
    | nil => rfl
    | cons _ opened =>
      rw [findUnmatched, ← ih]
      rfl
  | @literal place quote body rest parens hquote hbody _ ih =>
    have hne : quote ≠ '\\' := by
      rintro rfl
      cases hquote
    have hclose := closeLiteral_of_body hne hbody (place + quote.utf8Size) rest
    rw [← ih, List.cons_append, delimiterFault.eq_def]
    simp only [hquote, if_true]
    split
    case h_1 behind rest' h =>
      rw [hclose] at h
      cases h
      rw [List.cons_append, byteCount_cons, Nat.add_assoc]
    case h_2 h =>
      rw [hclose] at h
      cases h

/-- Where all literals are closed, the parenthesis that is found unmatched is the one to blame. -/
theorem checkDelimiters_eq_unmatched_iff {cs : List Char} {parens : List Paren}
    (h : HasParens 0 cs parens) {place : Nat} :
  checkDelimiters cs = .error (.unmatched place) ↔ FirstUnmatched parens place
  := by
  rw [checkDelimiters, delimiterFault_of_hasParens h, ← findUnmatched_eq_some_iff]
  cases findUnmatched [] parens <;> simp

/-- Where all literals are closed, an unmatched parenthesis is found if they are not balanced. -/
theorem exists_unmatched_iff {cs : List Char} {parens : List Paren} (h : HasParens 0 cs parens) :
  (∃ place, checkDelimiters cs = .error (.unmatched place)) ↔ ¬Balanced parens
  := by
  rw [checkDelimiters, delimiterFault_of_hasParens h, ← findUnmatched_eq_none_iff]
  cases findUnmatched [] parens <;> simp

end Sift.Syntax
