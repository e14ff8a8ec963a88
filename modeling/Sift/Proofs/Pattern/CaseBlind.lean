import Sift.Proofs.Pattern.Meaning
import Sift.Proofs.Pattern.Scan

/-!
# Patterns that ignore case

A language ignores case if it has with each text all that differ from it in the case of letters
only (`IgnoresCase`). The engine knows nothing of this, so a pattern ignores case if all its parts
do. `ReadsBlind` says of a text that what is read of it does, and it is kept by putting texts one
after the other. The pieces that the conversion writes outside brackets when it ignores case are
such texts: `readsBlind_literalPiece` and `readsBlind_escapePiece`.
-/

namespace Sift

namespace Pattern

/-! ### Languages -/

/-- Whether a language has with each text all that are the same but for the case of letters. -/
def IgnoresCase (L : Language Char) : Prop :=
  ∀ s t, s.map Char.toLower = t.map Char.toLower → s ∈ L → t ∈ L

namespace IgnoresCase

variable {L M : Language Char}

theorem zero :
  IgnoresCase 0
  := fun s _ _ hs => absurd hs (Language.notMem_zero s)

theorem one :
  IgnoresCase 1
  := by
  intro s t heq hs
  rw [Language.mem_one] at hs
  subst hs
  rw [Language.mem_one, ← List.map_eq_nil_iff, ← heq]
  rfl

theorem single {kind : Char → Prop} (h : ∀ c d, c.toLower = d.toLower → kind c → kind d) :
  IgnoresCase (single kind)
  := by
  rintro _ t heq ⟨c, hc, rfl⟩
  obtain ⟨d, rfl, hd⟩ := List.map_eq_singleton_iff.mp heq.symm
  exact ⟨d, h c d hd.symm hc, rfl⟩

theorem add (hL : IgnoresCase L) (hM : IgnoresCase M) :
  IgnoresCase (L + M)
  := by
  intro s t heq hs
  rw [Language.mem_add] at hs ⊢
  exact hs.imp (hL s t heq) (hM s t heq)

theorem mul (hL : IgnoresCase L) (hM : IgnoresCase M) :
  IgnoresCase (L * M)
  := by
  intro s t heq hs
  obtain ⟨a, ha, b, hb, rfl⟩ := Language.mem_mul.mp hs
  rw [List.map_append] at heq
  obtain ⟨a', b', rfl, ha', hb'⟩ := List.map_eq_append_iff.mp heq.symm
  exact Language.append_mem_mul (hL a a' ha'.symm ha) (hM b b' hb'.symm hb)

theorem pow (h : IgnoresCase L) (n : Nat) :
  IgnoresCase (L ^ n)
  := by
  induction n with
  | zero =>
    rw [pow_zero]
    exact one
  | succ n ih =>
    rw [pow_succ]
    exact ih.mul h

theorem repeated (h : IgnoresCase L) (low : Nat) (high : Option Nat) :
  IgnoresCase (repeated low high L)
  := by
  rintro s t heq ⟨n, hlow, hhigh, hs⟩
  exact ⟨n, hlow, hhigh, h.pow n s t heq hs⟩

theorem sum {languages : List (Language Char)} (h : ∀ L ∈ languages, IgnoresCase L) :
  IgnoresCase languages.sum
  := by
  induction languages with
  | nil => exact zero
  | cons L languages ih =>
    rw [List.forall_mem_cons] at h
    rw [List.sum_cons]
    exact h.1.add (ih h.2)

theorem prod {languages : List (Language Char)} (h : ∀ L ∈ languages, IgnoresCase L) :
  IgnoresCase languages.prod
  := by
  induction languages with
  | nil => exact one
  | cons L languages ih =>
    rw [List.forall_mem_cons] at h
    rw [List.prod_cons]
    exact h.1.mul (ih h.2)

end IgnoresCase

end Pattern

open Pattern

namespace Dialect

/-! ### Levels -/

/-- Whether all that has been read of a group and of the groups around it ignores case. -/
def Blind (level : Level) (outer : List Level) : Prop :=
  ∀ around ∈ level :: outer, ∀ expr ∈ around.done ++ around.parts, IgnoresCase expr.language

namespace Blind

variable {level around : Level} {outer : List Level}

theorem start :
  Blind {} []
  := by
  simp [Blind]

theorem expr (h : Blind level outer) :
  IgnoresCase level.expr.language
  := by
  have hlevel := h level List.mem_cons_self
  rw [List.forall_mem_append] at hlevel
  rw [level.language_expr]
  apply IgnoresCase.add
  · apply IgnoresCase.sum
    simpa using hlevel.1
  · apply IgnoresCase.prod
    simpa using hlevel.2

theorem push (h : Blind level outer) {part : Expr} (hpart : IgnoresCase part.language) :
  Blind (level.push part) outer
  := by
  rw [Blind, List.forall_mem_cons, List.forall_mem_append] at h ⊢
  exact ⟨⟨h.1.1, List.forall_mem_cons.mpr ⟨hpart, h.1.2⟩⟩, h.2⟩

theorem bar (h : Blind level outer) :
  Blind level.bar outer
  := by
  rw [Blind, List.forall_mem_cons, List.forall_mem_append] at h ⊢
  refine ⟨⟨List.forall_mem_cons.mpr ⟨?_, h.1.1⟩, by simp [Level.bar]⟩, h.2⟩
  rw [language_foldl_sequence]
  apply IgnoresCase.mul _ IgnoresCase.one
  apply IgnoresCase.prod
  simpa using h.1.2

theorem openGroup (h : Blind level outer) :
  Blind {} (level :: outer)
  := by
  rw [Blind, List.forall_mem_cons]
  exact ⟨by simp, h⟩

theorem closeGroup (h : Blind level (around :: outer)) :
  Blind (around.push level.expr) outer
  := by
  have haround : Blind around outer := (List.forall_mem_cons.mp h).2
  exact haround.push h.expr

theorem repeatLast (h : Blind level outer) {low : Nat} {high : Option Nat} {next : Level}
    (hnext : level.repeatLast? low high = some next) :
  Blind next outer
  := by
  obtain ⟨done, parts⟩ := level
  cases parts with
  | nil => cases hnext
  | cons part parts =>
    cases hnext
    have hrest : Blind ⟨done, parts⟩ outer := by
      rw [Blind, List.forall_mem_cons, List.forall_mem_append] at h ⊢
      exact ⟨⟨h.1.1, (List.forall_mem_cons.mp h.1.2).2⟩, h.2⟩
    apply hrest.push
    apply IgnoresCase.repeated
    exact h _ List.mem_cons_self part (by simp)

end Blind

/-! ### Texts -/

/-- Whether all that has been read ignores case behind a text if it does so in front of it. -/
def ReadsBlind (text : List Char) : Prop :=
  ∀ level outer rest expr, Blind level outer →
    readFrom .outside level outer (text ++ rest) = some expr →
    ∃ next around, Blind next around ∧ readFrom .outside next around rest = some expr

namespace ReadsBlind

variable {text first second : List Char}

theorem nil :
  ReadsBlind []
  := fun level outer _ _ h hread => ⟨level, outer, h, hread⟩

theorem append (hfirst : ReadsBlind first) (hsecond : ReadsBlind second) :
  ReadsBlind (first ++ second)
  := by
  intro level outer rest expr h hread
  rw [List.append_assoc] at hread
  obtain ⟨next, around, h, hread⟩ := hfirst level outer _ expr h hread
  exact hsecond next around rest expr h hread

theorem part {L : Language Char} (h : IsPart text L) (hL : IgnoresCase L) :
  ReadsBlind text
  := by
  obtain ⟨part, hpart, rfl⟩ := h
  intro level outer rest expr hblind hread
  rw [hpart] at hread
  exact ⟨_, outer, hblind.push hL, hread⟩

theorem openGroup :
  ReadsBlind ['(']
  := fun _ _ _ _ h hread => ⟨_, _, h.openGroup, hread⟩

theorem closeGroup :
  ReadsBlind [')']
  := by
  intro level outer rest expr h hread
  cases outer with
  | nil => cases hread
  | cons around outer => exact ⟨_, outer, h.closeGroup, hread⟩

theorem bar :
  ReadsBlind ['|']
  := fun _ outer _ _ h hread => ⟨_, outer, h.bar, hread⟩

theorem sign {c : Char} (hc : c = '*' ∨ c = '+' ∨ c = '?') :
  ReadsBlind [c]
  := by
  intro level outer rest expr h hread
  have hbounds : ∃ low high, signBounds? c = some (low, high) := by
    obtain rfl | rfl | rfl := hc <;> exact ⟨_, _, rfl⟩
  obtain ⟨low, high, hbounds⟩ := hbounds
  have hsign : readFrom .outside level outer (c :: rest)
      = (level.repeatLast? low high).bind fun next => readFrom .outside next outer rest := by
    rw [readFrom.eq_def]
    simp only [hbounds]
    obtain rfl | rfl | rfl := hc <;> cases level.repeatLast? low high <;> rfl
  rw [List.singleton_append, hsign, Option.bind_eq_some_iff] at hread
  obtain ⟨next, hnext, hread⟩ := hread
  exact ⟨next, outer, h.repeatLast hnext, hread⟩

theorem braces {seen : List Char} (htext : '\x7d' ∉ text) {level : Level} {outer : List Level}
    {rest : List Char} {expr : Expr} (h : Blind level outer)
    (hread : readFrom (.braces seen) level outer (text ++ '\x7d' :: rest) = some expr) :
  ∃ next, Blind next outer ∧ readFrom .outside next outer rest = some expr
  := by
  induction text generalizing seen with
  | nil =>
    rw [List.nil_append, readFrom.eq_def] at hread
    simp only [if_true] at hread
    split at hread
    case h_1 =>
      split at hread
      case h_1 next hnext => exact ⟨next, h.repeatLast hnext, hread⟩
      case h_2 => cases hread
    case h_2 => cases hread
  | cons c text ih =>
    simp only [List.mem_cons, not_or] at htext
    rw [List.cons_append, readFrom.eq_def] at hread
    simp only [Ne.symm htext.1, if_false] at hread
    exact ih htext.2 hread

theorem counts (htext : '\x7d' ∉ text) :
  ReadsBlind ('\x7b' :: text ++ ['\x7d'])
  := by
  intro level outer rest expr h hread
  rw [List.append_assoc] at hread
  obtain ⟨next, hnext, hread⟩ := braces htext h hread
  exact ⟨next, outer, hnext, hread⟩

/-- What a text is read as ignores case if all that is read of it does. -/
theorem ignoresCase (h : ReadsBlind text) {expr : Expr} (hread : read? text = some expr) :
  IgnoresCase expr.language
  := by
  rw [read?, ← List.append_nil text] at hread
  obtain ⟨next, around, hblind, hend⟩ := h {} [] [] expr Blind.start hread
  rw [readFrom] at hend
  split at hend
  case isTrue =>
    cases hend
    exact hblind.expr
  case isFalse => cases hend

end ReadsBlind

end Dialect

/-! ### Pieces outside brackets -/

open Dialect

namespace Regex

variable {c : Char}

theorem ignoresCase_same (c : Char) :
  IgnoresCase (single (Same true c))
  := by
  apply IgnoresCase.single
  intro d e heq hd
  have hlower : c.toLower = d.toLower := by
    obtain rfl | ⟨-, h⟩ := hd
    · rfl
    · exact h
  exact .inr ⟨rfl, hlower.trans heq⟩

theorem ignoresCase_isSomeOf (kind : Char → Prop) (negated : Bool) :
  IgnoresCase (single fun d => IsSomeOf true kind d ↔ negated = false)
  := by
  have hsome {d e : Char} (heq : d.toLower = e.toLower) (hd : IsSomeOf true kind d) :
      IsSomeOf true kind e := by
    obtain ⟨c, hc, hsame⟩ := hd
    refine ⟨c, hc, .inr ⟨rfl, ?_⟩⟩
    obtain rfl | ⟨-, h⟩ := hsame
    · exact heq
    · exact h.trans heq
  apply IgnoresCase.single
  intro d e heq hd
  rw [← hd]
  exact ⟨hsome heq.symm, hsome heq⟩

/-- A shorthand is written as a class that has no letter in one case only. -/
theorem readsBlind_shorthand (negated : Bool) (kind : Shorthand) :
  ReadsBlind (bracketed negated kind.members)
  := by
  have h := isPart_bracketed true negated (List.cons_ne_nil (Member.shorthand kind) [])
  rw [List.flatMap_cons, List.flatMap_nil, List.append_nil] at h
  exact .part h (ignoresCase_isSomeOf _ _)

theorem readsBlind_bare (hoperator : c ∉ operators) (hreserved : c ∉ reserved) (hdot : c ≠ '.')
    (hletter : c.isAlpha = false) :
  ReadsBlind [c]
  := by
  apply ReadsBlind.part (isPart_bare hoperator hreserved hdot _) (ignoresCase_same c)
  rw [hletter, Bool.false_and]

/-- A character that is no sign is written as a class of one character, in both cases, or as the
class of all. -/
theorem readsBlind_literalPiece (hc : c ∉ outsideSigns) :
  ReadsBlind (literalPiece true c)
  := by
  by_cases hmeta : c ∈ metacharacters
  · have hother : c = ']' ∨ c = '}' ∨ c = '.' ∨ c = '/' := by
      simp [metacharacters, outsideSigns, backedSigns, quantifierSigns, anchorSigns] at hmeta hc
      tauto
    obtain rfl | rfl | rfl | rfl := hother
    · apply readsBlind_bare <;> decide
    · apply readsBlind_bare <;> decide
    · exact .part isPart_dot (IgnoresCase.single fun _ _ _ _ => trivial)
    · apply readsBlind_bare <;> decide
  · exact .part (isPart_literalPiece hmeta) (ignoresCase_same c)

theorem readsBlind_escapePiece {piece : List Char} (h : escapePiece c = .ok piece) :
  ReadsBlind piece
  := by
  revert h
  fun_cases escapePiece c <;> intro h <;> cases h
  case case1 => exact readsBlind_shorthand false .space
  case case2 => exact readsBlind_shorthand false .digit
  case case3 => exact readsBlind_shorthand false .word
  case case4 => exact readsBlind_shorthand true .space
  case case5 => exact readsBlind_shorthand true .digit
  case case6 => exact readsBlind_shorthand true .word
  case case7 | case8 | case9 | case10 => apply readsBlind_bare <;> decide
  case case14 hslash _ _ halphanum =>
    have hpart : IsPart _ (single (Same true c)) := isPart_escaped (Bool.eq_false_iff.mpr halphanum)
    rw [if_neg hslash] at hpart
    exact .part hpart (ignoresCase_same c)

end Regex

end Sift
