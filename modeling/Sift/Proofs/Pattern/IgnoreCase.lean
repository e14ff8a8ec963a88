import Sift.Proofs.Pattern.BracketText
import Sift.Proofs.Pattern.CaseBlind
import Sift.Proofs.Pattern.WellFormed

/-!
# Matching without regard to case

A pattern that is converted without regard to case does not tell terms apart that are the same but
for the case of letters (`matches_iff_of_toLower`), as long as all ranges in its brackets keep case
(`RangesKeepCase`). Brackets are the one place where this has to be asked: a range between letters of
different case is written as it is (`toEngine_mixedRange`), and one from a letter to another
character begins with the letter in the other case (`toEngine_letterRange`). Everything else that is
written ignores case, which is shown step by step.
-/

namespace Sift.Pattern

open Dialect (Member ReadsBlind classOf? rangesOf)

variable {cs out rest tail : List Char} {members written : List Member}

/-! ### Brackets -/

/-- The engine reads the members of brackets as a class, if there are any. -/
theorem readFrom_members (hmembers : ∀ x ∈ members, IsMember x) (seen : List Member)
    (level : Dialect.Level) (outer : List Dialect.Level) (rest : List Char) :
  Dialect.readFrom (.brackets seen) level outer (membersText members ++ ']' :: rest)
    = (classOf? (seen.reverse ++ members)).bind fun cls =>
      Dialect.readFrom .outside (level.push (.one cls)) outer rest
  := by
  induction members generalizing seen with
  | nil =>
    rw [membersText, List.flatMap_nil, List.nil_append, List.append_nil, Dialect.readFrom.eq_def]
    cases hcls : classOf? seen.reverse <;> simp [hcls]
  | cons x members ih =>
    rw [List.forall_mem_cons] at hmembers
    have hrest := ih hmembers.2 (x :: seen)
    obtain ⟨c, escaped⟩ := x
    cases escaped with
    | false =>
      obtain ⟨hbackslash, hclose⟩ := hmembers.1 rfl
      change Dialect.readFrom (.brackets seen) level outer
        (c :: (membersText members ++ ']' :: rest)) = _
      rw [Dialect.readFrom.eq_def]
      simpa [hbackslash, hclose] using hrest
    | true =>
      change Dialect.readFrom (.bracketsEscape seen) level outer
        (c :: (membersText members ++ ']' :: rest)) = _
      rw [Dialect.readFrom.eq_def]
      simpa using hrest

theorem classOf?_inv {negated : Bool} {cls : Dialect.Class}
    (hhead : negated = false → members.head? ≠ some ('^', false))
    (h : classOf? ((if negated then [('^', false)] else []) ++ members) = some cls) :
  cls = { negated, ranges := rangesOf members }
  := by
  rw [classOf?] at h
  cases negated with
  | true =>
    simp at h
    exact h.2.symm
  | false =>
    simp [hhead rfl] at h
    exact h.2.symm

/-- Brackets whose ranges keep case are written as a class that ignores it. -/
theorem readsBlind_bracketed {negated : Bool} (h : Written members written)
    (hkeeps : MembersKeepCase members)
    (hhead : negated = false → members.head? ≠ some ('^', false)) :
  ReadsBlind (bracketed negated (membersText written))
  := by
  intro level outer rest expr hblind hread
  have hmembers : ∀ x ∈ (if negated then [('^', false)] else []) ++ written, IsMember x := by
    rw [List.forall_mem_append]
    refine ⟨?_, h.isMember.2⟩
    cases negated
    · simp
    · simp [IsMember]
  have hopen : bracketed negated (membersText written) ++ rest = '['
      :: (membersText ((if negated then [('^', false)] else []) ++ written) ++ ']' :: rest) := by
    cases negated <;> simp [bracketed, membersText, memberText]
  rw [hopen] at hread
  change Dialect.readFrom (.brackets []) level outer _ = some expr at hread
  rw [readFrom_members hmembers, Option.bind_eq_some_iff] at hread
  obtain ⟨cls, hcls, hread⟩ := hread
  have hwritten : negated = false → written.head? ≠ some ('^', false) := by
    rw [Ne, h.head?_eq (by decide)]
    exact hhead
  obtain rfl := classOf?_inv hwritten hcls
  refine ⟨_, outer, hblind.push ?_, hread⟩
  exact IgnoresCase.single fun c d heq => ((h.closed hkeeps).has_iff heq).mp

/-- Whether the ranges in all brackets of a text keep case. -/
def RangesKeepCase (text : List Char) : Prop :=
  ∀ members ∈ bracketsFrom .outside [] text, MembersKeepCase members

instance (text : List Char) : Decidable (RangesKeepCase text) :=
  inferInstanceAs (Decidable (∀ members ∈ _, _))

/-! ### Conversion outside brackets -/

/-- A step that stays outside brackets writes what ignores case. -/
theorem Step.readsBlind {used piece : List Char}
    (h : Step true .outside used piece .outside rest) :
  ReadsBlind piece
  := by
  cases h with
  | escape hpiece => exact Regex.readsBlind_escapePiece hpiece
  | uncaptured => exact .openGroup
  | openGroup => exact .openGroup
  | sign hc => exact .sign hc
  | closeGroup => exact .closeGroup
  | bar => exact .bar
  | literal hc => exact Regex.readsBlind_literalPiece hc

/-- What is written for a text in front of `tail` ignores case if all ranges keep it. -/
theorem readsBlind_of_convertFrom (h : convertFrom true .outside cs = .ok out)
    (htail : tail.head? ≠ some '?') (hkeeps : RangesKeepCase (cs ++ tail)) :
  ReadsBlind out ∧ RangesKeepCase tail
  := by
  induction hlength : cs.length using Nat.strongRecOn generalizing cs out with
  | ind n ih =>
    have hthen {piece rest found : List Char} (hpiece : ReadsBlind piece)
        (hrest : convertFrom true .outside rest = .ok found) (hshorter : rest.length < cs.length)
        (hkeeps : RangesKeepCase (rest ++ tail)) :
        ReadsBlind (piece ++ found) ∧ RangesKeepCase tail := by
      obtain ⟨hfound, htail⟩ := ih rest.length (hlength ▸ hshorter) hrest hkeeps rfl
      exact ⟨hpiece.append hfound, htail⟩
    -- the first step says too little of brackets, so they are taken as a whole
    have hbrackets {rest : List Char} (hcs : cs = '[' :: rest) :
        ReadsBlind out ∧ RangesKeepCase tail := by
      subst hcs
      obtain ⟨negated, members, written, behind, found, hwritten, hhead, rfl, rfl, hbehind⟩ :=
        convertFrom_openBrackets_inv h
      rw [RangesKeepCase, List.cons_append, List.append_assoc, List.append_assoc, List.cons_append,
        bracketsFrom_openBrackets hwritten.isMember.1 hhead, List.forall_mem_cons] at hkeeps
      apply hthen (readsBlind_bracketed hwritten hkeeps.1 hhead) hbehind _ hkeeps.2
      simp only [List.length_cons, List.length_append]
      omega
    obtain ⟨-, rfl, rfl⟩ | ⟨used, piece, mode, rest, found, hstep, rfl, rfl, hfound⟩ :=
      step_of_convertFrom h
    case inl => exact ⟨.nil, hkeeps⟩
    case inr =>
      cases mode with
      | outside =>
        rw [RangesKeepCase, List.append_assoc, hstep.bracketsFrom_eq htail] at hkeeps
        apply hthen hstep.readsBlind hfound _ hkeeps
        rw [List.length_append]
        exact Nat.lt_add_of_pos_left (List.length_pos_of_ne_nil hstep.used_ne_nil)
      | brackets => cases hstep <;> exact hbrackets rfl
      | counts =>
        cases hstep
        obtain ⟨text, behind, found, htext, rfl, rfl, hbehind⟩ := convertFrom_counts_inv hfound
        rw [RangesKeepCase, List.append_assoc, List.append_assoc, List.singleton_append,
          List.cons_append, bracketsFrom_openCounts htext] at hkeeps
        have hout := hthen (ReadsBlind.counts htext) hbehind (by simp; omega) hkeeps
        simpa using hout
      | name =>
        cases hstep
        obtain ⟨name, behind, found, hname, rfl, rfl, hbehind⟩ := convertFrom_name_inv hfound
        rw [RangesKeepCase, List.append_assoc, List.append_assoc] at hkeeps
        simp only [List.cons_append, List.nil_append, bracketsFrom_named hname] at hkeeps
        change ReadsBlind (['('] ++ found) ∧ RangesKeepCase tail
        exact hthen .openGroup hbehind (by simp; omega) hkeeps

/-! ### Whole patterns -/

theorem readsBlind_anyRun :
  ReadsBlind anyRun
  := by
  have hdot : ReadsBlind ['.'] := .part Regex.isPart_dot (IgnoresCase.single fun _ _ _ _ => trivial)
  exact hdot.append (.sign (.inl rfl))

/-- What is written for an alternative in front of `tail` ignores case if all ranges keep it. -/
theorem readsBlind_of_convertAlternative (h : convertAlternative true cs = .ok out)
    (htail : tail.head? ≠ some '?') (hkeeps : RangesKeepCase (cs ++ tail)) :
  ReadsBlind out ∧ RangesKeepCase tail
  := by
  have hwildcard (anchored : Bool) : ReadsBlind (if anchored then [] else anyRun) := by
    cases anchored
    · exact readsBlind_anyRun
    · exact .nil
  have hanchor {c : Char} (hc : c ∉ ['\\', '[', '(', '\x7b']) (anchored : Bool) {rest : List Char}
      (hrest : RangesKeepCase ((if anchored then [c] else []) ++ rest)) : RangesKeepCase rest := by
    cases anchored with
    | false => exact hrest
    | true =>
      rw [RangesKeepCase, if_pos rfl, List.singleton_append, bracketsFrom_ordinary hc] at hrest
      exact hrest
  obtain ⟨atStart, atEnd, body, converted, hconverted, rfl, hout⟩ := convertAlternative_inv h
  rw [List.append_assoc, List.append_assoc] at hkeeps
  have hfront := hanchor (by decide) atStart hkeeps
  have hend : ((if atEnd then ['$'] else []) ++ tail).head? ≠ some '?' := by
    cases atEnd with
    | false => exact htail
    | true => simp
  obtain ⟨hbody, hbehind⟩ := readsBlind_of_convertFrom hconverted hend hfront
  refine ⟨?_, hanchor (by decide) atEnd hbehind⟩
  obtain rfl | ⟨-, -, -, rfl⟩ := hout
  · exact ((hwildcard atStart).append hbody).append (hwildcard atEnd)
  · exact readsBlind_anyRun

theorem readsBlind_alternatives {texts pieces : List (List Char)}
    (h : List.Forall₂ (fun text piece => convertAlternative true text = .ok piece) texts pieces)
    (hkeeps : RangesKeepCase (['|'].intercalate texts)) :
  ReadsBlind (['|'].intercalate pieces)
  := by
  induction h with
  | nil => exact .nil
  | @cons text piece _ _ hpiece hrest ih =>
    cases hrest with
    | nil =>
      rw [List.intercalate_singleton] at hkeeps ⊢
      have hend : RangesKeepCase (text ++ []) := by rwa [List.append_nil]
      exact (readsBlind_of_convertAlternative hpiece (by simp) hend).1
    | cons =>
      rw [List.intercalate_cons_cons, List.append_assoc] at hkeeps
      obtain ⟨hfirst, hothers⟩ := readsBlind_of_convertAlternative hpiece (by simp) hkeeps
      rw [RangesKeepCase, List.singleton_append, bracketsFrom_ordinary (by decide)] at hothers
      rw [List.intercalate_cons_cons]
      exact (hfirst.append .bar).append (ih hothers)

/-- A pattern that ignores case does not tell terms that are the same but for the case of letters,
if the ranges in its brackets keep case. -/
theorem matches_iff_of_toLower {pattern engine : String} (h : toEngine pattern true = .ok engine)
    (hkeeps : RangesKeepCase pattern.toList) {term other : String}
    (hterms : term.toList.map Char.toLower = other.toList.map Char.toLower) :
  Dialect.Matches engine term ↔ Dialect.Matches engine other
  := by
  obtain ⟨pieces, hpieces, -, hengine⟩ := toEngine_inv h
  rw [← intercalate_alternatives pattern.toList] at hkeeps
  have hblind := readsBlind_alternatives hpieces hkeeps
  rw [← hengine] at hblind
  constructor
  · rintro ⟨expr, hread, hterm⟩
    exact ⟨expr, hread, hblind.ignoresCase hread _ _ hterms hterm⟩
  · rintro ⟨expr, hread, hother⟩
    exact ⟨expr, hread, hblind.ignoresCase hread _ _ hterms.symm hother⟩

/-- Ranges of letters and of all signs in brackets, a named group, a class and counts. -/
theorem matches_iff_of_toLower_tagged :
  toEngine "^[^0-9b-f\\]]\x7b2\x7d(?<n>\\d|x[ -~A-z])$|yz" true
      = .ok "[^0-9b-fB-F\\]]\x7b2\x7d([0-9]|[xX][ -~A-z])|.*[yY][zZ].*"
    ∧ RangesKeepCase "^[^0-9b-f\\]]\x7b2\x7d(?<n>\\d|x[ -~A-z])$|yz".toList
    ∧ "aGX~".toList.map Char.toLower = "Agx~".toList.map Char.toLower
    ∧ (Dialect.Matches "[^0-9b-fB-F\\]]\x7b2\x7d([0-9]|[xX][ -~A-z])|.*[yY][zZ].*" "aGX~"
      ↔ Dialect.Matches "[^0-9b-fB-F\\]]\x7b2\x7d([0-9]|[xX][ -~A-z])|.*[yY][zZ].*" "Agx~")
  := by
  have h : toEngine "^[^0-9b-f\\]]\x7b2\x7d(?<n>\\d|x[ -~A-z])$|yz" true
      = .ok "[^0-9b-fB-F\\]]\x7b2\x7d([0-9]|[xX][ -~A-z])|.*[yY][zZ].*" := by
    decide +kernel
  have hkeeps : RangesKeepCase "^[^0-9b-f\\]]\x7b2\x7d(?<n>\\d|x[ -~A-z])$|yz".toList := by
    decide +kernel
  have hterms : "aGX~".toList.map Char.toLower = "Agx~".toList.map Char.toLower := by
    decide
  exact ⟨h, hkeeps, hterms, matches_iff_of_toLower h hkeeps hterms⟩

/-! ### Ranges that do not keep case -/

/-- A text that is read as one class matches the members of the class. -/
theorem matches_class_iff {engine term : String} {cls : Dialect.Class}
    (h : Dialect.read? engine.toList = some (.sequence (.one cls) .empty)) :
  Dialect.Matches engine term ↔ ∃ c, cls.has c = true ∧ term.toList = [c]
  := by
  have hlanguage : term.toList ∈ (Dialect.Expr.sequence (.one cls) .empty).language
      ↔ ∃ c, cls.has c = true ∧ term.toList = [c] := by
    rw [Dialect.Expr.language, Dialect.Expr.language, Dialect.Expr.language, mul_one]
    rfl
  rw [← hlanguage]
  constructor
  · rintro ⟨expr, hexpr, hterm⟩
    rwa [Option.some.inj (h.symm.trans hexpr)]
  · exact fun hterm => ⟨_, h, hterm⟩

/-- A range between letters of different cases is left as it is. -/
theorem toEngine_mixedRange :
  toEngine "^[B-z]$" true = .ok "[B-z]"
    ∧ "a".toList.map Char.toLower = "A".toList.map Char.toLower
    ∧ Dialect.Matches "[B-z]" "a" ∧ ¬ Dialect.Matches "[B-z]" "A"
  := by
  have hread : Dialect.read? "[B-z]".toList
      = some (.sequence (.one (.mk false [('B', 'z')])) .empty) := by
    decide +kernel
  rw [matches_class_iff hread, matches_class_iff hread]
  refine ⟨by decide +kernel, by decide, ⟨'a', by decide, rfl⟩, ?_⟩
  rintro ⟨c, hc, heq⟩
  cases heq
  exact absurd hc (by decide)

/-- A range from a letter to another character begins with the letter in the other case. -/
theorem toEngine_letterRange :
  toEngine "^[A-~]$" true = .ok "[Aa-~]"
    ∧ "b".toList.map Char.toLower = "B".toList.map Char.toLower
    ∧ Dialect.Matches "[Aa-~]" "b" ∧ ¬ Dialect.Matches "[Aa-~]" "B"
  := by
  have hread : Dialect.read? "[Aa-~]".toList
      = some (.sequence (.one (.mk false [('A', 'A'), ('a', '~')])) .empty) := by
    decide +kernel
  rw [matches_class_iff hread, matches_class_iff hread]
  refine ⟨by decide +kernel, by decide, ⟨'b', by decide, rfl⟩, ?_⟩
  rintro ⟨c, hc, heq⟩
  cases heq
  exact absurd hc (by decide)

end Sift.Pattern
