import Sift.Proofs.Query.RoundTrip
import Sift.Proofs.Syntax.Completeness
import Sift.Proofs.Syntax.Parentheses
import Sift.Proofs.Syntax.Transparent

/-!
# Reading without looking at the delimiters first

A text that spells a query closes every literal and every parenthesis that it opens, so the check of
its delimiters finds nothing (`checkDelimiters_of_parseDelimited`): reading without the check gives
the same trees. What the check finds is the first parenthesis that is to blame.
-/

namespace Sift

namespace Query

/-- Reads the text of a query without looking at its delimiters first. -/
def parseUnchecked (schema : Schema) (s : String) : Except QueryError Query :=
  if (Text.trim s.toList).isEmpty then .ok everything else parseDelimited schema s.toList

theorem parseDelimited_eq_ok_iff {schema : Schema} {cs : List Char} {q : Query} :
  parseDelimited schema cs = .ok q
    ↔ ∃ found, Syntax.sentence cs = .ok found ∧ found.toQuery schema (Text.trim cs) = .ok q
  := by
  rw [parseDelimited]
  cases Syntax.sentence cs with
  | error trace => simp
  | ok found => simp

/-- The delimiters of a text that is read as a tree are in order. -/
theorem checkDelimiters_of_parseDelimited {schema : Schema} {cs : List Char} {q : Query}
    (h : parseDelimited schema cs = .ok q) :
  Syntax.checkDelimiters cs = .ok ()
  := by
  obtain ⟨found, hfound, hq⟩ := parseDelimited_eq_ok_iff.1 h
  exact (Syntax.spelled_of_sentence hfound hq).transparent.checkDelimiters

theorem parseChars_eq_ok_iff {schema : Schema} {cs : List Char} {q : Query} :
  parseChars schema cs = .ok q
    ↔ if (Text.trim cs).isEmpty then q = everything else parseDelimited schema cs = .ok q
  := by
  rw [parseChars]
  split
  · rw [Except.ok.injEq, eq_comm]
  · constructor
    · intro h
      split at h
      · cases h
      · exact h
    · intro h
      rw [checkDelimiters_of_parseDelimited h]
      exact h

/-- The check of the delimiters rejects nothing that could be read: what has a fault is rejected
without the check, too, and what is read without it is read with it as the same tree. Where all
literals are closed, it finds an unmatched parenthesis if and only if the parentheses outside them
are not balanced, and then it finds the first closing one without a partner, or else the leftmost
opening one that is never closed. -/
theorem checkDelimiters_precise (schema : Schema) (s : String) :
  (∀ fault, Syntax.checkDelimiters s.toList = .error fault →
      ∃ e, parseDelimited schema s.toList = .error e)
    ∧ (∀ q, parse schema s = .ok q ↔ parseUnchecked schema s = .ok q)
    ∧ ∀ parens, Syntax.HasParens 0 s.toList parens →
      ((∃ place, Syntax.checkDelimiters s.toList = .error (.unmatched place))
        ↔ ¬Syntax.Balanced parens)
      ∧ ∀ place, Syntax.checkDelimiters s.toList = .error (.unmatched place)
        ↔ Syntax.FirstUnmatched parens place
  := by
  refine ⟨?_, ?_, ?_⟩
  · intro fault hfault
    cases h : parseDelimited schema s.toList with
    | error e => exact ⟨e, rfl⟩
    | ok q =>
      rw [checkDelimiters_of_parseDelimited h] at hfault
      cases hfault
  · intro q
    rw [parse, parseChars_eq_ok_iff, parseUnchecked]
    split
    · rw [Except.ok.injEq, eq_comm]
    · rfl
  · intro parens hparens
    refine ⟨Syntax.exists_unmatched_iff hparens, ?_⟩
    intro place
    exact Syntax.checkDelimiters_eq_unmatched_iff hparens

/-- Parentheses and quotes in literals count for nothing, and places are counted in bytes. -/
theorem checkDelimiters_precise_people :
  ∃ parens, Syntax.HasParens 0 "é(\"\\\")\"))/(/(".toList parens
    ∧ ¬Syntax.Balanced parens ∧ Syntax.FirstUnmatched parens 9
    ∧ parse people "é(\"\\\")\"))/(/(" = .error (.unmatchedParen 9)
  := by
  have htext : "é(\"\\\")\"))/(/(".toList
      = ['é', '(', '"', '\\', '"', ')', '"', ')', ')', '/', '(', '/', '('] := by
    decide
  have hparens : Syntax.HasParens 0 "é(\"\\\")\"))/(/(".toList
      [⟨true, 2⟩, ⟨false, 8⟩, ⟨false, 9⟩, ⟨true, 13⟩] := by
    have hquoted : Syntax.LiteralBody (Syntax.endsLiteral '"') ['\\', '"', ')'] :=
      .escaped '"' (.plain (by decide) rfl .nil)
    have hregex : Syntax.LiteralBody (Syntax.endsLiteral '/') ['('] :=
      .plain (by decide) rfl .nil
    rw [htext]
    exact .plain rfl (.opening (.literal rfl hquoted (.closing (.closing
      (.literal rfl hregex (.opening .nil))))))
  have hcheck : Syntax.checkDelimiters "é(\"\\\")\"))/(/(".toList = .error (.unmatched 9) := by
    decide +kernel
  obtain ⟨-, -, hprecise⟩ := checkDelimiters_precise people "é(\"\\\")\"))/(/("
  obtain ⟨hbalanced, hplace⟩ := hprecise _ hparens
  refine ⟨_, hparens, hbalanced.1 ⟨9, hcheck⟩, (hplace 9).1 hcheck, ?_⟩
  decide +kernel

end Query

end Sift
