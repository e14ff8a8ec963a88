import Sift.Proofs.Clause.Wildcard
import Sift.Proofs.Pattern.Meaning

/-!
# What texts with wildcards match

`Like` says which terms a text with wildcards matches, character by character. The pattern that is
written for such a text matches exactly these terms, although the text is escaped twice, once as a
regular expression and once for the engine (`Pattern.matches_likePattern`).
-/

namespace Sift

open Pattern

/-- Whether a text with wildcards matches a term: `*` and `%` stand for any run of characters, `?`
and `_` for any single one, and all others for themselves but for the case of letters. -/
def Like : List Char → List Char → Prop
  | [], term => term = []
  | c :: rest, term =>
    if c = '*' ∨ c = '%' then ∃ behind, behind <:+ term ∧ Like rest behind
    else ∃ d behind, term = d :: behind ∧ (c = '?' ∨ c = '_' ∨ c.toLower = d.toLower)
      ∧ Like rest behind

/-- Whether a text matches a term is decided character by character. -/
instance Like.decidable : (text term : List Char) → Decidable (Like text term)
  | [], term => inferInstanceAs (Decidable (term = []))
  | c :: rest, term =>
    have hrest (behind : List Char) : Decidable (Like rest behind) := decidable rest behind
    if hrun : c = '*' ∨ c = '%' then
      decidable_of_iff (∃ behind ∈ term.tails, Like rest behind) (by simp [Like, hrun])
    else
      match term with
      | [] => isFalse (by simp [Like, hrun])
      | d :: behind =>
        decidable_of_iff ((c = '?' ∨ c = '_' ∨ c.toLower = d.toLower) ∧ Like rest behind)
          (by simp [Like, hrun])

namespace Regex

/-! ### Languages of wildcards -/

variable {c : Char} {rest term : List Char}

theorem mem_single_mul {kind : Char → Prop} {L : Language Char} :
  term ∈ single kind * L ↔ ∃ d behind, term = d :: behind ∧ kind d ∧ behind ∈ L
  := by
  rw [Language.mem_mul]
  constructor
  · rintro ⟨_, ⟨d, hd, rfl⟩, behind, hbehind, rfl⟩
    exact ⟨d, behind, rfl, hd, hbehind⟩
  · rintro ⟨d, behind, rfl, hd, hbehind⟩
    exact ⟨[d], ⟨d, hd, rfl⟩, behind, hbehind, rfl⟩

theorem language_wildcard_run (hrun : c = '*' ∨ c = '%') :
  quantified (wildcard c).2 ((wildcard c).1.language (fun _ => False) true)
    = repeated 0 none (single fun _ => True)
  := by
  rw [wildcard, dif_pos hrun]
  exact congrArg (repeated 0 none) (single_congr fun _ => iff_of_true not_false trivial)

theorem language_wildcard_char (hrun : ¬(c = '*' ∨ c = '%')) :
  quantified (wildcard c).2 ((wildcard c).1.language (fun _ => False) true)
    = single fun d => c = '?' ∨ c = '_' ∨ c.toLower = d.toLower
  := by
  have hsame (d : Char) : Same true c d ↔ c.toLower = d.toLower := by
    constructor
    · rintro (rfl | ⟨-, h⟩)
      · rfl
      · exact h
    · intro h
      exact .inr ⟨rfl, h⟩
  rw [wildcard, dif_neg hrun]
  by_cases hone : c = '?' ∨ c = '_'
  · rw [dif_pos hone]
    apply single_congr
    intro d
    exact iff_of_true not_false (or_assoc.mp (.inl hone))
  · rw [dif_neg hone]
    have hkind : single (Same true c)
        = single fun d => c = '?' ∨ c = '_' ∨ c.toLower = d.toLower := by
      apply single_congr
      intro d
      rw [hsame, ← or_assoc, or_iff_right hone]
    split <;> exact hkind

/-- The sequence for a text with wildcards has the terms that the text matches. -/
theorem mem_language_wildcards {text term : List Char} :
  term ∈ (wildcards text).language (fun _ => False) true ↔ Like text term
  := by
  induction text generalizing term with
  | nil => exact Language.mem_one term
  | cons c rest ih =>
    change term ∈ quantified (wildcard c).2 ((wildcard c).1.language (fun _ => False) true)
      * (wildcards rest).language (fun _ => False) true ↔ _
    rw [Like]
    by_cases hrun : c = '*' ∨ c = '%'
    · rw [if_pos hrun, language_wildcard_run hrun, Language.mem_mul]
      constructor
      · rintro ⟨before, -, behind, hbehind, rfl⟩
        exact ⟨behind, List.suffix_append before behind, ih.mp hbehind⟩
      · rintro ⟨behind, ⟨before, rfl⟩, hbehind⟩
        exact ⟨before, mem_anything before, behind, ih.mpr hbehind, rfl⟩
    · rw [if_neg hrun, language_wildcard_char hrun, mem_single_mul]
      simp only [ih]

end Regex

namespace Pattern

/-- The pattern of a text with wildcards is written for the engine, if it passes the syntax check,
as a pattern that matches exactly the terms that the text matches. -/
theorem matches_likePattern {text : String} (h : check (likePattern text.toList) = .ok ()) :
  ∃ pattern, toEngine (String.ofList (likePattern text.toList)) true = .ok pattern
    ∧ ∀ term : String, Dialect.Matches pattern term ↔ Like text.toList term.toList
  := by
  refine ⟨_, toEngine_likePattern_of_check h true, ?_⟩
  intro term
  have hparts := (Regex.wildcards text.toList).areParts_piece true
  rw [hparts.areAlternatives.matches_iff, Regex.mem_language_wildcards]

theorem matches_likePattern_marks :
  check (likePattern "a_%$|[/\"\\".toList) = .ok ()
    ∧ ∃ pattern, toEngine (String.ofList (likePattern "a_%$|[/\"\\".toList)) true = .ok pattern
      ∧ Dialect.Matches pattern "Ab?c$|[/\"\\" ∧ ¬ Dialect.Matches pattern "a$|[/\"\\\\"
  := by
  have hcheck : check (likePattern "a_%$|[/\"\\".toList) = .ok () := by
    rw [check_likePattern_iff]
    intro backward
    apply (wildcardsSize_le backward _).trans
    decide
  obtain ⟨pattern, hpattern, hmatches⟩ := matches_likePattern hcheck
  refine ⟨hcheck, pattern, hpattern, ?_, ?_⟩
  · rw [hmatches]
    decide +kernel
  · rw [hmatches]
    decide +kernel

end Pattern

end Sift
