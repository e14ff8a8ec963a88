import Mathlib.Data.List.TakeWhile
import Mathlib.Tactic.Use
import Sift.Number.Decimal

/-!
# Reading numbers back

The text of a finite number is a sign, digits, and perhaps a point and more digits, and the number
nearest to what they say is the number again (`Number.exists_text_eq`), up to the sign of zero.
That rests on `rank_shortest` and on the fact that rounding looks at a ratio only
(`rankOfRatio_congr`).
-/

namespace Sift

-- Powers of naturals are those of the core library, whichever others are in scope.
attribute [local instance (high)] instPowNat

namespace Number

/-! ### Rounding a ratio -/

theorem roundQuotient_mul_mul {k num den : Nat} (hk : 0 < k) :
  roundQuotient (k * num) (k * den) = roundQuotient num den
  := by
  have hlow : 2 * (k * (num % den)) < k * den ↔ 2 * (num % den) < den := by
    rw [Nat.mul_left_comm, Nat.mul_lt_mul_left hk]
  have hhigh : k * den < 2 * (k * (num % den)) ↔ den < 2 * (num % den) := by
    rw [Nat.mul_left_comm, Nat.mul_lt_mul_left hk]
  simp only [roundQuotient, Nat.mul_div_mul_left _ _ hk, Nat.mul_mod_mul_left, hlow, hhigh]

theorem rankOfRatio_mul_mul {k num den : Nat} (hk : 0 < k) :
  rankOfRatio (k * num) (k * den) = rankOfRatio num den
  := by
  simp only [rankOfRatio, Nat.mul_assoc, Nat.mul_div_mul_left _ _ hk, roundQuotient_mul_mul hk]

/-- Equal ratios are rounded to the same magnitude. -/
theorem rankOfRatio_congr {num den num' den' : Nat} (hden : 0 < den) (hden' : 0 < den')
    (h : num * den' = num' * den) :
  rankOfRatio num den = rankOfRatio num' den'
  := by
  calc rankOfRatio num den
      = rankOfRatio (den' * num) (den' * den) := (rankOfRatio_mul_mul hden').symm
    _ = rankOfRatio (den * num') (den * den') := by
        rw [Nat.mul_comm den' num, h, Nat.mul_comm num' den, Nat.mul_comm den' den]
    _ = rankOfRatio num' den' := rankOfRatio_mul_mul hden

theorem rankOfRatio_zero (den : Nat) :
  rankOfRatio 0 den = 0
  := by
  simp [rankOfRatio, roundQuotient]

theorem ofRatio_negative (negative : Bool) (num den : Nat) :
  (ofRatio negative num den).negative = negative
  := rfl

theorem ofRatio_rank (negative : Bool) (num den : Nat) :
  (ofRatio negative num den).rank = rankOfRatio num den
  := rfl

/-! ### Digits -/

/-- Digits behind a point, with the point. -/
def pointed : List Char → List Char
  | [] => []
  | c :: fraction => '.' :: c :: fraction

theorem digitsValue_append_zeros (cs : List Char) (k : Nat) :
  digitsValue (cs ++ List.replicate k '0') = 10 ^ k * digitsValue cs
  := by
  apply Eq.trans (Nat.ofDigitChars_append (b := 10) 0)
  apply Nat.ofDigitChars_replicate_zero

theorem digitsValue_zeros_append (cs : List Char) (k : Nat) :
  digitsValue (List.replicate k '0' ++ cs) = digitsValue cs
  := by
  apply Eq.trans (Nat.ofDigitChars_append (b := 10) 0)
  rw [Nat.ofDigitChars_replicate_zero, Nat.mul_zero]
  rfl

theorem digitsValue_toDigits (n : Nat) :
  digitsValue (Nat.toDigits 10 n) = n
  := Nat.ofDigitChars_ten_toDigits

end Number

namespace Decimal

theorem exists_eq_dropZeros_append (cs : List Char) :
  ∃ k, cs = dropZeros cs ++ List.replicate k '0'
  := by
  use (cs.reverse.takeWhile (· = '0')).length
  have hzeros : cs.reverse.takeWhile (· = '0')
      = List.replicate (cs.reverse.takeWhile (· = '0')).length '0' := by
    apply List.eq_replicate_of_mem
    intro c hc
    simpa using List.mem_takeWhile_imp hc
  have hsplit := congrArg List.reverse
    (List.takeWhile_append_dropWhile (p := (· = '0')) (l := cs.reverse))
  rw [List.reverse_append, List.reverse_reverse] at hsplit
  rw [← List.reverse_replicate, ← hzeros]
  exact hsplit.symm

theorem isDigit_of_mem_zeros {k : Nat} :
  ∀ c ∈ List.replicate k '0', c.isDigit = true
  := by
  intro c hc
  rw [List.eq_of_mem_replicate hc]
  rfl

theorem isDigit_of_mem_digits {n : Nat} :
  ∀ c ∈ Nat.toDigits 10 n, c.isDigit = true
  := by
  intro c hc
  apply Nat.isDigit_of_mem_toDigits _ _ hc
  · decide
  · decide

/-- A text that reads as a decimal: digits, and perhaps a point and more digits. -/
def ReadsAs (d : Decimal) (text : List Char) : Prop :=
  ∃ whole fraction, text = whole ++ Number.pointed fraction ∧ whole ≠ []
    ∧ (∀ c ∈ whole ++ fraction, c.isDigit = true)
    ∧ Number.rankOfRatio (Number.digitsValue (whole ++ fraction)) (10 ^ fraction.length) = d.rank

/-- Zeros behind the digits stand for a positive exponent. -/
theorem readsAs_append_zeros {d : Decimal} (h : 0 ≤ d.exponent) :
  d.ReadsAs (Nat.toDigits 10 d.digits ++ List.replicate d.exponent.toNat '0')
  := by
  use Nat.toDigits 10 d.digits ++ List.replicate d.exponent.toNat '0', []
  refine ⟨?_, ?_, ?_, ?_⟩
  · simp [Number.pointed]
  · simp [Nat.toDigits_ne_nil]
  · rw [List.append_nil, List.forall_mem_append]
    exact ⟨isDigit_of_mem_digits, isDigit_of_mem_zeros⟩
  · have hden : (-d.exponent).toNat = 0 := by omega
    rw [List.append_nil, Number.digitsValue_append_zeros, Number.digitsValue_toDigits, rank, hden,
      Nat.mul_comm]
    rfl

/-- A point among the digits stands for a negative exponent, and idle zeros behind it make no
difference. -/
theorem readsAs_pointed {d : Decimal} {whole behind : List Char} (h : ¬0 ≤ d.exponent)
    (hne : whole ≠ []) (hdigits : ∀ c ∈ whole ++ behind, c.isDigit = true)
    (hvalue : Number.digitsValue (whole ++ behind) = d.digits)
    (hplaces : behind.length = (-d.exponent).toNat) :
  d.ReadsAs (whole ++ Number.pointed (dropZeros behind))
  := by
  obtain ⟨k, hk⟩ := exists_eq_dropZeros_append behind
  have hlength : (dropZeros behind).length + k = (-d.exponent).toNat := by
    have hlength := congrArg List.length hk
    rw [List.length_append, List.length_replicate] at hlength
    omega
  have hsplit : whole ++ behind = whole ++ dropZeros behind ++ List.replicate k '0' := by
    rw [List.append_assoc, ← hk]
  rw [hsplit] at hdigits hvalue
  rw [Number.digitsValue_append_zeros] at hvalue
  use whole, dropZeros behind, rfl, hne
  constructor
  · exact (List.forall_mem_append.1 hdigits).1
  · have hnum : d.exponent.toNat = 0 := by omega
    have hpow (n : Nat) : 0 < 10 ^ n := Nat.pow_pos (by decide)
    rw [rank, hnum, Nat.pow_zero, Nat.mul_one, ← hlength, ← hvalue]
    apply Number.rankOfRatio_congr (hpow _) (hpow _)
    rw [Nat.pow_add]
    ac_rfl

/-- The text of a decimal reads as it. -/
theorem readsAs_text (d : Decimal) :
  d.ReadsAs d.text
  := by
  by_cases hexp : 0 ≤ d.exponent
  · rw [text]
    simp only [hexp, if_true]
    exact readsAs_append_zeros hexp
  · obtain ⟨padded, hpadded⟩ : ∃ padded, padded = List.replicate
        ((-d.exponent).toNat + 1 - (Nat.toDigits 10 d.digits).length) '0'
        ++ Nat.toDigits 10 d.digits := ⟨_, rfl⟩
    have hlength : (-d.exponent).toNat < padded.length := by
      rw [hpadded, List.length_append, List.length_replicate]
      omega
    have hsplit := List.take_append_drop (padded.length - (-d.exponent).toNat) padded
    have hread : d.ReadsAs (padded.take (padded.length - (-d.exponent).toNat)
        ++ Number.pointed (dropZeros (padded.drop (padded.length - (-d.exponent).toNat)))) := by
      apply readsAs_pointed hexp
      · intro hnil
        have h := congrArg List.length hnil
        rw [List.length_take, List.length_nil] at h
        omega
      · rw [hsplit, hpadded, List.forall_mem_append]
        exact ⟨isDigit_of_mem_zeros, isDigit_of_mem_digits⟩
      · rw [hsplit, hpadded, Number.digitsValue_zeros_append, Number.digitsValue_toDigits]
      · rw [List.length_drop]
        omega
    rw [text]
    simp only [hexp, if_false, ← hpadded]
    split
    case h_1 hnone =>
      rw [hnone, Number.pointed, List.append_nil] at hread
      exact hread
    case h_2 fraction hne =>
      cases hfraction : dropZeros (padded.drop (padded.length - (-d.exponent).toNat)) with
      | nil => exact absurd hfraction hne
      | cons =>
        rw [hfraction] at hread
        exact hread

end Decimal

namespace Number

theorem ofDigits_eq (negative : Bool) (whole fraction : List Char) :
  ofDigits negative whole fraction
    = ofRatio negative (digitsValue (whole ++ fraction)) (10 ^ fraction.length)
  := by
  have hnum : (-(fraction.length : Int)).toNat = 0 := by omega
  have hden : (-(-(fraction.length : Int))).toNat = fraction.length := by omega
  rw [ofDigits, ofDecimal, hnum, hden, Nat.pow_zero, Nat.mul_one]

/-- The text of a finite number is a sign, digits, and perhaps a point and more digits, and reads
back as the number, where zero has lost its sign. -/
theorem exists_text_eq {x : Number} (hx : x.isFinite = true) :
  ∃ negative whole fraction,
    x.text.toList = (if negative then ['-'] else []) ++ whole ++ pointed fraction ∧ whole ≠ []
    ∧ (∀ c ∈ whole ++ fraction, c.isDigit = true)
    ∧ ofDigits negative whole fraction = x.unsignZero
  := by
  by_cases hzero : x.isZero = true
  · use false, ['0'], []
    refine ⟨?_, ?_, ?_, ?_⟩
    · simp [text, hzero, pointed]
    · simp
    · exact List.all_eq_true.1 rfl
    · have hrank : x.rank = 0 := by simpa [isZero] using hzero
      have hvalue : digitsValue (['0'] ++ []) = 0 := rfl
      rw [unsignZero, if_pos hzero, ofDigits_eq, hvalue]
      ext
      · rfl
      · rw [ofRatio_rank, rankOfRatio_zero, hrank]
  · obtain ⟨whole, fraction, htext, hne, hdigits, hrank⟩ := (shortest x.rank).readsAs_text
    use x.negative, whole, fraction
    refine ⟨?_, hne, hdigits, ?_⟩
    · cases hneg : x.negative with
      | false => simp [text, hzero, hx, hneg, htext]
      | true => simp [text, hzero, hx, hneg, htext]
    · rw [ofDigits_eq, unsignZero, if_neg hzero]
      ext
      · exact ofRatio_negative ..
      · rw [ofRatio_rank, hrank, rank_shortest x.rank_le]

/-- The text of a finite number shows at its beginning that it is one. -/
theorem exists_text_eq_cons {x : Number} (hx : x.isFinite = true) :
  ∃ c cs, x.text.toList = c :: cs ∧ (c = '-' ∨ c.isDigit = true)
  := by
  obtain ⟨negative, whole, fraction, htext, hne, hdigits, -⟩ := exists_text_eq hx
  cases negative with
  | true => exact ⟨'-', _, htext, .inl rfl⟩
  | false =>
    cases whole with
    | nil => exact absurd rfl hne
    | cons c whole => exact ⟨c, _, htext, .inr (hdigits c (by simp))⟩

end Number

end Sift
