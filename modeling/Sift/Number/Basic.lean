/-!
# Numbers

`Number` holds the numbers of double precision: a sign, and the rank of the magnitude among all
magnitudes in increasing order. Rank `0` is zero, rank `Number.infiniteRank` is infinity, and in
between the magnitude is `significand * 2 ^ shift` times the least positive one, which is
`1 / Number.unit`. `rankOfRatio` rounds a ratio of naturals to the nearest magnitude, the even
rank winning a tie; `rankOfRatio_significand` says that it leaves a magnitude as it is.
-/

namespace Sift

-- Powers of naturals are those of the core library, whichever others are in scope.
attribute [local instance (high)] instPowNat

/-- The number of bits of a significand behind the leading one. -/
def trailingBits : Nat := 52

/-- The rank of the infinite magnitude. -/
def infiniteRank : Nat := 2047 * 2 ^ trailingBits

/-- A number of double precision, given by its sign and the rank of its magnitude. -/
@[ext]
structure Number where
  negative : Bool
  rank : Nat
  rank_le : rank ≤ infiniteRank
deriving DecidableEq

namespace Number

/-- The number of halvings of one that give the least positive magnitude. -/
@[irreducible]
def unitHalvings : Nat := 1074

/-- How many of the least positive magnitudes make one. -/
def unit : Nat := 2 ^ unitHalvings

/-- The number of doublings in the magnitude of a rank. -/
def shiftOf (rank : Nat) : Nat :=
  rank / 2 ^ trailingBits - 1

/-- The whole number that is doubled `shiftOf rank` times. -/
def significandOf (rank : Nat) : Nat :=
  rank - shiftOf rank * 2 ^ trailingBits

/-- The magnitude of a rank, counted in the least positive one. -/
def magnitudeOf (rank : Nat) : Nat :=
  significandOf rank * 2 ^ shiftOf rank

/-- The quotient rounded to the nearest natural, the even one winning a tie. -/
def roundQuotient (num den : Nat) : Nat :=
  let low := num / den
  let rest := num % den
  if 2 * rest < den then low
  else if den < 2 * rest then low + 1
  else if low % 2 = 0 then low else low + 1

/-- The rank of the magnitude nearest to `num / den`, the even one winning a tie. -/
def rankOfRatio (num den : Nat) : Nat :=
  let scaled := num * unit
  let shift := Nat.log2 (scaled / den) - trailingBits
  min (shift * 2 ^ trailingBits + roundQuotient scaled (den * 2 ^ shift)) infiniteRank

/-- The number of the given sign whose magnitude is nearest to `num / den`. -/
def ofRatio (negative : Bool) (num den : Nat) : Number where
  negative
  rank := rankOfRatio num den
  rank_le := by exact Nat.min_le_right ..

/-- The number of the given sign whose magnitude is nearest to `digits * 10 ^ exponent`. -/
def ofDecimal (negative : Bool) (digits : Nat) (exponent : Int) : Number :=
  ofRatio negative (digits * 10 ^ exponent.toNat) (10 ^ (-exponent).toNat)

/-- The number of a natural. -/
def ofNat (n : Nat) : Number :=
  ofRatio false n 1

/-- The product of two finite numbers, rounded to the nearest number. -/
def times (x y : Number) : Number :=
  ofRatio (x.negative != y.negative) (magnitudeOf x.rank * magnitudeOf y.rank) (unit * unit)

/-- The quotient of two finite numbers, of which the second is not zero, rounded to the nearest
number. -/
def dividedBy (x y : Number) : Number :=
  ofRatio (x.negative != y.negative) (magnitudeOf x.rank) (magnitudeOf y.rank)

/-- Whether a number is not infinite. -/
def isFinite (x : Number) : Bool :=
  x.rank < infiniteRank

/-- Whether a number is zero, of either sign. -/
def isZero (x : Number) : Bool :=
  x.rank = 0

/-- The number, where zero has lost its sign. -/
def unsignZero (x : Number) : Number :=
  if x.isZero then { x with negative := false } else x

/-! ### Rounding -/

theorem roundQuotient_mul {k den : Nat} (h : 0 < den) :
  roundQuotient (k * den) den = k
  := by
  simp [roundQuotient, Nat.mul_div_cancel _ h, h]

theorem rank_eq (rank : Nat) :
  rank = shiftOf rank * 2 ^ trailingBits + significandOf rank
  := by
  unfold significandOf shiftOf trailingBits
  omega

theorem significandOf_lt (rank : Nat) :
  significandOf rank < 2 ^ (trailingBits + 1)
  := by
  unfold significandOf shiftOf trailingBits
  omega

theorem shiftOf_eq_zero_or (rank : Nat) :
  shiftOf rank = 0 ∨ 2 ^ trailingBits ≤ significandOf rank
  := by
  unfold significandOf shiftOf trailingBits
  omega

/-- The number of doublings is what brings the significand below `2 ^ (trailingBits + 1)`. -/
theorem log2_magnitudeOf (rank : Nat) :
  Nat.log2 (magnitudeOf rank) - trailingBits = shiftOf rank
  := by
  unfold magnitudeOf
  have hlt := significandOf_lt rank
  rcases shiftOf_eq_zero_or rank with hs | hs
  · rw [hs, Nat.pow_zero, Nat.mul_one]
    by_cases h0 : significandOf rank = 0
    · simp [h0]
    · have := (Nat.log2_lt h0).2 hlt
      omega
  · have h0 : significandOf rank ≠ 0 := by omega
    have h1 := (Nat.log2_lt h0).2 hlt
    have h2 := (Nat.le_log2 h0).2 hs
    have h3 : Nat.log2 (significandOf rank * 2 ^ shiftOf rank)
        = Nat.log2 (significandOf rank) + shiftOf rank := by
      have hne : significandOf rank * 2 ^ shiftOf rank ≠ 0 :=
        Nat.mul_ne_zero h0 (Nat.ne_of_gt (Nat.pow_pos (by decide)))
      apply Nat.le_antisymm
      · have : Nat.log2 (significandOf rank * 2 ^ shiftOf rank)
            < Nat.log2 (significandOf rank) + 1 + shiftOf rank := by
          rw [Nat.log2_lt hne, Nat.pow_add]
          exact Nat.mul_lt_mul_of_pos_right Nat.lt_log2_self (Nat.pow_pos (by decide))
        omega
      · rw [Nat.le_log2 hne, Nat.pow_add]
        exact Nat.mul_le_mul_right _ (Nat.log2_self_le h0)
    omega

/-- A ratio that is a magnitude is rounded to it. -/
theorem rankOfRatio_magnitudeOf {num den rank : Nat} (hden : 0 < den)
    (hrank : rank ≤ infiniteRank) (h : num * unit = magnitudeOf rank * den) :
  rankOfRatio num den = rank
  := by
  unfold rankOfRatio
  simp only [h, Nat.mul_div_cancel _ hden, log2_magnitudeOf]
  have : magnitudeOf rank * den = significandOf rank * (den * 2 ^ shiftOf rank) := by
    unfold magnitudeOf
    rw [Nat.mul_assoc, Nat.mul_comm (2 ^ _)]
  rw [this, roundQuotient_mul (Nat.mul_pos hden (Nat.pow_pos (by decide))), ← rank_eq]
  exact Nat.min_eq_left hrank

end Number

end Sift
