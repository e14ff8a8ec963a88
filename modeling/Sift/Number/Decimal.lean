import Sift.Number.Basic

/-!
# Decimal text of numbers

Reading: `Number.ofDigits` rounds a decimal of any length to the nearest number. Writing:
`Number.text` prints the shortest decimal that reads back, without an exponent;
`rank_shortest` says that it does read back.
-/

namespace Sift

-- Powers of naturals are those of the core library, whichever others are in scope.
attribute [local instance (high)] instPowNat

/-- The decimal `digits * 10 ^ exponent`. -/
structure Decimal where
  digits : Nat
  exponent : Int
deriving DecidableEq

namespace Decimal

/-- The rank of the magnitude nearest to a decimal. -/
def rank (d : Decimal) : Nat :=
  Number.rankOfRatio (d.digits * 10 ^ d.exponent.toNat) (10 ^ (-d.exponent).toNat)

/-- The characters without the zeros at their end. -/
def dropZeros (cs : List Char) : List Char :=
  (cs.reverse.dropWhile (· = '0')).reverse

/-- The decimal written with a point in place of an exponent, without idle zeros behind the
point. -/
def text (d : Decimal) : List Char :=
  let digits := Nat.toDigits 10 d.digits
  if 0 ≤ d.exponent then digits ++ List.replicate d.exponent.toNat '0'
  else
    let places := (-d.exponent).toNat
    let padded := List.replicate (places + 1 - digits.length) '0' ++ digits
    let whole := padded.take (padded.length - places)
    match dropZeros (padded.drop (padded.length - places)) with
    | [] => whole
    | fraction => whole ++ '.' :: fraction

end Decimal

namespace Number

/-! ### Reading -/

/-- The natural written by a text of decimal digits. -/
def digitsValue (cs : List Char) : Nat :=
  cs.foldl (fun n c => 10 * n + (c.toNat - 48)) 0

/-- The number nearest to the decimal with the given digits before and behind its point. -/
def ofDigits (negative : Bool) (whole fraction : List Char) : Number :=
  ofDecimal negative (digitsValue (whole ++ fraction)) (-fraction.length)

/-! ### Writing -/

/-- The number of decimal digits of a natural. -/
def digitCount (n : Nat) : Nat :=
  (Nat.toDigits 10 n).length

/-- The least power of ten above a magnitude that is not zero, as an exponent. -/
def leadingPosition (magnitude : Nat) : Int :=
  if unit ≤ magnitude then digitCount (magnitude / unit)
  else 1 - digitCount ((unit - 1) / magnitude)

/-- The two multiples of `10 ^ exponent` that are neighbours of a magnitude, the nearer first
and of two equally near ones the upper. -/
def neighbours (rank : Nat) (exponent : Int) : List Decimal :=
  let num := magnitudeOf rank * 10 ^ (-exponent).toNat
  let den := unit * 10 ^ exponent.toNat
  let below : Decimal := ⟨num / den, exponent⟩
  let above : Decimal := ⟨num / den + 1, exponent⟩
  if den ≤ 2 * (num % den) then [above, below] else [below, above]

/-- The nearest multiple of `10 ^ exponent` that reads back as a magnitude. -/
def onGrid? (rank : Nat) (exponent : Int) : Option Decimal :=
  (neighbours rank exponent).find? fun d => d.rank = rank

/-- All digits of a magnitude. -/
def allDigits (rank : Nat) : Decimal :=
  ⟨magnitudeOf rank * 5 ^ unitHalvings, -unitHalvings⟩

/-- The decimal with the fewest digits that reads back as a magnitude, the nearest of those. -/
def shortest (rank : Nat) : Decimal :=
  let position := leadingPosition (magnitudeOf rank)
  ((List.range 17).findSome? fun n : Nat => onGrid? rank (position - (n + 1))).getD (allDigits rank)

/-- The text of a number: the shortest decimal that reads back, without an exponent. Zero has
no sign. -/
def text (x : Number) : String :=
  let magnitude :=
    if x.isZero then ['0']
    else if x.isFinite then (shortest x.rank).text
    else ['i', 'n', 'f']
  String.ofList (if x.negative && !x.isZero then '-' :: magnitude else magnitude)

/-! ### Reading back -/

theorem rank_of_onGrid? {rank : Nat} {exponent : Int} {d : Decimal}
    (h : onGrid? rank exponent = some d) :
  d.rank = rank
  := by
  have := List.find?_some h
  simpa only [decide_eq_true_eq] using this

theorem rank_allDigits {rank : Nat} (h : rank ≤ infiniteRank) :
  (allDigits rank).rank = rank
  := by
  unfold allDigits Decimal.rank
  have h1 : (-(unitHalvings : Int)).toNat = 0 := by omega
  have h2 : (-(-(unitHalvings : Int))).toNat = unitHalvings := by omega
  simp only [h1, h2, Nat.pow_zero, Nat.mul_one]
  apply rankOfRatio_magnitudeOf (Nat.pow_pos (by decide)) h
  rw [unit, Nat.mul_assoc, ← Nat.mul_pow]

/-- The shortest decimal of a magnitude reads back as it. -/
theorem rank_shortest {rank : Nat} (h : rank ≤ infiniteRank) :
  (shortest rank).rank = rank
  := by
  simp only [shortest]
  generalize hf : List.findSome? _ _ = found
  cases found with
  | none => exact rank_allDigits h
  | some d =>
    obtain ⟨n, -, hn⟩ := List.exists_of_findSome?_eq_some hf
    exact rank_of_onGrid? hn

end Number

end Sift
