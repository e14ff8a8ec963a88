/-!
# Ranges of characters

A class of characters is a list of ranges of code points, `Ranges`; `Ranges.has` tests
membership. `Ranges.union`, `Ranges.inter`, … work on classes whose ranges ascend and do not
touch, and give such classes again.
-/

namespace Sift.Text

/-- A class of characters, as ranges of code points with both ends included. -/
abbrev Ranges : Type := List (Nat × Nat)

namespace Ranges

/-- Whether the code point of `c` lies in one of the ranges. -/
def has (ranges : Ranges) (c : Char) : Bool :=
  ranges.any fun range => range.1 ≤ c.toNat && c.toNat ≤ range.2

theorem has_iff {ranges : Ranges} {c : Char} :
  ranges.has c = true ↔ ∃ range ∈ ranges, range.1 ≤ c.toNat ∧ c.toNat ≤ range.2
  := by
  simp [has]

/-! ### Sets of characters -/

/-- The greatest code point. -/
def greatest : Nat := 0x10FFFF

/-- The ranges of two classes in the order of their first characters; `fuel` bounds their
number. -/
def merge : Nat → Ranges → Ranges → Ranges
  | 0, _, _ => []
  | _ + 1, [], b => b
  | _ + 1, a, [] => a
  | fuel + 1, r :: a, s :: b =>
    if r.1 ≤ s.1 then r :: merge fuel a (s :: b) else s :: merge fuel (r :: a) b

/-- Some ranges in the order of their first characters, made into one where they touch. The range
`low` to `high` comes before them. -/
def joinFrom (low high : Nat) : Ranges → Ranges
  | [] => [(low, high)]
  | r :: rest =>
    if r.1 ≤ high + 1 then joinFrom low (max high r.2) rest
    else (low, high) :: joinFrom r.1 r.2 rest

/-- Some ranges in the order of their first characters, made into one where they touch. -/
def join : Ranges → Ranges
  | [] => []
  | r :: rest => joinFrom r.1 r.2 rest

/-- The characters of either class. -/
def union (a b : Ranges) : Ranges :=
  join (merge (a.length + b.length + 1) a b)

/-- The code points from `first` on that are in none of the ranges. -/
def gapsFrom (first : Nat) : Ranges → Ranges
  | [] => if first ≤ greatest then [(first, greatest)] else []
  | r :: rest =>
    if first < r.1 then (first, r.1 - 1) :: gapsFrom (r.2 + 1) rest else gapsFrom (r.2 + 1) rest

/-- The characters that are not in a class. -/
def complement (a : Ranges) : Ranges :=
  gapsFrom 0 a

/-- The characters of both classes. -/
def inter (a b : Ranges) : Ranges :=
  (a.complement.union b.complement).complement

/-- The characters of the first class that are not in the second. -/
def diff (a b : Ranges) : Ranges :=
  a.inter b.complement

/-- The characters of just one of two classes. -/
def symmDiff (a b : Ranges) : Ranges :=
  (a.union b).diff (a.inter b)

end Ranges

end Sift.Text
