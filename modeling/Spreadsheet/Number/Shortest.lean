import Spreadsheet.Number.Binary

/-!
# The shortest decimal of a double

Among the decimals that round to a given double, the one with the fewest digits is taken, and among
those the one nearest to the double; of two equally near ones, the larger.  The search tries the two
neighbours of the double on the grids of one, two, … seventeen digits, in exact arithmetic.
-/

namespace Spreadsheet.Number

/-- The decimal `digits · 10 ^ exponent`. -/
structure Decimal where
  digits : Nat
  exponent : Int
deriving DecidableEq

namespace Decimal

/-- Drop up to `fuel` zeros at the end of the digits. -/
def stripZeros : Nat → Decimal → Decimal
  | 0, d => d
  | fuel + 1, d =>
    if d.digits % 10 = 0 then stripZeros fuel ⟨d.digits / 10, d.exponent + 1⟩ else d

end Decimal

/-- The fraction `num / den · 10 ^ exponent` as a fraction of natural numbers. -/
def scaledTen (num den : Nat) (exponent : Int) : Nat × Nat :=
  if 0 ≤ exponent then (num * tenPow exponent.toNat, den)
  else (num, den * tenPow (-exponent).toNat)

/-- The decimals that round to `significand · 2 ^ exponent` lie between these two fractions, given
in quarters of the last bit.  Just above a power of two the gap below is half as wide. -/
def roundingInterval (significand : Nat) (exponent : Int) : Nat × Nat :=
  (if significand = twoPow fractionBits ∧ leastExponent < exponent then 4 * significand - 1
   else 4 * significand - 2,
   4 * significand + 2)

/-- Whether the natural number `digits · 10 ^ ten` rounds to `significand · 2 ^ exponent`. -/
def readsBack (significand : Nat) (exponent : Int) (digits : Nat) (ten : Int) : Bool :=
  let (low, high) := roundingInterval significand exponent
  let (num, den) := scaledTen digits 1 ten
  let (num, den) := scaled num den (2 - exponent)
  if significand % 2 = 0 then low * den ≤ num && num ≤ high * den
  else low * den < num && num < high * den

/-- The power of ten of the first digit of a positive fraction. -/
def leadingPower (num den : Nat) : Int :=
  let guess : Int := Int.fdiv (((num.log2 : Int) - den.log2 - 1) * 30103) 100000
  let reaches (e : Int) : Bool := let (n, d) := scaledTen num den (-e); d ≤ n
  if reaches (guess + 1) then guess + 1 else guess

/-- The decimal with `count` digits that reads back and lies nearest, if there is one. -/
def onGrid (significand : Nat) (exponent : Int) (count : Nat) : Option Decimal :=
  let (num, den) := scaled significand 1 exponent
  let ten := leadingPower num den - (count - 1 : Nat)
  let (n, d) := scaledTen num den (-ten)
  let low := n / d
  let lowFits := readsBack significand exponent low ten
  let highFits := readsBack significand exponent (low + 1) ten
  if lowFits && (!highFits || 2 * (n % d) < d) then some ⟨low, ten⟩
  else if highFits then some ⟨low + 1, ten⟩
  else none

/-- The shortest decimal that rounds to `significand · 2 ^ exponent`; seventeen digits always do. -/
def shortest (significand : Nat) (exponent : Int) : Decimal :=
  if significand = 0 then ⟨0, 0⟩
  else
    let found := (List.range' 1 17).findSome? (onGrid significand exponent)
    (found.getD ⟨significand, 0⟩).stripZeros 20

end Spreadsheet.Number
