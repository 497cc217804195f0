/-!
# Double-precision numbers and exact fractions

A finite double is a whole number of units in the last place: `significand · 2 ^ exponent`.  This
module takes a double apart into that form and, the other way round, finds the double nearest to a
fraction of natural numbers, a fraction midway between two doubles going to the even significand.
Everything between is exact arithmetic on natural numbers.
-/

namespace Spreadsheet.Number

/-- The parts of a double: a special value or a sign with an exact magnitude. -/
inductive Binary where
  | nan
  | infinite (negative : Bool)
  /-- The magnitude is `significand · 2 ^ exponent`. -/
  | finite (negative : Bool) (significand : Nat) (exponent : Int)

/-- The number of bits of a significand after the leading one. -/
def fractionBits : Nat := 52

/-- A power of two. -/
def twoPow (exponent : Nat) : Nat := Nat.pow 2 exponent

/-- A power of ten. -/
def tenPow (exponent : Nat) : Nat := Nat.pow 10 exponent

/-- The exponent of the last bit of the smallest doubles. -/
def leastExponent : Int := -1074

/-- The parts of a double. -/
def Binary.ofFloat (x : Float) : Binary :=
  let bits := x.toBits.toNat
  let negative := bits / twoPow 63 == 1
  let biased := bits / twoPow fractionBits % twoPow 11
  let fraction := bits % twoPow fractionBits
  if biased = 2047 then
    if fraction = 0 then .infinite negative else .nan
  else if biased = 0 then .finite negative fraction leastExponent
  else .finite negative (twoPow fractionBits + fraction) (leastExponent + (biased - 1 : Nat))

/-- The fraction `num / den · 2 ^ exponent` as a fraction of natural numbers. -/
def scaled (num den : Nat) (exponent : Int) : Nat × Nat :=
  if 0 ≤ exponent then (num * twoPow exponent.toNat, den)
  else (num, den * twoPow (-exponent).toNat)

/-- The natural number nearest to `num / den`, a tie going to the even one. -/
def roundEven (num den : Nat) : Nat :=
  let low := num / den
  let twice := 2 * (num % den)
  if twice < den then low
  else if den < twice then low + 1
  else low + low % 2

/-- The exponent of the last bit of the double nearest to a positive fraction. -/
def lastBitExponent (num den : Nat) : Int :=
  let guess : Int := num.log2 - den.log2 - (fractionBits + 1 : Nat)
  let (n, d) := scaled num den (-guess)
  max leastExponent (if twoPow (fractionBits + 1) ≤ n / d then guess + 1 else guess)

/-- The pattern of the double nearest to a fraction, without its sign.  A significand that rounds
up to the next power of two carries into the exponent field, which is the right neighbour. -/
def nearestPattern (num den : Nat) : Nat :=
  if num = 0 then 0
  else
    let exponent := lastBitExponent num den
    let (n, d) := scaled num den (-exponent)
    min ((exponent - leastExponent).toNat * twoPow fractionBits + roundEven n d)
      (2047 * twoPow fractionBits)

/-- The double nearest to a fraction with a sign; beyond the largest double it is infinite. -/
def ofFraction (negative : Bool) (num den : Nat) : Float :=
  Float.ofBits (UInt64.ofNat ((if negative then twoPow 63 else 0) + nearestPattern num den))

/-- The infinite double of a sign. -/
def infinity (negative : Bool) : Float :=
  Float.ofBits (UInt64.ofNat ((if negative then twoPow 63 else 0) + 2047 * twoPow fractionBits))

/-- The double that is not a number. -/
def nan : Float :=
  Float.ofBits (UInt64.ofNat (2047 * twoPow fractionBits + twoPow (fractionBits - 1)))

/-- The double nearest to a natural number. -/
def ofNat (n : Nat) : Float :=
  ofFraction false n 1

/-- The double nearest to an integer. -/
def ofInt (n : Int) : Float :=
  ofFraction (n < 0) n.natAbs 1

/-- The value of a double that is a natural number; negative zero counts as zero. -/
def toNat? (x : Float) : Option Nat :=
  match Binary.ofFloat x with
  | .finite negative significand exponent =>
    if significand = 0 then some 0
    else if negative then none
    else if 0 ≤ exponent then some (significand * twoPow exponent.toNat)
    else if significand % twoPow (-exponent).toNat = 0 then
      some (significand / twoPow (-exponent).toNat)
    else none
  | _ => none

/-- The larger of two doubles; one that is no number gives way to the other. -/
def larger (x y : Float) : Float :=
  if x.isNaN || x < y then y else x

end Spreadsheet.Number
