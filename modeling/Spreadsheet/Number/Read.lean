import Spreadsheet.Number.Binary

/-!
# Reading numbers

The doubles that a text denotes: an optional sign, then digits with at most one point among or
around them and an optional power of ten, or one of the words `inf`, `infinity` and `nan` in any
case.  The double nearest to the decimal is taken.
-/

namespace Spreadsheet.Number

/-- The value of a hexadecimal digit. -/
def hexDigit? (c : Char) : Option Nat :=
  if c.isDigit then some (c.toNat - '0'.toNat)
  else if 'a' ≤ c ∧ c ≤ 'f' then some (c.toNat - 'a'.toNat + 10)
  else if 'A' ≤ c ∧ c ≤ 'F' then some (c.toNat - 'A'.toNat + 10)
  else none

/-- The natural number that a list of decimal digits denotes. -/
def ofDigits (ds : List Char) : Nat :=
  ds.foldl (fun n d => 10 * n + (d.toNat - '0'.toNat)) 0

/-- The double nearest to `digits · 10 ^ exponent`.  Beyond 400 places either way from the first
digit the answer is infinite or zero whatever the digits are. -/
def ofDecimal (negative : Bool) (digits : Nat) (exponent : Int) : Float :=
  let lead : Int := exponent + (Nat.toDigits 10 digits).length
  if digits = 0 ∨ lead < -400 then ofFraction negative 0 1
  else if 400 < lead then infinity negative
  else if 0 ≤ exponent then ofFraction negative (digits * tenPow exponent.toNat) 1
  else ofFraction negative digits (tenPow (-exponent).toNat)

/-- The sign at the start of a text, and the rest. -/
def splitSign : List Char → Bool × List Char
  | '-' :: rest => (true, rest)
  | '+' :: rest => (false, rest)
  | cs => (false, cs)

/-- The power of ten after the digits of a number: nothing, or `e` with an optional sign and at
least one digit. -/
def readExponent : List Char → Option Int
  | [] => some 0
  | c :: rest =>
    if c = 'e' ∨ c = 'E' then
      let (negative, ds) := splitSign rest
      if ds.isEmpty || !ds.all Char.isDigit then none
      else some (if negative then -(ofDigits ds : Int) else ofDigits ds)
    else none

/-- A number without its sign: digits, an optional point, digits, an optional power of ten, at
least one digit in all. -/
def readMagnitude (negative : Bool) (cs : List Char) : Option Float :=
  let whole := cs.takeWhile Char.isDigit
  let rest := cs.dropWhile Char.isDigit
  let (places, rest) :=
    match rest with
    | '.' :: more => (more.takeWhile Char.isDigit, more.dropWhile Char.isDigit)
    | _ => ([], rest)
  if whole.isEmpty && places.isEmpty then none
  else
    (readExponent rest).map fun e =>
      ofDecimal negative (ofDigits (whole ++ places)) (e - places.length)

/-- The double that a text denotes, if it denotes one. -/
def read (cs : List Char) : Option Float :=
  let (negative, body) := splitSign cs
  let word := body.map Char.toLower
  if word = "inf".toList ∨ word = "infinity".toList then some (infinity negative)
  else if word = "nan".toList then some nan
  else readMagnitude negative body

/-- The natural number that a text denotes: an optional plus sign, then digits only, the value
below `bound`. -/
def readNat (bound : Nat) (cs : List Char) : Option Nat :=
  let ds := match cs with
    | '+' :: rest => rest
    | _ => cs
  if ds.isEmpty || !ds.all Char.isDigit then none
  else if ofDigits ds < bound then some (ofDigits ds) else none

end Spreadsheet.Number
