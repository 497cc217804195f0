import Spreadsheet.Number.Shortest

/-!
# Numbers as text

Three ways to write a double, all with its shortest digits: plainly, with no exponent however large
or small the number is; as a literal of a formula, where a value that is no number is an error
value; and in the form used for inspection, which always shows a point or an exponent.
-/

namespace Spreadsheet.Number

/-- The decimal digits of a natural number. -/
def natText (n : Nat) : String :=
  String.ofList (Nat.toDigits 10 n)

/-- Digits with the point put where the exponent says; no point is written after a whole number. -/
def positional (d : Decimal) : String :=
  let ds := Nat.toDigits 10 d.digits
  if 0 ≤ d.exponent then String.ofList (ds ++ List.replicate d.exponent.toNat '0')
  else
    let places := (-d.exponent).toNat
    let padded := List.replicate (places + 1 - ds.length) '0' ++ ds
    let whole := padded.length - places
    String.ofList (padded.take whole ++ '.' :: padded.drop whole)

/-- Digits with one digit before the point and the power of ten after an `e`. -/
def scientific (d : Decimal) : String :=
  let ds := Nat.toDigits 10 d.digits
  let power := d.exponent + (ds.length - 1 : Nat)
  let tail := if ds.tail.isEmpty then [] else '.' :: ds.tail
  String.ofList (ds.take 1 ++ tail) ++ "e" ++ toString power

/-- The sign of a number as text. -/
def signText (negative : Bool) : String :=
  if negative then "-" else ""

/-- A number written plainly. -/
def plain (x : Float) : String :=
  match Binary.ofFloat x with
  | .nan => "NaN"
  | .infinite negative => signText negative ++ "inf"
  | .finite negative significand exponent =>
    signText negative ++ positional (shortest significand exponent)

/-- A number as a literal of a formula. -/
def literal (x : Float) : String :=
  match Binary.ofFloat x with
  | .finite .. => plain x
  | _ => "#NUM!"

/-- A number for inspection: a point or an exponent is always there, and the exponent is used below
`10 ^ -4` and from `10 ^ 16` on. -/
def inspected (x : Float) : String :=
  match Binary.ofFloat x with
  | .nan => "NaN"
  | .infinite negative => signText negative ++ "inf"
  | .finite negative significand exponent =>
    let d := shortest significand exponent
    let power := d.exponent + ((Nat.toDigits 10 d.digits).length - 1 : Nat)
    let body :=
      if d.digits = 0 then "0.0"
      else if power < -4 ∨ 16 ≤ power then scientific d
      else if 0 ≤ d.exponent then positional d ++ ".0"
      else positional d
    signText negative ++ body

end Spreadsheet.Number
