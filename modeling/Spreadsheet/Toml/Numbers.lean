import Spreadsheet.Toml.Strings

/-!
# Reading TOML numbers, dates and times

Digits can be grouped with underscores between them.  An integer has 64 bits; a float is the nearest
double and must not be too large for one.  A date or a time keeps its text, in the one form that is
usual for it.
-/

namespace Spreadsheet.Toml

open Spreadsheet.Number

/-! ## Digits -/

/-- The digits at the start of a text that goes on after a digit; an underscore can stand before
each. -/
def moreDigits (isDigit : Char → Bool) : List Char → List Char × List Char
  | [] => ([], [])
  | '_' :: c :: rest =>
    if isDigit c then
      let (digits, rest) := moreDigits isDigit rest
      (c :: digits, rest)
    else ([], '_' :: c :: rest)
  | c :: rest =>
    if isDigit c then
      let (digits, rest) := moreDigits isDigit rest
      (c :: digits, rest)
    else ([], c :: rest)

/-- At least one digit. -/
def readDigits (isDigit : Char → Bool) : Reader (List Char)
  | c :: rest => if isDigit c then prepend [c] (some (moreDigits isDigit rest)) else none
  | [] => none

/-- A decimal number without a leading zero. -/
def readDecimal : Reader (List Char)
  | '0' :: rest => some (['0'], rest)
  | cs => readDigits Char.isDigit cs

/-- The sign at the start of a text. -/
def readSign : List Char → Bool × List Char
  | '-' :: rest => (true, rest)
  | '+' :: rest => (false, rest)
  | cs => (false, cs)

/-! ## Numbers -/

/-- An integer of 64 bits. -/
def checkedInteger (n : Int) : Option Value :=
  if Int64.minValue.toInt ≤ n ∧ n ≤ Int64.maxValue.toInt then some (.integer n) else none

/-- Digits to a base as a number. -/
def ofDigitsIn (base : Nat) (digits : List Char) : Nat :=
  (digits.filterMap hexDigit?).foldl (fun n d => base * n + d) 0

/-- An integer to a base other than ten. -/
def readInBase (base : Nat) (cs : List Char) : Option (Value × List Char) := do
  let isDigit := fun c => (hexDigit? c).any (· < base)
  let (digits, rest) ← readDigits isDigit cs
  return (← checkedInteger (ofDigitsIn base digits), rest)

/-- An integer. -/
def readInteger : Reader Value
  | '0' :: 'x' :: rest => readInBase 16 rest
  | '0' :: 'o' :: rest => readInBase 8 rest
  | '0' :: 'b' :: rest => readInBase 2 rest
  | cs => do
    let (negative, cs) := readSign cs
    let (digits, rest) ← readDecimal cs
    let n : Int := ofDigits digits
    return (← checkedInteger (if negative then -n else n), rest)

/-- The places behind a point. -/
def readPlaces : Reader (List Char)
  | '.' :: rest => readDigits Char.isDigit rest
  | _ => none

/-- The power of ten behind an `e`. -/
def readPower : Reader Int
  | c :: rest =>
    if c = 'e' ∨ c = 'E' then do
      let (negative, rest) := readSign rest
      let (digits, rest) ← readDigits Char.isDigit rest
      let n : Int := ofDigits digits
      some (if negative then -n else n, rest)
    else none
  | [] => none

/-- What follows the digits of a float before its point: places, a power of ten or both. -/
def readFloatTail (cs : List Char) : Option ((List Char × Int) × List Char) :=
  match readPlaces cs with
  | some (places, rest) =>
    match readPower rest with
    | some (power, rest) => some ((places, power), rest)
    | none => some ((places, 0), rest)
  | none => (readPower cs).map fun (power, rest) => (([], power), rest)

/-- A float in digits.  One that is too large is refused, unless it is negative. -/
def readDigitFloat (cs : List Char) : Option (Value × List Char) := do
  let (negative, cs) := readSign cs
  let (whole, cs) ← readDecimal cs
  let ((places, power), rest) ← readFloatTail cs
  let x := ofDecimal negative (ofDigits (whole ++ places)) (power - places.length)
  if x == infinity false then none else some (.float x, rest)

/-- A float that is no finite number. -/
def readWordFloat (cs : List Char) : Option (Value × List Char) :=
  match readSign cs with
  | (negative, 'i' :: 'n' :: 'f' :: rest) => some (.float (infinity negative), rest)
  | (_, 'n' :: 'a' :: 'n' :: rest) => some (.float nan, rest)
  | _ => none

/-! ## Dates and times -/

/-- Two digits that stand for a number within bounds. -/
def twoDigits (least greatest : Nat) (cs : List Char) : Option (List Char) :=
  if cs.length = 2 ∧ cs.all Char.isDigit ∧ least ≤ ofDigits cs ∧ ofDigits cs ≤ greatest then some cs
  else none

/-- The number of days of a month. -/
def daysIn (year month : Nat) : Nat :=
  if month = 2 then
    if year % 4 = 0 ∧ (year % 100 ≠ 0 ∨ year % 400 = 0) then 29 else 28
  else if [4, 6, 9, 11].contains month then 30
  else 31

/-- A date. -/
def readDate : Reader (List Char)
  | a :: b :: c :: d :: '-' :: e :: f :: '-' :: g :: h :: rest => do
    let year := [a, b, c, d]
    if !year.all Char.isDigit then none
    else
      let month ← twoDigits 1 12 [e, f]
      let day ← twoDigits 1 (daysIn (ofDigits year) (ofDigits month)) [g, h]
      some (year ++ '-' :: month ++ '-' :: day, rest)
  | _ => none

/-- The number of places of a second that are kept. -/
def secondPlaces : Nat := 9

/-- The part of a second behind a point, without the zeros at its end. -/
def readFraction : List Char → List Char × List Char
  | '.' :: rest =>
    let digits := rest.takeWhile Char.isDigit
    if digits.isEmpty then ([], '.' :: rest)
    else
      let kept := ((digits.take secondPlaces).reverse.dropWhile (· == '0')).reverse
      (if kept.isEmpty then [] else '.' :: kept, rest.dropWhile Char.isDigit)
  | cs => ([], cs)

/-- A time of day; a minute can have a leap second. -/
def readTime : Reader (List Char)
  | a :: b :: ':' :: c :: d :: ':' :: e :: f :: rest => do
    let hour ← twoDigits 0 23 [a, b]
    let minute ← twoDigits 0 59 [c, d]
    let second ← twoDigits 0 60 [e, f]
    let (fraction, rest) := readFraction rest
    some (hour ++ ':' :: minute ++ ':' :: second ++ fraction, rest)
  | _ => none

/-- The distance from universal time, if there is one. -/
def readOffset : List Char → List Char × List Char
  | 'Z' :: rest | 'z' :: rest => (['Z'], rest)
  | sign :: a :: b :: ':' :: c :: d :: rest =>
    if sign = '+' ∨ sign = '-' then
      match twoDigits 0 23 [a, b], twoDigits 0 59 [c, d] with
      | some hour, some minute =>
        let shown := if ofDigits (hour ++ minute) = 0 then '+' else sign
        (shown :: hour ++ ':' :: minute, rest)
      | _, _ => ([], sign :: a :: b :: ':' :: c :: d :: rest)
    else ([], sign :: a :: b :: ':' :: c :: d :: rest)
  | cs => ([], cs)

/-- The time behind a date, if there is one, with its offset. -/
def readTimeOfDate : List Char → List Char × List Char
  | c :: rest =>
    if c = 'T' ∨ c = 't' ∨ c = ' ' then
      match readTime rest with
      | some (time, rest) =>
        let (offset, rest) := readOffset rest
        ('T' :: time ++ offset, rest)
      | none => ([], c :: rest)
    else ([], c :: rest)
  | [] => ([], [])

/-- A date, a time or both. -/
def readDatetime (cs : List Char) : Option (Value × List Char) :=
  match readDate cs with
  | some (date, rest) =>
    let (time, rest) := readTimeOfDate rest
    some (.datetime (String.ofList (date ++ time)), rest)
  | none => (readTime cs).map fun (time, rest) => (.datetime (String.ofList time), rest)

/-- A number, a date or a time. -/
def readNumber (cs : List Char) : Option (Value × List Char) :=
  readDatetime cs <|> readDigitFloat cs <|> readWordFloat cs <|> readInteger cs

end Spreadsheet.Toml
