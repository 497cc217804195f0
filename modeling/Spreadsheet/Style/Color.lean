import Spreadsheet.Text.Blank
import Spreadsheet.Number.Read
import Spreadsheet.Error

/-!
# Colours

A colour has 24 bits, eight each of red, green and blue.  It is read from six hexadecimal digits,
with number signs in front of them allowed, and written with upper-case digits.
-/

namespace Spreadsheet

/-- A colour of 24 bits. -/
structure Color where
  value : BitVec 24
deriving DecidableEq

namespace Color

/-- The colour of the low 24 bits of a number. -/
def rgb (n : Nat) : Color :=
  ⟨BitVec.ofNat 24 n⟩

/-- The colour of default lines. -/
def black : Color :=
  rgb 0

/-- The colour that a text denotes. -/
def ofHex? (text : String) : Option Color :=
  let digits := (Text.trim text.toList).dropWhile (· == '#')
  if digits.length = 6 then
    (digits.mapM Number.hexDigit?).map fun ds => rgb (ds.foldl (fun n d => 16 * n + d) 0)
  else none

/-- The colour that a text denotes, or the error of a text that denotes none. -/
def ofHex (text : String) : Except SheetError Color :=
  match ofHex? text with
  | some color => .ok color
  | none => .error (.invalidColor text)

/-- Six upper-case digits. -/
def text (c : Color) : String :=
  let digits := Nat.toDigits 16 c.value.toNat
  String.ofList ((List.replicate (6 - digits.length) '0' ++ digits).map Char.toUpper)

end Color

end Spreadsheet
