import Spreadsheet.Text.CodeRange

/-!
# Blank characters

The characters with the Unicode property White_Space, and cutting them off the ends of a text.
Every place that trims text, and the white space allowed before a closing parenthesis, uses this
set; the formula grammar itself skips only the four characters named there.
-/

namespace Spreadsheet.Text

/-- The code points with the property White_Space. -/
def blankRanges : List CodeRange :=
  CodeRange.pairs [0x09, 0x0D, 0x20, 0x20, 0x85, 0x85, 0xA0, 0xA0, 0x1680, 0x1680, 0x2000, 0x200A,
    0x2028, 0x2029, 0x202F, 0x202F, 0x205F, 0x205F, 0x3000, 0x3000]

/-- Whether a character is white space. -/
def isBlank (c : Char) : Bool :=
  blankRanges.any (·.contains c)

/-- The text without the blanks it starts with. -/
def trimStart (cs : List Char) : List Char :=
  cs.dropWhile isBlank

/-- The text without the blanks it ends with. -/
def trimEnd (cs : List Char) : List Char :=
  (cs.reverse.dropWhile isBlank).reverse

/-- The text without the blanks at either end. -/
def trim (cs : List Char) : List Char :=
  trimEnd (trimStart cs)

/-- `trim` on strings. -/
def trimmed (s : String) : String :=
  String.ofList (trim s.toList)

end Spreadsheet.Text
