import Spreadsheet.Text.Unprintable

/-!
# Quoted text

Two ways to show a text between quotes so that its extent is visible.  `quoted` is used in messages:
it writes what cannot be seen by its code point and leaves every other character as it is.
`escaped` escapes only quotes, backslashes and controls, in the form that most data formats read.
-/

namespace Spreadsheet.Text

/-- A number in hexadecimal digits. -/
def hexText (n : Nat) : List Char :=
  Nat.toDigits 16 n

/-- A character inside quotes of the given kind. -/
def showChar (quote c : Char) : List Char :=
  if c = '\x00' then ['\\', '0']
  else if c = '\t' then ['\\', 't']
  else if c = '\r' then ['\\', 'r']
  else if c = '\n' then ['\\', 'n']
  else if c = '\\' ∨ c = quote then ['\\', c]
  else if isUnprintable c then ['\\', 'u', '\x7b'] ++ hexText c.toNat ++ ['\x7d']
  else [c]

/-- A text in double quotes, for a message. -/
def quoted (s : String) : String :=
  String.ofList ('"' :: s.toList.flatMap (showChar '"') ++ ['"'])

/-- A character in single quotes, for a message. -/
def quotedChar (c : Char) : String :=
  String.ofList ('\'' :: showChar '\'' c ++ ['\''])

/-- A character of an escaped text. -/
def escapeChar (c : Char) : List Char :=
  if c = '"' ∨ c = '\\' then ['\\', c]
  else if c = '\n' then ['\\', 'n']
  else if c = '\r' then ['\\', 'r']
  else if c = '\t' then ['\\', 't']
  else if c = '\x08' then ['\\', 'b']
  else if c = '\x0c' then ['\\', 'f']
  else if c.toNat < 32 then
    let digits := hexText c.toNat
    ['\\', 'u'] ++ List.replicate (4 - digits.length) '0' ++ digits
  else [c]

/-- A text in double quotes with escapes. -/
def escaped (s : String) : String :=
  String.ofList ('"' :: s.toList.flatMap escapeChar ++ ['"'])

end Spreadsheet.Text
