import Spreadsheet.Number.Read
import Spreadsheet.Number.Text

/-!
# Locations and their A1 names

A location is a row and a column of a sheet, counted from zero.  Its name writes the column as
letters, in a system of base 26 without a zero (`A`, …, `Z`, `AA`, …), and the row as a number
counted from one.  A reference from another sheet carries the sheet's name, in single quotes unless
it is plain.
-/

namespace Spreadsheet

/-- A place on a named sheet, counted from zero. -/
structure Location where
  sheet : String
  row : Nat
  col : Nat
deriving DecidableEq

/-- The digits of a positive number in base 26 without a zero, as letters. -/
def columnDigits (n : Nat) : List Char :=
  if n = 0 then [] else columnDigits ((n - 1) / 26) ++ [Char.ofNat ('A'.toNat + (n - 1) % 26)]
termination_by n
decreasing_by omega

/-- The letters of a column. -/
def columnLetters (col : Nat) : String :=
  String.ofList (columnDigits (col + 1))

/-- The positive number that letters denote, `A` standing for one. -/
def columnNumber (letters : List Char) : Nat :=
  letters.foldl (fun n c => 26 * n + (c.toUpper.toNat - 'A'.toNat + 1)) 0

/-- A letter stands for its place in the alphabet. -/
theorem toUpper_letter (k : Nat) (h : k < 26) :
    (Char.ofNat ('A'.toNat + k)).toUpper.toNat - 'A'.toNat + 1 = k + 1 := by
  have all : ∀ k : Fin 26, (Char.ofNat ('A'.toNat + k)).toUpper.toNat - 'A'.toNat + 1 = k + 1 := by
    decide
  exact all ⟨k, h⟩

/-- The letters of a number denote it. -/
@[simp] theorem columnNumber_columnDigits (n : Nat) : columnNumber (columnDigits n) = n := by
  induction n using Nat.strongRecOn with
  | ind n ih =>
    rw [columnDigits]
    split
    case isTrue h => simp [columnNumber, h]
    case isFalse h =>
      have step := ih ((n - 1) / 26) (by omega)
      have letter := toUpper_letter ((n - 1) % 26) (by omega)
      simp only [columnNumber, List.foldl_append, List.foldl_cons, List.foldl_nil] at step ⊢
      rw [step, letter]
      omega

/-- Numbers in the name of a location stay below this bound. -/
def coordinateBound : Nat := UInt64.size

/-- A number, if it stays below the bound of coordinates. -/
def bounded? (n : Nat) : Option Nat :=
  if n < coordinateBound then some n else none

/-- The positive number that letters denote, given up at the first product or sum that reaches the
bound. -/
def columnNumber? (letters : List Char) : Option Nat :=
  letters.foldlM (fun n c => do bounded? ((← bounded? (26 * n)) + (c.toUpper.toNat - 'A'.toNat + 1)))
    0

/-- A row and a column as one name. -/
def a1Text (row col : Nat) : String :=
  columnLetters col ++ Number.natText (row + 1)

/-- A sheet's name as it stands before a reference: in single quotes, a quote inside written twice,
unless it has only letters, digits, underscores and points and starts with no digit. -/
def quoteSheetName (name : String) : String :=
  let cs := name.toList
  if cs.all (fun c => c.isAlphanum || c == '_' || c == '.') && !cs.head?.any Char.isDigit then name
  else
    String.ofList
      ('\'' :: cs.flatMap (fun c => if c = '\'' then ['\'', '\''] else [c]) ++ ['\''])

namespace Location

/-- The name of the location on its own sheet. -/
def a1 (l : Location) : String :=
  a1Text l.row l.col

/-- The location with its sheet, for messages. -/
def describe (l : Location) : String :=
  l.sheet ++ "!" ++ l.a1

/-- The location moved down and to the right. -/
def offset (l : Location) (rows cols : Nat) : Location :=
  { l with row := l.row + rows, col := l.col + cols }

/-- The location as a formula on a sheet writes it: the sheet is named when it is another one. -/
def qualified (l : Location) (fromSheet : String) : String :=
  if l.sheet = fromSheet then l.a1 else quoteSheetName l.sheet ++ "!" ++ l.a1

@[simp] theorem qualified_self (l : Location) : l.qualified l.sheet = l.a1 := by
  simp [qualified]

/-- Read the name of a location: letters, then digits, both numbers positive and below the bound. -/
def ofA1? (sheet name : String) : Option Location :=
  let letters := name.toList.takeWhile Char.isAlpha
  let digits := name.toList.dropWhile Char.isAlpha
  if letters.isEmpty || digits.isEmpty || !digits.all Char.isDigit then none
  else do
    let col ← columnNumber? letters
    let row ← Number.readNat coordinateBound digits
    if 0 < col ∧ 0 < row then some ⟨sheet, row - 1, col - 1⟩ else none

end Location

end Spreadsheet
