import Spreadsheet.Number.Text
import Spreadsheet.Template.Prepared

/-!
# Cell values
-/

namespace Spreadsheet

/-- What a cell holds once it is written. -/
inductive CellValue where
  | empty
  | bool (value : Bool)
  | number (value : Float)
  | text (value : String)
  /-- A finished formula with its equals sign. -/
  | formula (text : String)
deriving DecidableEq, Inhabited

namespace CellValue

/-- A truth value as a formula writes it. -/
def boolText (b : Bool) : String :=
  if b then "TRUE" else "FALSE"

/-- The value as a reader sees it. -/
def display : CellValue → String
  | .empty => ""
  | .bool b => boolText b
  | .number x => Number.literal x
  | .text s => s
  | .formula s => s

/-- The value as an operand of a formula. -/
def literal : CellValue → String
  | .empty => ""
  | .bool b => boolText b
  | .number x => Number.literal x
  | .text s => Template.quoteText s
  | .formula s => "(" ++ String.ofList (s.toList.dropWhile (· == '=')) ++ ")"

/-- Whether there is nothing in the cell. -/
def isEmpty : CellValue → Bool
  | .empty => true
  | _ => false

end CellValue

end Spreadsheet
