import Spreadsheet.Error

/-!
# Names of sheets and tables
-/

namespace Spreadsheet

/-- The longest name of a sheet, in characters. -/
def sheetNameLimit : Nat := 31

/-- Whether a character cannot stand in the name of a sheet. -/
def isForbiddenInSheetName (c : Char) : Bool :=
  [':', '\\', '/', '?', '*', '[', ']'].contains c

/-- Whether a text can be the name of a sheet. -/
def isSheetName (name : String) : Bool :=
  let cs := name.toList
  !cs.isEmpty && cs.length ≤ sheetNameLimit && !cs.any isForbiddenInSheetName

/-- The name of a sheet, or the error of a text that cannot be one. -/
def sheetName (name : String) : Except SheetError String :=
  if isSheetName name then .ok name else .error (.invalidSheetName name)

/-- A name for a table, made from the title of its sheet: ASCII letters and digits are kept and
other characters become underscores; a digit is not left in front. -/
def tableNameOf (title : String) : String :=
  let cs := title.toList.map fun c => if c.isAlphanum then c else '_'
  match cs with
  | [] => "Table"
  | c :: _ => String.ofList (if c.isDigit then '_' :: cs else cs)

end Spreadsheet
