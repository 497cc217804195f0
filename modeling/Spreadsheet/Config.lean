/-!
# Options of a build
-/

namespace Spreadsheet

/-- The options of a build. -/
structure Config where
  /-- Passes of the resolver before it gives up. -/
  maxResolveAttempts : Nat := 30
  /-- Fail where a formula points at a cell that is on no sheet. -/
  strictReferences : Bool := false
  /-- Write blanks around operators. -/
  operatorSpacing : Bool := true
  /-- Suffixes tried when the name of a table is taken. -/
  tableNameAttempts : Nat := 100
  /-- Open the file after it is saved. -/
  autoOpen : Bool := false

instance : Inhabited Config := ⟨{}⟩

end Spreadsheet
