import Spreadsheet.Kind
import Spreadsheet.Template.Error

/-!
# What can go wrong when a workbook is built

Every error is a cause with the data that its message needs; the wording is in
`SheetError.message` and nowhere else.
-/

namespace Spreadsheet

open Spreadsheet.Text Spreadsheet.Template Spreadsheet.Number

/-- Why a text describes no border. -/
inductive BorderFault where
  | unknownWeight (text : String)
  | neitherWeightNorColor (text : String)

/-- The fault in words. -/
def BorderFault.message : BorderFault → String
  | .unknownWeight text => "unknown border weight " ++ quoted text
  | .neitherWeightNorColor text =>
    quoted text ++ " is neither a border weight nor a 6-digit hex colour"

/-- What refuses to hold an element. -/
inductive Holder where
  | element (kind : Kind)
  | formula
  | range
  | reference

/-- The name of a holder. -/
def Holder.name : Holder → String
  | .element kind => kind.name
  | .formula => "formula"
  | .range => "range"
  | .reference => "reference"

/-- What a position is looked up in. -/
inductive Indexed where
  | element (kind : Kind)
  | scalar
  | series
  | table

/-- The name of what is indexed. -/
def Indexed.name : Indexed → String
  | .element kind => kind.name
  | .scalar => "scalar"
  | .series => "series"
  | .table => "frame"

/-- What stands in the way of opening a file, with the reason given. -/
inductive OpeningProblem where
  | notWritable (reason : String)
  | noViewer (reason : String)

/-- The problem in words. -/
def OpeningProblem.message : OpeningProblem → String
  | .notWritable reason => "the file cannot be opened for writing (" ++ reason ++ ")"
  | .noViewer reason => "could not launch a viewer (" ++ reason ++ ")"

/-- Why a workbook cannot be built or written. -/
inductive SheetError where
  | template (cause : TemplateError)
  | invalidId (id : String)
  | invalidBorder (cause : BorderFault)
  | invalidColor (text : String)
  | invalidSpacing (count : Nat)
  | incompatibleChild (container : Holder) (child : Kind)
  | invalidFunctionName (name : String)
  | nestedFunctionCall (name : String)
  | unresolvedReference (template : String) (keys : List String) (cycle : Option (List String))
  | arithmeticOnPendingExpression (template : String)
  | arithmeticOnPendingFunction (name : String)
  | arithmeticOnStack
  | arithmeticOnGap
  | indexOutOfRange (kind : Indexed) (index length : Nat)
  | unknownChild (name : String)
  /-- An element taken as one value still holds producers. -/
  | stillPending (kind : Kind)
  | unsupportedFunctionDimension (name : String)
  | missingReference (what : String)
  | alreadyWritten (place : String)
  | invalidSheetName (name : String)
  | duplicateTableName (name : String)
  | tableNameCollision (name : String) (attempts : Nat) (last : SheetError)
  | cellOutOfRange (row col : Nat)
  /-- The file cannot be opened for the reader. -/
  | autoOpen (path : String) (problem : OpeningProblem)
  /-- The writer does not know the sheet it is asked to write to. -/
  | writer
  /-- The file cannot be made, for the reason given. -/
  | notSaved (reason : String)

/-- The name of the kind of error. -/
def SheetError.name : SheetError → String
  | .template cause => cause.name
  | .invalidId .. => "InvalidId"
  | .invalidBorder .. => "InvalidBorder"
  | .invalidColor .. => "InvalidColor"
  | .invalidSpacing .. => "InvalidSpacing"
  | .incompatibleChild .. => "IncompatibleChild"
  | .invalidFunctionName .. => "InvalidFunctionName"
  | .nestedFunctionCall .. => "NestedFunctionCall"
  | .unresolvedReference .. => "UnresolvedReference"
  | .arithmeticOnPendingExpression .. => "ArithmeticOnPendingExpression"
  | .arithmeticOnPendingFunction .. => "ArithmeticOnPendingFunction"
  | .arithmeticOnStack => "ArithmeticOnStack"
  | .arithmeticOnGap => "ArithmeticOnGap"
  | .indexOutOfRange .. => "IndexOutOfRange"
  | .unknownChild .. => "UnknownChild"
  | .stillPending .. => "ShapeMismatch"
  | .unsupportedFunctionDimension .. => "UnsupportedFunctionDimension"
  | .missingReference .. => "MissingReference"
  | .alreadyWritten .. => "AlreadyWritten"
  | .invalidSheetName .. => "InvalidSheetName"
  | .duplicateTableName .. => "DuplicateTableName"
  | .tableNameCollision .. => "TableNameCollision"
  | .cellOutOfRange .. => "CellOutOfRange"
  | .autoOpen .. => "AutoOpen"
  | .writer | .notSaved .. => "Writer"

/-- The ids and names that form a circle, for a message. -/
def cycleText : Option (List String) → String
  | none => ""
  | some names => " (circular reference: " ++ " -> ".intercalate names ++ ")"

/-- The error in words. -/
def SheetError.message : SheetError → String
  | .template cause => cause.message
  | .invalidId id =>
    "Invalid id " ++ quoted id ++ ": ids must be non-empty and must not contain '[' or ']'"
  | .invalidBorder cause => "Invalid border: " ++ cause.message
  | .invalidColor text =>
    "Invalid color " ++ quoted text ++ ": expected exactly 6 hex digits, e.g. \"FFEE00\""
  | .invalidSpacing count => "Invalid spacing: expected 1 to 4 values, got " ++ natText count
  | .incompatibleChild container child => "A " ++ container.name ++ " cannot hold a " ++ child.name
  | .invalidFunctionName name =>
    "Invalid function name " ++ quoted name
      ++ ": expected letters, digits, '.' or '_', starting with a letter"
  | .nestedFunctionCall name =>
    "Function call " ++ name
      ++ " cannot take another function call as an operand; use a template string instead"
  | .unresolvedReference text keys cycle =>
    "Could not resolve " ++ quoted text ++ ": no element answers to " ++ ", ".intercalate keys
      ++ cycleText cycle ++ ".\nPlace the target element on a sheet so it resolves earlier, "
      ++ "or register it with a global id (\x60G::name\x60) so it survives sheet isolation."
  | .arithmeticOnPendingExpression text =>
    "Cannot do arithmetic on expression " ++ quoted text ++ " before it is resolved"
  | .arithmeticOnPendingFunction name =>
    "Cannot do arithmetic on function call " ++ name ++ " before it is resolved"
  | .arithmeticOnStack =>
    "Cannot do arithmetic on a Stack; reference its vectors or frames instead"
  | .arithmeticOnGap => "Cannot reference a Gap"
  | .indexOutOfRange kind index length =>
    "Index " ++ natText index ++ " out of range for " ++ kind.name ++ " of length "
      ++ natText length
  | .unknownChild name => "No child named " ++ quoted name
  | .stillPending kind => "Shape mismatch: " ++ kind.name ++ " still holds unresolved formulas"
  | .unsupportedFunctionDimension name =>
    "Function " ++ name ++ " cannot produce a two-dimensional result"
  | .missingReference what =>
    "Formula references a cell that is never placed on any sheet (" ++ what
      ++ "); add the element to a sheet or turn off strict references"
  | .alreadyWritten place =>
    "Cell " ++ place ++ " has already been written; an element can only be written once"
  | .invalidSheetName name =>
    "Invalid sheet name " ++ quoted name
      ++ ": names are 1-31 characters and may not contain : \\ / ? * [ ]"
  | .duplicateTableName name => "Table name " ++ quoted name ++ " is already in use"
  | .tableNameCollision name attempts last =>
    "Could not find a free table name starting from " ++ quoted name ++ " after "
      ++ natText attempts ++ " attempts: " ++ last.message
  | .cellOutOfRange row col =>
    "Cell (" ++ natText row ++ ", " ++ natText col ++ ") is outside the worksheet"
  | .autoOpen path problem =>
    "Auto-open failed for " ++ path ++ ": " ++ problem.message ++ ". If the file is open in "
      ++ "another program (or locked by a sync client), close it and try again, "
      ++ "or turn auto-open off."
  | .writer => "XLSX writer error"
  | .notSaved reason => "XLSX writer error: " ++ reason

/-- The message of the error behind an error, where there is one. -/
def SheetError.cause? : SheetError → Option String
  | .tableNameCollision _ _ last => some last.message
  | .notSaved reason => some reason
  | _ => none

/-- The error in words, followed by the error behind it. -/
def SheetError.fullMessage (e : SheetError) : String :=
  match e.cause? with
  | some cause => e.message ++ ": " ++ cause
  | none => e.message

end Spreadsheet
