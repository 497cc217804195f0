import Spreadsheet.Build
import Spreadsheet.Text.Lowercase

/-!
# What is written

A sink takes what a layout writes and keeps all of it, call by call.  What a sheet then holds is
read off the calls: of several values for one cell the last counts.  A sink for a file refuses rows
and columns that the file format cannot number; a sink in memory takes them all.
-/

namespace Spreadsheet

/-- The settings of a sheet. -/
structure SheetOptions where
  tabColor : Option Color := none
  /-- In percent. -/
  zoom : Option Nat := none
  hidden : Bool := false
  active : Bool := false

/-- A row and a column. -/
structure Cell where
  row : Nat
  col : Nat
deriving DecidableEq

/-- Cells are ordered by row and then by column. -/
def Cell.before (a b : Cell) : Bool :=
  a.row < b.row || (a.row == b.row && a.col ≤ b.col)

/-- The name of a cell. -/
def Cell.a1 (c : Cell) : String :=
  a1Text c.row c.col

/-- A block of cells, corners included. -/
structure Block where
  first : Cell
  last : Cell
deriving DecidableEq

/-- The name of a block; a block always has two corners. -/
def Block.text (b : Block) : String :=
  b.first.a1 ++ ":" ++ b.last.a1

/-- A value written to a block.  A merged block is one that was written as such. -/
structure CellWrite where
  block : Block
  merged : Bool
  value : CellValue
  style : CellStyle

/-- A table over a block whose first row holds the headers. -/
structure TableSpec where
  block : Block
  name : String
  options : TableOptions
  headers : List String

/-- What was written to a sheet. -/
structure WrittenSheet where
  name : String
  options : SheetOptions := {}
  /-- What was written to cells, latest first. -/
  writes : List CellWrite := []
  widths : List (Nat × Float) := []
  heights : List (Nat × Float) := []
  autofit : Bool := false
  tables : List TableSpec := []

/-- Entries sorted by their key, the last one for each key. -/
def lastByKey {κ α : Type} [DecidableEq κ] (le : κ → κ → Bool) (entries : List (κ × α)) :
    List (κ × α) :=
  let sorted := entries.mergeSort fun a b => le a.1 b.1
  sorted.foldr
    (fun entry kept => match kept with
      | next :: _ => if next.1 = entry.1 then kept else entry :: kept
      | [] => [entry]) []

namespace WrittenSheet

/-- The cells of the sheet by row and column, each with what was written to it last. -/
def cells (s : WrittenSheet) : List (Cell × CellWrite) :=
  lastByKey Cell.before (s.writes.reverse.map fun w => (w.block.first, w))

/-- The merged blocks, in the order in which they were written. -/
def merges (s : WrittenSheet) : List Block :=
  (s.writes.reverse.filter (·.merged)).map (·.block)

/-- The widths of columns, by column. -/
def columnWidths (s : WrittenSheet) : List (Nat × Float) :=
  lastByKey (fun i j => decide (i ≤ j)) s.widths

/-- The heights of rows, by row. -/
def rowHeights (s : WrittenSheet) : List (Nat × Float) :=
  lastByKey (fun i j => decide (i ≤ j)) s.heights

/-- The value of the cell with a name, if one was written. -/
def valueAt? (s : WrittenSheet) (name : String) : Option CellValue := do
  let l ← Location.ofA1? s.name name
  return (← s.cells.lookup ⟨l.row, l.col⟩).value

/-- The sheet as lines of text: its cells that are not empty, then its tables. -/
def lines (s : WrittenSheet) : List String :=
  let cells := s.cells.filter fun entry => !entry.2.value.isEmpty
  ["== " ++ s.name ++ " =="]
    ++ cells.map (fun entry => entry.1.a1 ++ ": " ++ entry.2.value.display)
    ++ s.tables.map fun t => "table " ++ t.name ++ " " ++ t.block.text

end WrittenSheet

/-- Where a sink writes. -/
inductive Medium where
  | memory
  | file
deriving DecidableEq

/-- What was written. -/
structure Sink where
  medium : Medium := .memory
  /-- Why the file cannot be made, if it cannot. -/
  saveFault : Option String := none
  sheets : List WrittenSheet := []
  savedTo : Option String := none
  /-- The table names in use, in lower case. -/
  tableNames : List String := []
  /-- What is to be reported, in order. -/
  report : List Notice := []

/-- An operation of a sink. -/
abbrev SinkM := ExceptT SheetError (StateM Sink)

/-- The number of rows that a file can number. -/
def rowBound : Nat := UInt32.size

/-- The number of columns that a file can number. -/
def colBound : Nat := UInt16.size

/-- All table styles that a file can name. -/
def tableStyles : List String :=
  "None" :: ((List.range 21).map fun i => "Light" ++ Number.natText (i + 1))
    ++ ((List.range 28).map fun i => "Medium" ++ Number.natText (i + 1))
    ++ ((List.range 11).map fun i => "Dark" ++ Number.natText (i + 1))

/-- A name without the words that may stand in front of the name of a table style. -/
def bareStyleName (name : String) : List Char :=
  let cs := name.toList
  if ("TableStyle".toList.isPrefixOf cs || "tablestyle".toList.isPrefixOf cs) then cs.drop 10
  else cs

/-- The table style that a name means, whatever its case. -/
def tableStyle? (name : String) : Option String :=
  let bare := (bareStyleName name).map Char.toLower
  tableStyles.find? fun style => style.toList.map Char.toLower == bare

namespace SinkM

/-- The error of a sheet that was never created. -/
def unknownSheet (medium : Medium) (handle : Nat) : SheetError :=
  match medium with
  | .memory => .invalidSheetName ("#" ++ Number.natText handle)
  | .file => .writer

/-- Change a sheet. -/
def onSheet (handle : Nat) (f : WrittenSheet → WrittenSheet) : SinkM Unit := do
  let sink ← get
  if handle < sink.sheets.length then
    set { sink with sheets := sink.sheets.modify handle f }
  else throw (unknownSheet sink.medium handle)

/-- Refuse a cell that a file cannot number. -/
def checkCell (c : Cell) : SinkM Unit := do
  if (← get).medium = .file ∧ ¬(c.row < rowBound ∧ c.col < colBound) then
    throw (.cellOutOfRange c.row c.col)

/-- Add a sheet; its number is the answer. -/
def createSheet (name : String) : SinkM Nat := do
  let sink ← get
  set { sink with sheets := sink.sheets ++ [WrittenSheet.mk name {} [] [] [] false []] }
  return sink.sheets.length

/-- Set the settings of a sheet. -/
def configure (handle : Nat) (options : SheetOptions) : SinkM Unit :=
  onSheet handle fun s => { s with options }

/-- Write a value to a cell. -/
def writeCell (handle : Nat) (cell : Cell) (value : CellValue) (style : CellStyle) :
    SinkM Unit := do
  checkCell cell
  onSheet handle fun s =>
    { s with writes := ⟨⟨cell, cell⟩, false, value, style⟩ :: s.writes }

/-- Merge a block and write a value to it. -/
def mergeCells (handle : Nat) (block : Block) (value : CellValue) (style : CellStyle) :
    SinkM Unit := do
  checkCell block.first
  checkCell block.last
  onSheet handle fun s => { s with writes := ⟨block, true, value, style⟩ :: s.writes }

/-- Set the width of a column. -/
def setColumnWidth (handle col : Nat) (width : Float) : SinkM Unit := do
  checkCell ⟨0, col⟩
  onSheet handle fun s => { s with widths := s.widths ++ [(col, width)] }

/-- Set the height of a row. -/
def setRowHeight (handle row : Nat) (height : Float) : SinkM Unit := do
  checkCell ⟨row, 0⟩
  onSheet handle fun s => { s with heights := s.heights ++ [(row, height)] }

/-- Fit the columns of a sheet to their content. -/
def autofit (handle : Nat) : SinkM Unit :=
  onSheet handle fun s => { s with autofit := true }

/-- Report a table style that a file cannot name. -/
def checkTableStyle (options : TableOptions) : SinkM Unit := do
  if let some style := options.style then
    if (tableStyle? style).isNone then
      modify fun sink =>
        { sink with report := sink.report ++
          [.warning ("unknown table style " ++ Text.quoted style ++ "; using the default")] }

/-- Mark a table name as used. -/
def takeTableName (key : String) : SinkM Unit :=
  modify fun sink => { sink with tableNames := key :: sink.tableNames }

/-- Define a table.  Its name must differ from all others even when case is ignored.  In memory the
name is taken first, in a file only when the table is there. -/
def defineTable (handle : Nat) (table : TableSpec) : SinkM Unit := do
  let key := Text.lowercase table.name
  if (← get).tableNames.contains key then throw (.duplicateTableName table.name)
  let add := onSheet handle fun s => { s with tables := s.tables ++ [table] }
  match (← get).medium with
  | .memory =>
    takeTableName key
    add
  | .file =>
    checkCell table.block.first
    checkCell table.block.last
    checkTableStyle table.options
    add
    takeTableName key

/-- Finish the file under a path. -/
def save (path : String) : SinkM Unit := do
  if let some reason := (← get).saveFault then throw (.notSaved reason)
  modify fun sink => { sink with savedTo := some path }

end SinkM

/-- Everything in a sink as text, sheet by sheet. -/
def Sink.listing (sink : Sink) : String :=
  String.join ((sink.sheets.flatMap (·.lines)).map (· ++ "\n"))

end Spreadsheet
