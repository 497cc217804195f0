import Spreadsheet.Layout
import Spreadsheet.Layout.Write
import Spreadsheet.Resolve.FixedPoint

/-!
# Workbooks

A sheet is a vertical stack of blocks with settings; a workbook is a list of sheets with settings
for those that have none of their own.  Writing a workbook resolves all references, lays out all
sheets and then writes them in order.  The names known to the build are forgotten after every write.
-/

namespace Spreadsheet

/-- A sheet. -/
structure Sheet where
  root : StackId
  title : Option String := none
  tabColor : Option Color := none
  zoom : Option Nat := none
  hidden : Bool := false
  /-- Blank rows below the last block. -/
  endGap : Nat := 0
  /-- Whether the sheet is resolved apart and its local names are forgotten after it. -/
  isolate : Option Bool := none
  background : Option Color := none
  cellStyle : CellStyle := .unset
  headerStyle : CellStyle := .unset
  tableStyle : TableOptions := {}

/-- The path of a workbook that is given none. -/
def defaultPath : String := "workbook.xlsx"

/-- A workbook. -/
structure Workbook where
  sheets : List Sheet
  path : String := defaultPath
  tabColor : Option Color := none
  zoom : Option Nat := none
  /-- Whether sheets that do not say so are isolated. -/
  isolate : Bool := false
  cellStyle : CellStyle := .unset
  headerStyle : CellStyle := .unset
  tableStyle : TableOptions := {}

/-- A zoom within the bounds that are shown. -/
def clampZoom (percent : Nat) : Nat :=
  max 10 (min percent 400)

namespace Sheet

/-- The stack of the sheet's blocks. -/
def element (s : Sheet) : Element :=
  .stack s.root

/-- The style settings of the sheet over those of its workbook. -/
def inherited (s : Sheet) (w : Workbook) : Inherited where
  cellStyle := s.cellStyle.inherit w.cellStyle
  headerStyle := s.headerStyle.inherit w.headerStyle
  background := s.background

/-- The settings of the sheet, those of its workbook where it has none.  The first sheet is the one
shown at first. -/
def options (s : Sheet) (w : Workbook) (position : Nat) : SheetOptions where
  tabColor := s.tabColor <|> w.tabColor
  zoom := s.zoom <|> w.zoom
  hidden := s.hidden
  active := position == 0

/-- The name of the sheet at a position. -/
def nameAt (s : Sheet) (position : Nat) : String :=
  s.title.getD ("Sheet" ++ Number.natText (position + 1))

end Sheet

/-- How a file is opened once it is saved. -/
structure Desktop where
  /-- Why the file that is there cannot be written, if it cannot. -/
  blocked : Option String
  /-- Why no viewer can be launched, if none can. -/
  noViewer : Option String

namespace Workbook

/-- The nodes that a workbook holds. -/
def nodes (w : Workbook) : List Node :=
  w.sheets.map (.stack ·.root)

/-- The names of sheets from a position on; names differ even when case is ignored. -/
def namesFrom (position : Nat) (taken : List String) : List Sheet → Except SheetError (List String)
  | [] => .ok []
  | sheet :: rest => do
    let name ← sheetName (sheet.nameAt position)
    let key := Text.lowercase name
    if taken.contains key then throw (.invalidSheetName name)
    return name :: (← namesFrom (position + 1) (key :: taken) rest)

/-- The names of all sheets: titles, or else numbers. -/
def sheetNames (w : Workbook) : Except SheetError (List String) :=
  namesFrom 0 [] w.sheets

/-- Whether a sheet is isolated. -/
def isolates (w : Workbook) (sheet : Sheet) : Bool :=
  sheet.isolate.getD w.isolate

/-- Resolve sheets in order, after those whose roots are given.  An isolated sheet is resolved
together with those before it, as far as that goes, and its local names are forgotten. -/
def resolveFrom (w : Workbook) (roots : List Element) : List Sheet → BuildM Unit
  | [] => BuildM.resolve roots
  | sheet :: rest => do
    let roots := roots ++ [sheet.element]
    if w.isolates sheet then
      try BuildM.resolve roots
      catch
        | .unresolvedReference .. => pure ()
        | e => throw e
      modify fun b => b.clearScope sheet.element
    resolveFrom w roots rest

/-- Resolve all references of a workbook. -/
def resolve (w : Workbook) : BuildM Unit :=
  w.resolveFrom [] w.sheets

/-- Lay out a sheet under its name. -/
def layOutSheet (w : Workbook) (sheet : Sheet) (name : String) : BuildM Unit := do
  if 0 < sheet.endGap then BuildM.push sheet.element (.gap { size := sheet.endGap })
  BuildM.layOut sheet.element name (sheet.inherited w)

/-- Create the sheets of a workbook in the sink, from a position on; their handles. -/
def createSheets (w : Workbook) (position : Nat) : List (Sheet × String) → SinkM (List Nat)
  | [] => return []
  | (sheet, name) :: rest => do
    let handle ← SinkM.createSheet name
    SinkM.configure handle (sheet.options w position)
    return handle :: (← w.createSheets (position + 1) rest)

/-- Write the cells and the tables of a sheet. -/
def writeSheet (w : Workbook) (sheet : Sheet) (name : String) (handle : Nat) : WriteM Unit := do
  let cells ← WriteM.writeCells sheet.element handle name
  let attempts := (← get).build.config.tableNameAttempts
  let tables ←
    WriteM.defineTables sheet.element handle name (sheet.tableStyle.inherit w.tableStyle) attempts
  WriteM.ofBuild (BuildM.note (.info ("sheet " ++ name ++ ": " ++ Number.natText cells
    ++ " cell(s), " ++ Number.natText tables ++ " table(s)")))

/-- Fail where a file could not be opened after all the work. -/
def checkWritable (path : String) (desktop : Desktop) : BuildM Unit := do
  if let some reason := desktop.blocked then
    throw (.autoOpen path (.notWritable reason))

/-- Open a file. -/
def openFile (path : String) (desktop : Desktop) : BuildM Unit := do
  BuildM.note (.info ("opening " ++ path))
  if let some reason := desktop.noViewer then
    throw (.autoOpen path (.noViewer reason))

/-- Build a workbook into the sink and save it under a path; open it if there is a desktop. -/
def build (w : Workbook) (path : String) (desktop : Option Desktop) : WriteM Unit := do
  let names ← WriteM.ofBuild (BuildM.ofExcept w.sheetNames)
  let sheets := w.sheets.zip names
  desktop.forM fun d => WriteM.ofBuild (checkWritable path d)
  WriteM.ofBuild w.resolve
  sheets.forM fun (sheet, name) => WriteM.ofBuild (w.layOutSheet sheet name)
  let handles ← WriteM.ofSink (w.createSheets 0 sheets)
  (sheets.zip handles).forM fun ((sheet, name), handle) => w.writeSheet sheet name handle
  WriteM.ofSink (SinkM.save path)
  WriteM.ofBuild (BuildM.note (.info ("saved " ++ path)))
  desktop.forM fun d => WriteM.ofBuild (openFile path d)

/-- Build a workbook into a sink and save it under a path.  The names known to the build are
forgotten, whether or not it succeeds. -/
def write (w : Workbook) (path : String) (desktop : Option Desktop) : WriteM Unit := do
  tryFinally (w.build path desktop)
    (modify fun s => { s with build := s.build.clearAll })

end Workbook

end Spreadsheet
