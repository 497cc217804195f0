import Spreadsheet.Sink
import Spreadsheet.SheetName
import Spreadsheet.Formula.Writer

/-!
# Writing a sheet

Every placed cell under a root is written once, in order; a cell that is already written is an
error.  Formulas become text just before.  Widths and heights follow, the largest for each column
and row, and at last the tables.
-/

namespace Spreadsheet

/-- A build together with the sink it is written to. -/
structure Writing where
  build : Build
  sink : Sink

/-- An operation of a build that writes. -/
abbrev WriteM := ExceptT SheetError (StateM Writing)

namespace WriteM

/-- Run an operation of the build. -/
def ofBuild {α : Type} (m : BuildM α) : WriteM α :=
  fun w => let (r, build) := m.run w.build; (r, { w with build })

/-- Run an operation of the sink. -/
def ofSink {α : Type} (m : SinkM α) : WriteM α :=
  fun w => let (r, sink) := m.run w.sink; (r, { w with sink })

end WriteM

namespace BuildM

/-- Mark a cell as written, once. -/
def markWritten (c : CellId) : BuildM Unit := do
  let n := (← get).store.cell c
  if n.written then
    throw (.alreadyWritten ((n.location.map Location.describe).getD "(unplaced)"))
  changeStore fun s => s.updateCell c fun n => { n with written := true }

/-- Replace the value of a cell by the text of its formula, if it has one. -/
def finishFormula (sheet : String) (c : CellId) : BuildM Unit := do
  if let some formula := ((← get).store.cell c).formula then
    let text ← formulaText sheet formula
    changeStore fun s => s.updateCell c fun n => { n with value := .formula text }

end BuildM

/-- The larger of the sizes given for each index, by index. -/
def largestSizes (entries : List (Nat × Float)) : List (Nat × Float) :=
  let indices := (entries.map (·.1)).mergeSort.eraseDups
  indices.filterMap fun i =>
    match (entries.filter (·.1 == i)).map (·.2) with
    | [] => none
    | size :: sizes => some (i, sizes.foldl Number.larger size)

namespace WriteM

/-- Write a cell to a sheet, if it is placed; its location and style. -/
def writeLeaf (handle : Nat) (sheet : String) (c : CellId) :
    WriteM (Option (Location × CellStyle)) := do
  match ((← get).build.store.cell c).location with
  | none => return none
  | some l =>
    ofBuild (BuildM.markWritten c)
    ofBuild (BuildM.finishFormula sheet c)
    let n := (← get).build.store.cell c
    let first : Cell := ⟨l.row, l.col⟩
    if 1 < n.merge.rows ∨ 1 < n.merge.cols then
      let last : Cell := ⟨l.row + n.merge.rows - 1, l.col + n.merge.cols - 1⟩
      ofSink (SinkM.mergeCells handle ⟨first, last⟩ n.value n.style)
    else ofSink (SinkM.writeCell handle first n.value n.style)
    return some (l, n.style)

/-- Write every cell under an element to a sheet, then sizes; the number of cells written. -/
def writeCells (root : Element) (handle : Nat) (sheet : String) : WriteM Nat := do
  let cells := (← get).build.store.leaves root
  let written := (← cells.mapM (writeLeaf handle sheet)).filterMap id
  let widths := written.filterMap fun (l, style) => style.colWidth.map (l.col, ·)
  let heights := written.filterMap fun (l, style) => style.rowHeight.map (l.row, ·)
  for (col, width) in largestSizes widths do
    ofSink (SinkM.setColumnWidth handle col width)
  for (row, height) in largestSizes heights do
    ofSink (SinkM.setRowHeight handle row height)
  if written.any fun (_, style) => style.autofit == some true then ofSink (SinkM.autofit handle)
  return written.length

/-- Define a table under a name, or under the name with the first number from two on that is free.
`tried` names were taken already. -/
def defineWithin (handle : Nat) (spec : TableSpec) (base : String) :
    (attempts tried : Nat) → (last : SheetError) → WriteM Unit
  | 0, tried, last => throw (.tableNameCollision base tried last)
  | attempts + 1, tried, _ => do
    let name := if tried = 0 then base else base ++ "_" ++ Number.natText (tried + 1)
    let w ← get
    match (SinkM.defineTable handle { spec with name }).run w.sink with
    | (.ok (), sink) => set { w with sink }
    | (.error (.duplicateTableName taken), sink) =>
      set { w with sink }
      defineWithin handle spec base attempts (tried + 1) (.duplicateTableName taken)
    | (.error other, sink) =>
      set { w with sink }
      throw other

/-- Define the table of a frame, if it covers a block. -/
def defineTable (handle : Nat) (sheet : String) (defaults : TableOptions) (attempts : Nat)
    (f : FrameId) (options : TableOptions) : WriteM Bool := do
  let s := (← get).build.store
  let options := options.inherit defaults
  match s.frameRange? true f with
  | none => return false
  | some (first, last) =>
    let base := options.name.getD (tableNameOf sheet)
    let spec : TableSpec :=
      { block := ⟨⟨first.row, first.col⟩, ⟨last.row, last.col⟩⟩
        name := base
        options
        headers := (s.frameVectors f).map fun v => (s.vector v).header.getD "" }
    defineWithin handle spec base (max attempts 1) 0 (.duplicateTableName base)
    return true

/-- Define the tables under an element; how many there are. -/
def defineTables (root : Element) (handle : Nat) (sheet : String) (defaults : TableOptions)
    (attempts : Nat) : WriteM Nat := do
  let s := (← get).build.store
  let tables := (s.subtree root).filterMap fun
    | .frame f => (s.frame f).table.map (f, ·)
    | _ => none
  let defined ← tables.mapM fun (f, options) => defineTable handle sheet defaults attempts f options
  return defined.countP (·)

end WriteM

end Spreadsheet
