import Spreadsheet.Config
import Spreadsheet.Toml.Document
import Spreadsheet.Toml.Fields

/-!
# Descriptions of workbooks

A workbook can be described in TOML: settings, then sheets of blocks.  A block is a row, a column, a
frame of columns or of rows, or a gap.  This module holds what a description says and reads it from
TOML; whether it makes sense is seen when the workbook is built from it.
-/

namespace Spreadsheet

open Toml (field? fieldOr fieldsOf)

/-- What a block is. -/
inductive BlockKind where
  | col | row
  /-- A frame of columns. -/
  | frame
  /-- A frame of rows. -/
  | vframe
  | gap
deriving DecidableEq

namespace BlockKind

/-- All kinds with their names. -/
def named : List (BlockKind × String) :=
  [(col, "col"), (row, "row"), (frame, "frame"), (vframe, "vframe"), (gap, "gap")]

/-- The name of a kind. -/
def name (k : BlockKind) : String :=
  ((named.find? (·.1 == k)).map (·.2)).getD ""

/-- The kind with a name. -/
def ofName? (name : String) : Option BlockKind :=
  (named.find? (·.2 == name)).map (·.1)

end BlockKind

/-- Switched on or off, or named. -/
inductive Switch where
  | flag (on : Bool)
  | named (name : String)

/-- One vector of a frame. -/
structure ColumnDescription where
  id : Option String := none
  header : Option String := none
  values : List Toml.Value := []
  /-- A template for the whole vector, in place of values. -/
  formula : Option String := none
  bold : Option Bool := none
  numberFormat : Option String := none

/-- A block. -/
structure BlockDescription where
  kind : BlockKind
  id : Option String := none
  header : Option String := none
  values : List Toml.Value := []
  columns : List ColumnDescription := []
  table : Option Switch := none
  border : Option Switch := none
  fill : Option String := none
  bold : Option Bool := none
  numberFormat : Option String := none
  /-- The size of a gap. -/
  size : Option Nat := none

/-- A sheet. -/
structure SheetDescription where
  title : Option String := none
  tabColor : Option String := none
  zoom : Option Nat := none
  hidden : Bool := false
  endGap : Nat := 0
  isolate : Option Bool := none
  background : Option String := none
  blocks : List BlockDescription := []

/-- The settings of a workbook. -/
structure WorkbookSettings where
  path : Option String := none
  tabColor : Option String := none
  zoom : Option Nat := none
  isolate : Option Bool := none

/-- A workbook. -/
structure Description where
  workbook : WorkbookSettings := {}
  sheets : List SheetDescription := []

/-- Zooms are below this bound. -/
def zoomBound : Nat := UInt16.size

/-- Sizes and numbers of attempts are below this bound. -/
def sizeBound : Nat := UInt64.size

/-- A switch. -/
def Switch.read : Toml.Value → Option Switch
  | .boolean on => some (.flag on)
  | .string name => some (.named name)
  | _ => none

/-- The kind of a block: its name, or a table with the name as its only key and nothing under it. -/
def BlockKind.read : Toml.Value → Option BlockKind
  | .string name | .table [(name, .table [])] | .table [(name, .array [])] => ofName? name
  | _ => none

/-- Any value. -/
def readAny (v : Toml.Value) : Option Toml.Value :=
  some v

/-- One vector of a frame. -/
def ColumnDescription.read (v : Toml.Value) : Option ColumnDescription := do
  let fields ← fieldsOf ["id", "header", "values", "formula", "bold", "number_format"] 0 v
  return {
    id := ← field? fields "id" Toml.Value.text?
    header := ← field? fields "header" Toml.Value.text?
    values := ← fieldOr fields "values" (Toml.Value.list? readAny) []
    formula := ← field? fields "formula" Toml.Value.text?
    bold := ← field? fields "bold" Toml.Value.flag?
    numberFormat := ← field? fields "number_format" Toml.Value.text? }

/-- The fields of a block. -/
def BlockDescription.fieldNames : List String :=
  ["kind", "id", "header", "values", "columns", "table", "border", "fill", "bold", "number_format",
    "size"]

/-- A block. -/
def BlockDescription.read (v : Toml.Value) : Option BlockDescription := do
  let fields ← fieldsOf fieldNames fieldNames.length v
  return {
    kind := ← (fields.lookup "kind").bind BlockKind.read
    id := ← field? fields "id" Toml.Value.text?
    header := ← field? fields "header" Toml.Value.text?
    values := ← fieldOr fields "values" (Toml.Value.list? readAny) []
    columns := ← fieldOr fields "columns" (Toml.Value.list? ColumnDescription.read) []
    table := ← field? fields "table" Switch.read
    border := ← field? fields "border" Switch.read
    fill := ← field? fields "fill" Toml.Value.text?
    bold := ← field? fields "bold" Toml.Value.flag?
    numberFormat := ← field? fields "number_format" Toml.Value.text?
    size := ← field? fields "size" (Toml.Value.natural? sizeBound) }

/-- A sheet. -/
def SheetDescription.read (v : Toml.Value) : Option SheetDescription := do
  let fields ← fieldsOf ["title", "tab_color", "zoom", "hidden", "end_gap", "isolate",
    "background_color", "blocks"] 0 v
  return {
    title := ← field? fields "title" Toml.Value.text?
    tabColor := ← field? fields "tab_color" Toml.Value.text?
    zoom := ← field? fields "zoom" (Toml.Value.natural? zoomBound)
    hidden := ← fieldOr fields "hidden" Toml.Value.flag? false
    endGap := ← fieldOr fields "end_gap" (Toml.Value.natural? sizeBound) 0
    isolate := ← field? fields "isolate" Toml.Value.flag?
    background := ← field? fields "background_color" Toml.Value.text?
    blocks := ← fieldOr fields "blocks" (Toml.Value.list? BlockDescription.read) [] }

/-- The settings of a workbook. -/
def WorkbookSettings.read (v : Toml.Value) : Option WorkbookSettings := do
  let fields ← fieldsOf ["path", "tab_color", "zoom", "isolate"] 0 v
  return {
    path := ← field? fields "path" Toml.Value.text?
    tabColor := ← field? fields "tab_color" Toml.Value.text?
    zoom := ← field? fields "zoom" (Toml.Value.natural? zoomBound)
    isolate := ← field? fields "isolate" Toml.Value.flag? }

/-- A workbook. -/
def Description.read (v : Toml.Value) : Option Description := do
  let fields ← fieldsOf ["workbook", "sheets"] 0 v
  return {
    workbook := ← fieldOr fields "workbook" WorkbookSettings.read {}
    sheets := ← fieldOr fields "sheets" (Toml.Value.list? SheetDescription.read) [] }

/-- A workbook described in a TOML document. -/
def Description.ofToml (text : String) : Option Description := do
  Description.read (.table (← Toml.readDocument text))

/-- The options of a build. -/
def Config.read (v : Toml.Value) : Option Config := do
  let fields ← fieldsOf ["max_resolve_attempts", "strict_references", "operator_spacing",
    "table_name_attempts", "auto_open"] 0 v
  let standard : Config := {}
  let flag (name : String) := fieldOr fields name Toml.Value.flag?
  let number (name : String) := fieldOr fields name (Toml.Value.natural? sizeBound)
  return {
    maxResolveAttempts := ← number "max_resolve_attempts" standard.maxResolveAttempts
    strictReferences := ← flag "strict_references" standard.strictReferences
    operatorSpacing := ← flag "operator_spacing" standard.operatorSpacing
    tableNameAttempts := ← number "table_name_attempts" standard.tableNameAttempts
    autoOpen := ← flag "auto_open" standard.autoOpen }

/-- The options of a build, given in a TOML document. -/
def Config.ofToml (text : String) : Option Config := do
  Config.read (.table (← Toml.readDocument text))

end Spreadsheet
