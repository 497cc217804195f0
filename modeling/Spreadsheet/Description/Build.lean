import Spreadsheet.Description
import Spreadsheet.Producer
import Spreadsheet.Workbook

/-!
# Workbooks from descriptions

A text that starts with an equals sign is a template, and one of the form `@NAME(…)` a function
call whose arguments are templates, numbers or quoted texts.  A vector of a frame can be one
template for all its cells.  An error in a block is reported with its sheet and its number.
-/

namespace Spreadsheet

/-- Why no workbook can be built from a description. -/
inductive DescriptionError where
  | sheet (cause : SheetError)
  /-- A value that no cell can hold, on one line. -/
  | unsupportedValue (text : String)
  | malformedCall (text : String)
  | unexpectedField (kind field : String)
  | block (sheet : String) (number : Nat) (cause : DescriptionError)

/-- The name of the kind of error. -/
def DescriptionError.name : DescriptionError → String
  | .sheet cause => cause.name
  | .unsupportedValue .. => "InvalidValue"
  | .malformedCall .. => "InvalidCall"
  | .unexpectedField .. => "UnexpectedField"
  | .block .. => "Block"

/-- The error in words. -/
def DescriptionError.message : DescriptionError → String
  | .sheet cause => cause.message
  | .unsupportedValue text =>
    "Unsupported value " ++ text ++ ": expected a number, string or boolean"
  | .malformedCall text =>
    "Malformed function call " ++ Text.quoted text ++ ": expected @NAME(arg, ...)"
  | .unexpectedField kind field => "A " ++ kind ++ " block cannot set " ++ field
  | .block place number cause =>
    "Sheet " ++ place ++ ", block " ++ Number.natText number ++ ": " ++ cause.message

/-- The error in words, followed by the error behind it. -/
def DescriptionError.fullMessage : DescriptionError → String
  | .sheet cause => cause.fullMessage
  | e => e.message

/-- Building from a description. -/
abbrev DescribeM := ExceptT DescriptionError (StateM Build)

namespace DescribeM

/-- Run an operation of the build. -/
def ofBuild {α : Type} (m : BuildM α) : DescribeM α :=
  fun b => let (r, b) := m.run b; (r.mapError .sheet, b)

/-- Fail where a color is none. -/
def color (text : String) : DescribeM Color :=
  ofBuild (BuildM.ofExcept (Color.ofHex text))

/-- Refuse a field that a block gives although it has no use for it. -/
def reject (kind field : String) (given : Bool) : DescribeM Unit := do
  if given then throw (.unexpectedField kind field)

end DescribeM

/-! ## Function calls -/

/-- The name and the arguments of a call.  The name is followed by a parenthesis, which is closed
by the last character; there are no line breaks between the parentheses. -/
def callParts? (text : String) : Option (String × List Char) :=
  match text.toList with
  | '@' :: cs =>
    let name := cs.takeWhile fun c => c.isAlphanum || c == '.' || c == '_'
    match cs.drop name.length with
    | '(' :: rest =>
      let args := rest.dropLast
      if name.head?.any Char.isAlpha && rest.getLast? == some ')' && !args.contains '\n' then
        some (String.ofList name, args)
      else none
    | _ => none
  | _ => none

/-- Cut a text at its commas, those inside brackets, parentheses and quotes apart.  `part` holds
the characters before, latest first. -/
def cutAtCommas (part : List Char) (quoted : Bool) (depth : Nat) : List Char → List (List Char)
  | [] => [part.reverse]
  | c :: rest =>
    if c == '"' then cutAtCommas (c :: part) (!quoted) depth rest
    else if !quoted && (c == '[' || c == '(') then cutAtCommas (c :: part) quoted (depth + 1) rest
    else if !quoted && (c == ']' || c == ')') then cutAtCommas (c :: part) quoted (depth - 1) rest
    else if !quoted && depth == 0 && c == ',' then part.reverse :: cutAtCommas [] quoted depth rest
    else cutAtCommas (c :: part) quoted depth rest

/-- The arguments of a call, blanks around them and empty ones left out. -/
def splitArguments (cs : List Char) : List (List Char) :=
  ((cutAtCommas [] false 0 cs).map Text.trim).filter (!·.isEmpty)

/-- The text between quotes. -/
def unquoted? : List Char → Option (List Char)
  | '"' :: rest => if rest.getLast? = some '"' then some rest.dropLast else none
  | _ => none

/-- The operand that an argument is. -/
def operandOf (cs : List Char) : Operand :=
  match Number.read cs, unquoted? cs with
  | some x, _ => .literal (.number x)
  | none, some text => .literal (.text (String.ofList text))
  | none, none => .template (String.ofList cs)

namespace Description

open DescribeM

/-! ## Values -/

/-- The call that a text describes. -/
def callOf (text : String) : DescribeM Element := do
  match callParts? text with
  | some (name, args) =>
    return .call (← ofBuild (BuildM.newCall name ((splitArguments args).map operandOf)))
  | none => throw (.malformedCall text)

/-- A new cell with a value. -/
def cellOf (value : CellValue) : DescribeM Element := do
  return .cell (← ofBuild (BuildM.liftStore (StoreM.newCell { value })))

/-- The element that a value describes. -/
def elementOf : Toml.Value → DescribeM Element
  | .string text =>
    match text.toList with
    | '=' :: template => do
      return .expression (← ofBuild (BuildM.newExpression (String.ofList template)))
    | '@' :: _ => callOf text
    | _ => cellOf (.text text)
  | .integer n => cellOf (.number (Number.ofInt n))
  | .float x => cellOf (.number x)
  | .boolean b => cellOf (.bool b)
  | .datetime text => cellOf (.text text)
  | other => throw (.unsupportedValue other.inline)

/-! ## Blocks -/

/-- The style that a block or a vector describes. -/
def styleOf (bold : Option Bool) (numberFormat : Option String) : CellStyle :=
  { bold, numberFormat }

/-- A vector with a header and an id. -/
def buildVector (orientation : Orientation) (values : List Toml.Value) (header id : Option String) :
    DescribeM VectorId := do
  let items ← values.mapM elementOf
  let v ← ofBuild (BuildM.liftStore (StoreM.newVector { orientation }))
  items.forM fun item => ofBuild (BuildM.push (.vector v) item)
  header.forM fun header => ofBuild (BuildM.setHeader (.vector v) header)
  id.forM fun id => ofBuild (BuildM.setId (.vector v) id)
  return v

/-- One vector of a frame, or the template that stands for it. -/
def buildColumn (orientation : Orientation) (c : ColumnDescription) : DescribeM Element := do
  let cellStyle := styleOf c.bold c.numberFormat
  match c.formula with
  | some template =>
    reject "formula column" "values" (!c.values.isEmpty)
    let e ← ofBuild (BuildM.newExpression template)
    c.header.forM fun header => ofBuild (BuildM.setHeader (.expression e) header)
    c.id.forM fun id => ofBuild (BuildM.setId (.expression e) id)
    ofBuild (BuildM.changeStore fun s =>
      s.updateExpression e ({ · with declared.cellStyle := cellStyle }))
    return .expression e
  | none =>
    let v ← buildVector orientation c.values c.header c.id
    ofBuild (BuildM.changeStore fun s =>
      s.updateAttributes (.vector v) ({ · with cellStyle }))
    return .vector v

/-- The border that a switch describes. -/
def borderOf : Switch → Except SheetError Border
  | .flag true => Border.ofSpec .default
  | .flag false => Border.ofSpec .remove
  | .named text => Border.ofSpec (.text text)

/-- The options of the table that a switch describes. -/
def tableOf : Switch → Option TableOptions
  | .flag true => some {}
  | .flag false => none
  | .named style => some { style := some style }

/-- Fill and surround a container as a block describes. -/
def decorate (e : Element) (b : BlockDescription) : DescribeM Unit := do
  b.fill.forM fun text => do
    let color ← DescribeM.color text
    ofBuild (BuildM.changeStore fun s => s.updateAttributes e ({ · with background := some color }))
  b.border.forM fun switch => do
    let border ← ofBuild (BuildM.ofExcept (borderOf switch))
    ofBuild (BuildM.changeStore fun s => s.updateAttributes e ({ · with border }))

/-- A gap. -/
def buildGap (b : BlockDescription) : DescribeM Element := do
  reject b.kind.name "values" (!b.values.isEmpty)
  reject b.kind.name "columns" (!b.columns.isEmpty)
  let size := b.size.getD 1
  match b.fill with
  | some text =>
    let color ← DescribeM.color text
    return .gap { size, fill := true, style := { fillColor := some color } }
  | none => return .gap { size }

/-- A row or a column. -/
def buildSingle (orientation : Orientation) (b : BlockDescription) : DescribeM Element := do
  reject b.kind.name "columns" (!b.columns.isEmpty)
  reject b.kind.name "table" b.table.isSome
  reject b.kind.name "size" b.size.isSome
  let v ← buildVector orientation b.values b.header b.id
  let e := Element.vector v
  ofBuild (BuildM.changeStore fun s =>
    s.updateAttributes e ({ · with cellStyle := styleOf b.bold b.numberFormat }))
  decorate e b
  return e

/-- A frame. -/
def buildFrame (orientation : Orientation) (b : BlockDescription) : DescribeM Element := do
  reject b.kind.name "values" (!b.values.isEmpty)
  reject b.kind.name "header" b.header.isSome
  reject b.kind.name "size" b.size.isSome
  let vectors ← b.columns.mapM (buildColumn orientation.cross)
  let e := Element.frame (← ofBuild (BuildM.liftStore (StoreM.newFrame { orientation })))
  vectors.forM fun v => ofBuild (BuildM.push e v)
  ofBuild (BuildM.changeStore fun s =>
    s.updateAttributes e ({ · with cellStyle := styleOf b.bold b.numberFormat }))
  b.id.forM fun id => ofBuild (BuildM.setId e id)
  decorate e b
  if let .frame f := e then
    ofBuild (BuildM.changeStore fun s => s.updateFrame f ({ · with table := b.table.bind tableOf }))
  return e

/-- A block. -/
def buildBlock (b : BlockDescription) : DescribeM Element :=
  match b.kind with
  | .gap => buildGap b
  | .col => buildSingle .vertical b
  | .row => buildSingle .horizontal b
  | .frame => buildFrame .horizontal b
  | .vframe => buildFrame .vertical b

/-! ## Sheets and workbooks -/

/-- Put the blocks on a sheet, from a number on. -/
def buildBlocks (root : Element) (label : String) (number : Nat) :
    List BlockDescription → DescribeM Unit
  | [] => return
  | b :: rest => do
    let e ← tryCatch (buildBlock b) fun cause => throw (.block label number cause)
    ofBuild (BuildM.push root e)
    buildBlocks root label (number + 1) rest

/-- A sheet at a position. -/
def buildSheet (d : SheetDescription) (position : Nat) : DescribeM Sheet := do
  let root ← ofBuild (BuildM.liftStore (StoreM.newStack { orientation := .vertical }))
  let title ← d.title.mapM fun title => ofBuild (BuildM.ofExcept (sheetName title))
  let tabColor ← d.tabColor.mapM DescribeM.color
  let background ← d.background.mapM DescribeM.color
  let label := d.title.getD ("#" ++ Number.natText (position + 1))
  buildBlocks (.stack root) label 1 d.blocks
  return {
    root, title, tabColor, background
    zoom := d.zoom.map clampZoom
    hidden := d.hidden
    endGap := d.endGap
    isolate := d.isolate }

/-- Sheets from a position on. -/
def buildSheets (position : Nat) : List SheetDescription → DescribeM (List Sheet)
  | [] => return []
  | d :: rest => do
    let sheet ← buildSheet d position
    return sheet :: (← buildSheets (position + 1) rest)

/-- The workbook that a description describes.  Its nodes are held by the build. -/
def build (d : Description) : DescribeM Workbook := do
  let sheets ← buildSheets 0 d.sheets
  let tabColor ← d.workbook.tabColor.mapM DescribeM.color
  let w : Workbook :=
    { sheets, tabColor
      zoom := d.workbook.zoom.map clampZoom
      isolate := d.workbook.isolate.getD false }
  modify fun b => { b with pins := w.nodes ++ b.pins }
  return w

end Description

end Spreadsheet
