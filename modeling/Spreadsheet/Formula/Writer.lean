import Spreadsheet.Resolve.Grid
import Spreadsheet.Formula.CleanUp
import Spreadsheet.Formula.FutureName
import Spreadsheet.Formula.Functions

/-!
# Writing formulas

A formula becomes text when its cell is written, after every sheet is placed.  A placed cell is
written as its location.  The content of a cell that is on no sheet is put into the formula itself,
as deep as such cells refer to each other, up to a limit; a reference to nothing is written as an
error value.  With strict references both are failures.  A binary operation is always put in
parentheses, and a pair around the whole formula is removed at the end.
-/

namespace Spreadsheet

/-- How many unplaced cells deep a formula may go. -/
def inlineLimit : Nat := 64

/-- What is written for a reference to nothing. -/
def referenceError : String := "#REF!"

namespace Store

/-- A cell in words, for messages. -/
def describeCell (s : Store) (c : CellId) : String :=
  let n := s.cell c
  match n.id, n.header, n.value with
  | some id, _, _ => "cell " ++ Text.quoted id
  | none, some header, _ => "cell " ++ Text.quoted header
  | none, none, .empty => if n.formula.isSome then "a formula cell" else "an empty cell"
  | none, none, value => "cell " ++ value.literal

/-- The cells that a block covers, header cells only when they are asked for. -/
def blockCells (s : Store) (target : Element) (includeHeaders : Bool) : List CellId :=
  (s.leaves target).filter fun c => includeHeaders || !(s.cell c).isHeader

/-- The corners of the block that an element covers, once it is placed. -/
def blockRange? (s : Store) (target : Element) (includeHeaders : Bool) :
    Option (Location × Location) :=
  match target with
  | .vector v => s.vectorRange? includeHeaders v
  | .frame f => s.frameRange? includeHeaders f
  | .stack _ => do
    let cells := s.blockCells target includeHeaders
    return (← (s.cell (← cells.head?)).location, ← (s.cell (← cells.getLast?)).location)
  | _ => none

end Store

/-- The text of an operation with one operand. -/
def unaryText (op : Template.UnaryOp) (operand : String) : String :=
  match op with
  | .neg => "-" ++ operand
  | .plus => "+" ++ operand
  | .percent => operand ++ "%"

/-- The text of an operation with two operands. -/
def binaryText (spacing : Bool) (op : Template.BinaryOp) (lhs rhs : String) : String :=
  let blank := if spacing then " " else ""
  "(" ++ lhs ++ blank ++ op.symbol ++ blank ++ rhs ++ ")"

/-- The text of a block, as a formula on a sheet writes it. -/
def spanText (sheet : String) (first last : Location) : String :=
  if first = last then first.qualified sheet else first.qualified sheet ++ ":" ++ last.a1

namespace BuildM

/-- Write a reference to nothing. -/
def missingText (what : String) : BuildM String := do
  if (← get).config.strictReferences then throw (.missingReference what)
  warnMissing what
  return referenceError

/-- Write an element's content in place of its location. -/
def unplacedText (cellText : CellId → BuildM String) (cells : List CellId) (what : String) :
    BuildM String := do
  if (← get).config.strictReferences then throw (.missingReference what)
  if cells.isEmpty then missingText what
  else
    warnInline what
    return ", ".intercalate (← cells.mapM cellText)

/-- Write the block that an element covers. -/
def rangeText (cellText : CellId → BuildM String) (sheet : String) (target : Element)
    (includeHeaders : Bool) : BuildM String := do
  let s := (← get).store
  match target with
  | .gap _ => throw .arithmeticOnGap
  | .expression _ | .call _ => throw (s.pendingError target)
  | _ =>
    match s.blockRange? target includeHeaders with
    | some (first, last) => return spanText sheet first last
    | none =>
      unplacedText cellText (s.blockCells target includeHeaders) ("a " ++ (s.kind target).name)

/-- The failure of a formula that goes too deep. -/
def tooDeep : SheetError :=
  .missingReference "formula nests too deeply through unplaced cells"

/-- Fail when a formula goes too deep through unplaced cells. -/
def checkDepth (depth : Nat) : BuildM Unit := do
  if inlineLimit < depth then throw tooDeep

mutual

/-- Write a formula that stands `depth` unplaced cells deep.  `cellText` writes a reference to a
cell that is so many cells deep. -/
def renderAt (cellText : Nat → CellId → BuildM String) (sheet : String) (depth : Nat) :
    Formula → BuildM String
  | .literal value => do checkDepth depth; return value.literal
  | .ref c => do checkDepth depth; cellText depth c
  | .range target includeHeaders => do
    checkDepth depth
    match target with
    | .cell c => cellText depth c
    | _ => rangeText (cellText (depth + 1)) sheet target includeHeaders
  | .span first last => do
    checkDepth depth
    let s := (← get).store
    match (s.cell first).location, (s.cell last).location with
    | some a, some b => return spanText sheet a b
    | _, _ => unplacedText (cellText (depth + 1)) [first, last] "a cell span"
  | .unary op operand => do
    checkDepth depth
    return unaryText op (← renderAt cellText sheet depth operand)
  | .binary op lhs rhs => do
    checkDepth depth
    let left ← renderAt cellText sheet depth lhs
    let right ← renderAt cellText sheet depth rhs
    return binaryText (← get).config.operatorSpacing op left right
  | .call name args => do
    checkDepth depth
    return name ++ "(" ++ ", ".intercalate (← renderAll cellText sheet depth args) ++ ")"
  | .list items => do
    checkDepth depth
    return ", ".intercalate (← renderAll cellText sheet depth items)

/-- Write the formulas of a list. -/
def renderAll (cellText : Nat → CellId → BuildM String) (sheet : String) (depth : Nat) :
    List Formula → BuildM (List String)
  | [] => return []
  | f :: rest => do
    let text ← renderAt cellText sheet depth f
    return text :: (← renderAll cellText sheet depth rest)

end

/-- Write the location of a cell, or, where it has none, its content; `inlined` writes a formula in
the place of its cell. -/
def placedText (sheet : String) (inlined : Formula → BuildM String) (c : CellId) :
    BuildM String := do
  let s := (← get).store
  let n := s.cell c
  match n.location with
  | some location => return location.qualified sheet
  | none =>
    if n.value.isEmpty && n.formula.isNone then missingText (s.describeCell c)
    else
      if (← get).config.strictReferences then throw (.missingReference (s.describeCell c))
      warnInline (s.describeCell c)
      match n.formula with
      | none => return n.value.literal
      | some formula =>
        let inner ← inlined formula
        return "(" ++ String.ofList (Formula.stripOuterParens inner.toList) ++ ")"

/-- Write a reference to a cell that is `depth` unplaced cells deep, going at most `fuel` deeper. -/
def cellText (sheet : String) : Nat → Nat → CellId → BuildM String
  | 0, _, c => placedText sheet (fun _ => throw tooDeep) c
  | fuel + 1, depth, c =>
    placedText sheet (fun formula => renderAt (cellText sheet fuel) sheet (depth + 1) formula) c

/-- The finished text of a formula for a cell on a sheet. -/
def formulaText (sheet : String) (formula : Formula) : BuildM String := do
  let text ← renderAt (cellText sheet (inlineLimit + 2)) sheet 0 formula
  let body := Formula.collapseSeparators (Formula.stripOuterParens text.toList)
  return String.ofList ('=' :: Formula.markFutureFunctions Formula.isKnownFunction body)

end BuildM

end Spreadsheet
