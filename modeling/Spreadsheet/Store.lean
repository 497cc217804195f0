import Spreadsheet.Location
import Spreadsheet.Formula
import Spreadsheet.Table
import Spreadsheet.Style.Spacing
import Spreadsheet.Template.Prepared

/-!
# The store of nodes

All nodes of a layout with their current state, by kind and number.  Nodes are added and changed but
never removed; which of them are still in use is a matter of `Lifetime`.
-/

namespace Spreadsheet

/-- A cell. -/
structure CellNode where
  value : CellValue := .empty
  /-- A formula not yet written. -/
  formula : Option Formula := none
  style : CellStyle := .unset
  /-- The block that the cell covers, at least one row and one column. -/
  merge : Extent := ⟨1, 1⟩
  id : Option String := none
  /-- The header of the vector that the cell becomes when it has to be one. -/
  header : Option String := none
  location : Option Location := none
  written : Bool := false
  inheritsStyle : Bool := true
  isHeader : Bool := false
deriving Inhabited

/-- What all containers have. -/
structure Attributes where
  id : Option String := none
  /-- The border around the container. -/
  border : Border := .unset
  /-- The style that cells inside inherit. -/
  cellStyle : CellStyle := .unset
  /-- The style that header cells inside inherit first. -/
  headerStyle : CellStyle := .unset
  /-- The fill colour of cells inside that have none. -/
  background : Option Color := none
  margin : Spacing := .none
  padding : Spacing := .none
  /-- The top left corner, once placed. -/
  location : Option Location := none
  /-- Blank space takes no style. -/
  inheritsStyle : Bool := true

instance : Inhabited Attributes := ⟨{}⟩

/-- A row or a column. -/
structure VectorNode where
  orientation : Orientation
  children : List Element := []
  header : Option String := none
  /-- Whether the header is the first child already. -/
  headerInserted : Bool := false
  attributes : Attributes := {}
deriving Inhabited

/-- A block of parallel vectors. -/
structure FrameNode where
  /-- The axis along which the vectors follow each other. -/
  orientation : Orientation
  children : List Element := []
  /-- Headers to be renamed before writing. -/
  schema : List (String × String) := []
  table : Option TableOptions := none
  /-- The width or height of each vector. -/
  sizes : List (Option Float) := []
  /-- Whether short vectors are filled up with cells in style. -/
  fillEmpty : Bool := false
  attributes : Attributes := {}
deriving Inhabited

/-- A group of blocks. -/
structure StackNode where
  orientation : Orientation
  children : List Element := []
  attributes : Attributes := {}
deriving Inhabited

/-- What a producer passes on to the element that replaces it. -/
structure Declared where
  id : Option String := none
  header : Option String := none
  cellStyle : CellStyle := .unset
  headerStyle : CellStyle := .unset

instance : Inhabited Declared := ⟨{}⟩

instance : Inhabited Template.Prepared := ⟨⟨"", "", [], false, .bool false⟩⟩

/-- A pending reference expression. -/
structure ExpressionNode where
  template : Template.Prepared
  /-- The keys found so far, each with its element. -/
  bound : List (Template.Key × Element) := []
  declared : Declared := {}
deriving Inhabited

/-- An operand of a function call. -/
inductive Argument where
  | literal (value : CellValue)
  | element (element : Element)
  | expression (id : ExpressionId)
  | span (first last : CellId)

/-- A pending function call. -/
structure CallNode where
  name : String
  args : List Argument := []
  /-- The dimension asked for, if it is not left to the container. -/
  result : Option Dimension := none
  declared : Declared := {}
deriving Inhabited

/-- All nodes. -/
structure Store where
  cells : Table CellNode := .empty
  vectors : Table VectorNode := .empty
  frames : Table FrameNode := .empty
  /-- The stacks. -/
  groups : Table StackNode := .empty
  expressions : Table ExpressionNode := .empty
  calls : Table CallNode := .empty

instance : Inhabited Store := ⟨{}⟩

namespace Store

/-! ## Reading -/

/-- The state of a cell. -/
def cell (s : Store) (c : CellId) : CellNode := s.cells.get c.index

/-- The state of a vector. -/
def vector (s : Store) (v : VectorId) : VectorNode := s.vectors.get v.index

/-- The state of a frame. -/
def frame (s : Store) (f : FrameId) : FrameNode := s.frames.get f.index

/-- The state of a stack. -/
def stack (s : Store) (k : StackId) : StackNode := s.groups.get k.index

/-- The state of an expression. -/
def expression (s : Store) (e : ExpressionId) : ExpressionNode := s.expressions.get e.index

/-- The state of a function call. -/
def call (s : Store) (c : CallId) : CallNode := s.calls.get c.index

/-! ## Changing -/

/-- Change a cell. -/
def updateCell (s : Store) (c : CellId) (f : CellNode → CellNode) : Store :=
  { s with cells := s.cells.update c.index f }

/-- Change a vector. -/
def updateVector (s : Store) (v : VectorId) (f : VectorNode → VectorNode) : Store :=
  { s with vectors := s.vectors.update v.index f }

/-- Change a frame. -/
def updateFrame (s : Store) (fr : FrameId) (f : FrameNode → FrameNode) : Store :=
  { s with frames := s.frames.update fr.index f }

/-- Change a stack. -/
def updateStack (s : Store) (k : StackId) (f : StackNode → StackNode) : Store :=
  { s with groups := s.groups.update k.index f }

/-- Change an expression. -/
def updateExpression (s : Store) (e : ExpressionId) (f : ExpressionNode → ExpressionNode) :
    Store :=
  { s with expressions := s.expressions.update e.index f }

/-- Change a function call. -/
def updateCall (s : Store) (c : CallId) (f : CallNode → CallNode) : Store :=
  { s with calls := s.calls.update c.index f }

/-! ## Adding -/

/-- Add a cell. -/
def addCell (s : Store) (n : CellNode) : CellId × Store :=
  (⟨s.cells.size⟩, { s with cells := s.cells.push n })

/-- Add a vector. -/
def addVector (s : Store) (n : VectorNode) : VectorId × Store :=
  (⟨s.vectors.size⟩, { s with vectors := s.vectors.push n })

/-- Add a frame. -/
def addFrame (s : Store) (n : FrameNode) : FrameId × Store :=
  (⟨s.frames.size⟩, { s with frames := s.frames.push n })

/-- Add a stack. -/
def addStack (s : Store) (n : StackNode) : StackId × Store :=
  (⟨s.groups.size⟩, { s with groups := s.groups.push n })

/-- Add an expression. -/
def addExpression (s : Store) (n : ExpressionNode) : ExpressionId × Store :=
  (⟨s.expressions.size⟩, { s with expressions := s.expressions.push n })

/-- Add a function call. -/
def addCall (s : Store) (n : CallNode) : CallId × Store :=
  (⟨s.calls.size⟩, { s with calls := s.calls.push n })

/-! ## Containers of any kind -/

/-- The children of an element, a header cell among them once it is inserted. -/
def children (s : Store) : Element → List Element
  | .vector v => (s.vector v).children
  | .frame f => (s.frame f).children
  | .stack k => (s.stack k).children
  | _ => []

/-- Replace the children of a container. -/
def setChildren (s : Store) (e : Element) (children : List Element) : Store :=
  match e with
  | .vector v => s.updateVector v fun n => { n with children }
  | .frame f => s.updateFrame f fun n => { n with children }
  | .stack k => s.updateStack k fun n => { n with children }
  | _ => s

/-- The attributes of a container. -/
def attributes? (s : Store) : Element → Option Attributes
  | .vector v => some (s.vector v).attributes
  | .frame f => some (s.frame f).attributes
  | .stack k => some (s.stack k).attributes
  | _ => none

/-- Change the attributes of a container. -/
def updateAttributes (s : Store) (e : Element) (f : Attributes → Attributes) : Store :=
  match e with
  | .vector v => s.updateVector v fun n => { n with attributes := f n.attributes }
  | .frame fr => s.updateFrame fr fun n => { n with attributes := f n.attributes }
  | .stack k => s.updateStack k fun n => { n with attributes := f n.attributes }
  | _ => s

/-- The axis of a container. -/
def orientation? (s : Store) : Element → Option Orientation
  | .vector v => some (s.vector v).orientation
  | .frame f => some (s.frame f).orientation
  | .stack k => some (s.stack k).orientation
  | _ => none

/-- The kind of an element. -/
def kind (s : Store) : Element → Kind
  | .cell _ => .cell
  | .vector v => .ofVector (s.vector v).orientation
  | .frame _ => .frame
  | .stack _ => .stack
  | .gap _ => .gap
  | .expression _ => .expression
  | .call _ => .functionCall

/-- The id of an element; that of a producer is the id of its result. -/
def id? (s : Store) : Element → Option String
  | .cell c => (s.cell c).id
  | .vector v => (s.vector v).attributes.id
  | .frame f => (s.frame f).attributes.id
  | .stack k => (s.stack k).attributes.id
  | .gap _ => none
  | .expression e => (s.expression e).declared.id
  | .call c => (s.call c).declared.id

/-- The header of an element; that of a producer is the header of its result. -/
def header? (s : Store) : Element → Option String
  | .cell c => (s.cell c).header
  | .vector v => (s.vector v).header
  | .frame _ | .stack _ | .gap _ => none
  | .expression e => (s.expression e).declared.header
  | .call c => (s.call c).declared.header

/-! ## Reading what was changed -/

@[simp] theorem cell_addCell (s : Store) (n : CellNode) :
    (s.addCell n).2.cell (s.addCell n).1 = n := by
  simp [addCell, cell]

theorem cell_updateCell_self (s : Store) (f : CellNode → CellNode) {c : CellId}
    (h : c.index < s.cells.size) : (s.updateCell c f).cell c = f (s.cell c) :=
  Table.get_update_self s.cells f h

theorem cell_updateCell_of_ne (s : Store) (f : CellNode → CellNode) {c d : CellId} (h : c ≠ d) :
    (s.updateCell c f).cell d = s.cell d :=
  Table.get_update_of_ne s.cells f fun e => h (by cases c; cases d; simp_all)

@[simp] theorem children_updateCell (s : Store) (c : CellId) (f : CellNode → CellNode)
    (e : Element) : (s.updateCell c f).children e = s.children e := by
  cases e <;> rfl

@[simp] theorem children_addCell (s : Store) (n : CellNode) (e : Element) :
    (s.addCell n).2.children e = s.children e := by
  cases e <;> rfl

/-- A number of steps within which every walk down a tree of containers ends. -/
def depthBound (s : Store) : Nat :=
  s.vectors.size + s.frames.size + s.groups.size + 1

end Store

end Spreadsheet
