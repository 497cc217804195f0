import Spreadsheet.Build

/-!
# Making and filling containers

A vector holds cells, gaps and producers; a frame holds vectors across its own axis, and a lone cell
becomes one; a stack holds anything, and a lone cell becomes a vector across it.  A copy is new
throughout and carries content, not names or places.
-/

namespace Spreadsheet

/-- An operation on the store that cannot fail. -/
abbrev StoreM := StateM Store

namespace StoreM

/-- Add a cell. -/
def newCell (n : CellNode) : StoreM CellId :=
  modifyGet fun s => s.addCell n

/-- Add a vector. -/
def newVector (n : VectorNode) : StoreM VectorId :=
  modifyGet fun s => s.addVector n

/-- Add a frame. -/
def newFrame (n : FrameNode) : StoreM FrameId :=
  modifyGet fun s => s.addFrame n

/-- Add a stack. -/
def newStack (n : StackNode) : StoreM StackId :=
  modifyGet fun s => s.addStack n

/-- The vector that a lone cell becomes; the cell's header is the vector's. -/
def promote (c : CellId) (o : Orientation) : StoreM VectorId := do
  let header := ((← get).cell c).header
  newVector { orientation := o, children := [.cell c], header }

/-- A cell with the content and style of another. -/
def copyCell (c : CellId) : StoreM CellId := do
  let n := (← get).cell c
  newCell { value := n.value, style := n.style, formula := n.formula, merge := n.merge }

/-- A vector with copies of the cells of another, and its header. -/
def copyVector (v : VectorId) : StoreM VectorId := do
  let n := (← get).vector v
  let cells ← ((← get).vectorCells v).mapM copyCell
  newVector { orientation := n.orientation, children := cells.map .cell, header := n.header }

/-- A frame with copies of the vectors of another. -/
def copyFrame (f : FrameId) : StoreM FrameId := do
  let n := (← get).frame f
  let vectors ← ((← get).frameVectors f).mapM copyVector
  newFrame { orientation := n.orientation, children := vectors.map .vector }

/-- A cell with a formula; a formula that is a literal is the cell's value. -/
def newFormulaCell : Formula → StoreM CellId
  | .literal value => newCell { value }
  | formula => newCell { formula := some formula }

end StoreM

namespace BuildM

/-- Run an operation on the store. -/
def liftStore {α : Type} (m : StoreM α) : BuildM α :=
  onStore fun s => StateT.run m s

/-- Refuse an element as a child. -/
def refuse {α : Type} (container child : Element) : BuildM α := do
  let s := (← get).store
  throw (.incompatibleChild (.element (s.kind container)) (s.kind child))

/-- The vector that a lone cell becomes in a container along an axis. -/
def promoted (c : CellId) (o : Orientation) : BuildM Element := do
  return .vector (← liftStore (StoreM.promote c o.cross))

/-- The child that a container makes of an element, if it takes it. -/
def childFor (container item : Element) : BuildM Element := do
  let s := (← get).store
  match container, item with
  | .vector _, .cell _ | .vector _, .gap _ | .vector _, .expression _ | .vector _, .call _ =>
    return item
  | .frame f, .vector v =>
    if (s.vector v).orientation = (s.frame f).orientation.cross then return item
    else refuse container item
  | .frame f, .cell c => promoted c (s.frame f).orientation
  | .frame _, .gap _ | .frame _, .expression _ | .frame _, .call _ => return item
  | .stack k, .cell c => promoted c (s.stack k).orientation
  | .stack _, _ => return item
  | _, _ => refuse container item

/-- Add an element at the end of a container. -/
def push (container item : Element) : BuildM Unit := do
  let child ← childFor container item
  changeStore fun s => s.setChildren container (s.children container ++ [child])

/-- Add an element to a container in front of the child at a position, or at the end.  Positions in
a vector do not count its header cell. -/
def insert (container : Element) (position : Nat) (item : Element) : BuildM Unit := do
  let child ← childFor container item
  changeStore fun s =>
    let offset := match container with
      | .vector v => (s.vector v).headerInserted.toNat
      | _ => 0
    s.setChildren container ((s.children container).insertIdx
      (min (position + offset) (s.children container).length) child)

/-- Set the id of a container or cell and register it. -/
def setId (e : Element) (id : String) : BuildM Unit := do
  registerId id e
  changeStore fun s =>
    match e with
    | .cell c => s.updateCell c fun n => { n with id := some id }
    | .expression x => s.updateExpression x fun n => { n with declared.id := some id }
    | .call c => s.updateCall c fun n => { n with declared.id := some id }
    | _ => s.updateAttributes e fun a => { a with id := some id }

/-- Set the header of a cell, vector or producer and register it. -/
def setHeader (e : Element) (header : String) : BuildM Unit := do
  registerHeader header e
  changeStore fun s =>
    match e with
    | .cell c => s.updateCell c fun n => { n with header := some header }
    | .vector v => s.updateVector v fun n => { n with header := some header }
    | .expression x => s.updateExpression x fun n => { n with declared.header := some header }
    | .call c => s.updateCall c fun n => { n with declared.header := some header }
    | _ => s

end BuildM

end Spreadsheet
