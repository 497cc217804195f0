import Spreadsheet.Construct

/-!
# Formulas laid out, and arithmetic on them

Arithmetic never looks at the content of cells: it combines formulas that point at them.  A grid is
a single formula, a series of formulas for a vector, or one series per vector of a frame.  Operands
of different shapes are spread: a single formula is repeated, and a series goes along every vector
of a frame.  Where lengths differ the shortest decides.
-/

namespace Spreadsheet

/-- Formulas for the cells of a vector. -/
structure Series where
  items : List Formula
  orientation : Orientation

namespace Series

/-- Change every formula. -/
def map (f : Formula → Formula) (s : Series) : Series :=
  { s with items := s.items.map f }

/-- Combine with another series item by item; the axis is that of the first. -/
def zipWith (f : Formula → Formula → Formula) (s t : Series) : Series :=
  { s with items := List.zipWith f s.items t.items }

end Series

/-- Formulas laid out. -/
inductive Grid where
  | scalar (formula : Formula)
  | series (series : Series)
  /-- One series per vector of a frame with the given axis. -/
  | table (vectors : List Series) (orientation : Orientation)

namespace Grid

/-- Change every formula. -/
def map (f : Formula → Formula) : Grid → Grid
  | scalar a => scalar (f a)
  | series s => series (s.map f)
  | table vectors o => table (vectors.map (·.map f)) o

/-- Combine every vector of a table, first, with another grid. -/
def tableWith (f : Formula → Formula → Formula) (vectors : List Series) : Grid → List Series
  | scalar b => vectors.map (·.map (f · b))
  | series t => vectors.map (·.zipWith f t)
  | table others _ => List.zipWith (Series.zipWith f) vectors others

/-- Combine two grids. -/
def zipWith (f : Formula → Formula → Formula) : Grid → Grid → Grid
  | scalar a, scalar b => scalar (f a b)
  | scalar a, series t => series (t.map (f a))
  | series s, scalar b => series (s.map (f · b))
  | series s, series t => series (s.zipWith f t)
  | table vectors o, other => table (tableWith f vectors other) o
  | other, table vectors o => table (tableWith (fun a b => f b a) vectors other) o

end Grid

/-- What a part of a template denotes: an element that nothing has been done with, or formulas. -/
inductive Value where
  | element (element : Element)
  | grid (grid : Grid)

namespace Store

/-- The error of an element that cannot take part in arithmetic. -/
def pendingError (s : Store) : Element → SheetError
  | .stack _ => .arithmeticOnStack
  | .expression e => .arithmeticOnPendingExpression (s.expression e).template.source
  | .call c => .arithmeticOnPendingFunction (s.call c).name
  | .gap _ => .arithmeticOnGap
  | e => .incompatibleChild .formula (s.kind e)

/-- References to the cells of a vector. -/
def seriesOf (s : Store) (v : VectorId) : Except SheetError Series := do
  let items ← (s.content v).mapM fun
    | .cell c => .ok (Formula.ref c)
    | other => .error (s.pendingError other)
  return ⟨items, (s.vector v).orientation⟩

/-- References to the cells of an element. -/
def gridOf (s : Store) : Element → Except SheetError Grid
  | .cell c => .ok (.scalar (.ref c))
  | .vector v => (s.seriesOf v).map .series
  | .frame f => do
    let vectors ← (s.frame f).children.mapM fun
      | .vector v => s.seriesOf v
      | other => .error (s.pendingError other)
    return .table vectors (s.frame f).orientation
  | other => .error (s.pendingError other)

/-- The number of children, as far as positions are concerned. -/
def contentLength (s : Store) : Element → Nat
  | .cell _ => 1
  | e => (s.namedChildren e).length

end Store

namespace Value

/-- The value as formulas. -/
def toGrid (s : Store) : Value → Except SheetError Grid
  | .element e => s.gridOf e
  | .grid g => .ok g

/-- An operator with one operand. -/
def unary (s : Store) (op : Template.UnaryOp) (a : Value) : Except SheetError Value := do
  return .grid ((← a.toGrid s).map (.unary op))

/-- An operator with two operands. -/
def binary (s : Store) (op : Template.BinaryOp) (a b : Value) : Except SheetError Value := do
  let left ← a.toGrid s
  let right ← b.toGrid s
  return .grid (left.zipWith (.binary op) right)

/-- A part of a value. -/
def index (s : Store) : Value → Template.Key → Except SheetError Value
  | .element e, .position i =>
    match e, i, s.childAt? e i with
    | .cell c, 0, _ => .ok (.element (.cell c))
    | _, _, some child => .ok (.element child)
    | _, _, none => .error (.indexOutOfRange (.element (s.kind e)) i (s.contentLength e))
  | .element e, .name name =>
    match s.childNamed? e name with
    | some child => .ok (.element child)
    | none => .error (.unknownChild name)
  | .grid (.series t), .position i =>
    match t.items[i]? with
    | some item => .ok (.grid (.scalar item))
    | none => .error (.indexOutOfRange .series i t.items.length)
  | .grid (.table vectors _), .position i =>
    match vectors[i]? with
    | some t => .ok (.grid (.series t))
    | none => .error (.indexOutOfRange .table i vectors.length)
  | .grid (.scalar a), .position i =>
    if i = 0 then .ok (.grid (.scalar a)) else .error (.indexOutOfRange .scalar i 1)
  | .grid _, .name name => .error (.unknownChild name)

/-- Whether the value is a vector or a series. -/
def isOneDimensional : Value → Bool
  | .element (.vector _) | .grid (.series _) => true
  | _ => false

end Value

namespace StoreM

/-- A vector of cells with the formulas of a series. -/
def vectorOf (t : Series) : StoreM VectorId := do
  let cells ← t.items.mapM newFormulaCell
  newVector { orientation := t.orientation, children := cells.map .cell }

/-- An element whose cells hold the formulas of a grid. -/
def elementOf : Grid → StoreM Element
  | .scalar a => return .cell (← newFormulaCell a)
  | .series t => return .vector (← vectorOf t)
  | .table vectors o => do
    let vectors ← vectors.mapM vectorOf
    return .frame (← newFrame { orientation := o, children := vectors.map .vector })

end StoreM

namespace BuildM

/-- Fail where the answer is an error. -/
def ofExcept {α : Type} : Except SheetError α → BuildM α
  | .ok a => return a
  | .error e => throw e

/-- A new element for a value.  An element that nothing was done with is copied, or, when the
template is a plain reference to it, becomes cells that point at it. -/
def elementFor (v : Value) (reference : Bool) : BuildM Element := do
  let s := (← get).store
  match v, reference with
  | .grid g, _ => liftStore (StoreM.elementOf g)
  | .element (.stack _), true => throw (.incompatibleChild .reference .stack)
  | .element (.cell c), false => return .cell (← liftStore (StoreM.copyCell c))
  | .element (.vector x), false => return .vector (← liftStore (StoreM.copyVector x))
  | .element (.frame f), false => return .frame (← liftStore (StoreM.copyFrame f))
  | .element e, _ => do
    let g ← ofExcept (s.gridOf e)
    liftStore (StoreM.elementOf g)

end BuildM

end Spreadsheet
