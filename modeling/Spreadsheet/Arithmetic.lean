import Spreadsheet.Resolve.Grid

/-!
# Arithmetic on elements

An operation on elements makes a new element whose cells hold formulas over the operands.  Nothing
is computed.
-/

namespace Spreadsheet

namespace Value

/-- A number as an operand. -/
def number (x : Float) : Value :=
  .grid (.scalar (.literal (.number x)))

end Value

namespace BuildM

/-- The element for an operation with two operands. -/
def combine (op : Template.BinaryOp) (lhs rhs : Value) : BuildM Element := do
  let value ← ofExcept (Value.binary (← get).store op lhs rhs)
  elementFor value false

/-- The element for the negation of an operand. -/
def negate (e : Element) : BuildM Element := do
  let value ← ofExcept (Value.unary (← get).store .neg (.element e))
  elementFor value false

/-- A cell that holds the block from one cell to another. -/
def spanCell (first last : Element) : BuildM Element := do
  let s := (← get).store
  match first, last with
  | .cell a, .cell b => return .cell (← liftStore (StoreM.newFormulaCell (.span a b)))
  | .cell _, other => throw (.incompatibleChild .range (s.kind other))
  | other, _ => throw (.incompatibleChild .range (s.kind other))

end BuildM

end Spreadsheet
