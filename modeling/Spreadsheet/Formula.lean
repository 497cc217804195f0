import Spreadsheet.CellValue
import Spreadsheet.Element
import Spreadsheet.Template.Expr

/-!
# Formulas over elements

The formula of a cell points at other elements and not at coordinates.  Coordinates exist only once
the layout is placed, and are filled in when the cell is written.
-/

namespace Spreadsheet

/-- A formula. -/
inductive Formula where
  | literal (value : CellValue)
  /-- A single cell. -/
  | ref (cell : CellId)
  /-- The block that a container covers. -/
  | range (target : Element) (includeHeaders : Bool)
  /-- From one cell to another. -/
  | span (first last : CellId)
  | unary (op : Template.UnaryOp) (operand : Formula)
  | binary (op : Template.BinaryOp) (lhs rhs : Formula)
  | call (name : String) (args : List Formula)
  /-- Several arguments of a call. -/
  | list (items : List Formula)
deriving Inhabited

namespace Formula

mutual

/-- The nodes that a formula holds. -/
def nodes : Formula → List Node
  | .literal _ => []
  | .ref c => [.cell c]
  | .range target _ => target.node?.toList
  | .span first last => [.cell first, .cell last]
  | .unary _ operand => operand.nodes
  | .binary _ lhs rhs => lhs.nodes ++ rhs.nodes
  | .call _ args => nodesOfAll args
  | .list items => nodesOfAll items

/-- The nodes that the formulas of a list hold. -/
def nodesOfAll : List Formula → List Node
  | [] => []
  | f :: rest => f.nodes ++ nodesOfAll rest

end

end Formula

end Spreadsheet
