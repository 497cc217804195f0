import Spreadsheet.Kind
import Spreadsheet.Style.CellStyle

/-!
# Elements

The nodes of a layout are shared: one cell can be in a container and in the formula of another cell,
and a change made through one is seen through the other.  An element is therefore the number of a
node in a store.  Only a gap is a plain value: two gaps are never the same node.
-/

namespace Spreadsheet

/-- The number of a cell. -/
structure CellId where
  index : Nat
deriving DecidableEq, Inhabited

/-- The number of a vector. -/
structure VectorId where
  index : Nat
deriving DecidableEq, Inhabited

/-- The number of a frame. -/
structure FrameId where
  index : Nat
deriving DecidableEq, Inhabited

/-- The number of a stack. -/
structure StackId where
  index : Nat
deriving DecidableEq, Inhabited

/-- The number of a reference expression. -/
structure ExpressionId where
  index : Nat
deriving DecidableEq, Inhabited

/-- The number of a function call. -/
structure CallId where
  index : Nat
deriving DecidableEq, Inhabited

/-- The identity of a node. -/
inductive Node where
  | cell (id : CellId)
  | vector (id : VectorId)
  | frame (id : FrameId)
  | stack (id : StackId)
  | expression (id : ExpressionId)
  | call (id : CallId)
deriving DecidableEq

/-- Empty space along the axis of its container.  A filled gap takes the style of the container,
any other stays blank. -/
structure Gap where
  size : Nat
  fill : Bool := false
  style : CellStyle := .unset
deriving Inhabited

/-- A part of a layout. -/
inductive Element where
  | cell (id : CellId)
  | vector (id : VectorId)
  | frame (id : FrameId)
  | stack (id : StackId)
  | gap (gap : Gap)
  | expression (id : ExpressionId)
  | call (id : CallId)
deriving Inhabited

namespace Element

/-- The node that an element stands for. -/
def node? : Element → Option Node
  | .cell c => some (.cell c)
  | .vector v => some (.vector v)
  | .frame f => some (.frame f)
  | .stack s => some (.stack s)
  | .gap _ => none
  | .expression e => some (.expression e)
  | .call c => some (.call c)

/-- Whether an element has children. -/
def isContainer : Element → Bool
  | .vector _ | .frame _ | .stack _ => true
  | _ => false

/-- The dimension of an element's content; gaps and producers have none. -/
def dimension : Element → Option Dimension
  | .cell _ => some .scalar
  | .vector _ => some .vector
  | .frame _ => some .frame
  | .stack _ => some .heterogeneous
  | .gap _ | .expression _ | .call _ => none

end Element

/-- The element that a node is. -/
def Node.element : Node → Element
  | .cell c => .cell c
  | .vector v => .vector v
  | .frame f => .frame f
  | .stack s => .stack s
  | .expression e => .expression e
  | .call c => .call c

@[simp] theorem Node.node?_element (n : Node) : n.element.node? = some n := by
  cases n <;> rfl

end Spreadsheet
