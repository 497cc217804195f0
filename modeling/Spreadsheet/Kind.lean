/-!
# Kinds of elements

A sheet is built from cells, from containers (a vector is one row or one column, a frame a block of
parallel vectors, a stack any group), from gaps, and from the two producers of formulas that are
replaced when they are resolved.
-/

namespace Spreadsheet

/-- The axis along which a container lays out its children. -/
inductive Orientation where
  /-- Left to right. -/
  | horizontal
  /-- Top to bottom. -/
  | vertical
deriving DecidableEq, Inhabited

/-- A number of rows and of columns. -/
structure Extent where
  rows : Nat
  cols : Nat
deriving DecidableEq, Inhabited

namespace Orientation

/-- The name of the axis. -/
def name : Orientation → String
  | .horizontal => "Horizontal"
  | .vertical => "Vertical"

/-- The other axis. -/
def cross : Orientation → Orientation
  | .horizontal => .vertical
  | .vertical => .horizontal

/-- One unit along the axis. -/
def step : Orientation → Extent
  | .horizontal => ⟨0, 1⟩
  | .vertical => ⟨1, 0⟩

/-- The length of an extent along the axis. -/
def along : Orientation → Extent → Nat
  | .horizontal, e => e.cols
  | .vertical, e => e.rows

/-- The length of an extent across the axis. -/
def across (o : Orientation) (e : Extent) : Nat :=
  o.cross.along e

/-- The extent with the given lengths along and across the axis. -/
def extent : Orientation → Nat → Nat → Extent
  | .horizontal, along, across => ⟨across, along⟩
  | .vertical, along, across => ⟨along, across⟩

@[simp] theorem cross_cross (o : Orientation) : o.cross.cross = o := by
  cases o <;> rfl

@[simp] theorem along_extent (o : Orientation) (a b : Nat) : o.along (o.extent a b) = a := by
  cases o <;> rfl

@[simp] theorem across_extent (o : Orientation) (a b : Nat) : o.across (o.extent a b) = b := by
  cases o <;> rfl

end Orientation

/-- The number of dimensions of an element's content. -/
inductive Dimension where
  | scalar
  | vector
  | frame
  /-- Children of mixed dimensions. -/
  | heterogeneous
deriving DecidableEq

/-- The name of a dimension. -/
def Dimension.name : Dimension → String
  | .scalar => "Scalar"
  | .vector => "Vector"
  | .frame => "Frame"
  | .heterogeneous => "Heterogeneous"

/-- What an element is; the two kinds of vectors have names of their own. -/
inductive Kind where
  | cell | col | row | frame | stack | gap | expression | functionCall
deriving DecidableEq

/-- The name of a kind. -/
def Kind.name : Kind → String
  | .cell => "Cell"
  | .col => "Col"
  | .row => "Row"
  | .frame => "Frame"
  | .stack => "Stack"
  | .gap => "Gap"
  | .expression => "Expression"
  | .functionCall => "FunctionCall"

/-- The kind of a vector along an axis. -/
def Kind.ofVector : Orientation → Kind
  | .vertical => .col
  | .horizontal => .row

end Spreadsheet
