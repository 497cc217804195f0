/-!
# A value for each side of a block
-/

namespace Spreadsheet

/-- The sides of a block. -/
inductive Side where
  | top | right | bottom | left
deriving DecidableEq

/-- A value per side, clockwise from the top. -/
structure Sides (α : Type) where
  top : α
  right : α
  bottom : α
  left : α
deriving DecidableEq

namespace Sides

/-- The same value on every side. -/
def uniform {α : Type} (a : α) : Sides α :=
  ⟨a, a, a, a⟩

/-- Replace the value of one side. -/
def set {α : Type} (s : Sides α) (side : Side) (a : α) : Sides α :=
  match side with
  | .top => { s with top := a }
  | .right => { s with right := a }
  | .bottom => { s with bottom := a }
  | .left => { s with left := a }

/-- Combine two values per side. -/
def zipWith {α β γ : Type} (f : α → β → γ) (s : Sides α) (t : Sides β) : Sides γ :=
  ⟨f s.top t.top, f s.right t.right, f s.bottom t.bottom, f s.left t.left⟩

/-- The values, clockwise from the top. -/
def toList {α : Type} (s : Sides α) : List α :=
  [s.top, s.right, s.bottom, s.left]

end Sides

end Spreadsheet
