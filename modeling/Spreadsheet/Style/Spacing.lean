import Spreadsheet.Error
import Spreadsheet.Style.Sides

/-!
# Margins and padding

Amounts of space at the four sides of a block.  One to four numbers give them all at once, in the
order of style sheets; an amount given for a single side always wins, whichever came first.
-/

namespace Spreadsheet

/-- Space around a block. -/
structure Spacing where
  /-- The amounts given all at once. -/
  shorthand : Option (Sides Nat)
  /-- The amounts given for single sides. -/
  explicit : Sides (Option Nat)
deriving DecidableEq

namespace Spacing

/-- No space. -/
def none : Spacing :=
  ⟨.none, Sides.uniform .none⟩

/-- The amounts that one to four numbers stand for. -/
def sidesOf : List Nat → Except SheetError (Sides Nat)
  | [all] => .ok (Sides.uniform all)
  | [vertical, horizontal] => .ok ⟨vertical, horizontal, vertical, horizontal⟩
  | [top, horizontal, bottom] => .ok ⟨top, horizontal, bottom, horizontal⟩
  | [top, right, bottom, left] => .ok ⟨top, right, bottom, left⟩
  | values => .error (.invalidSpacing values.length)

/-- Give all amounts at once. -/
def setShorthand (s : Spacing) (values : List Nat) : Except SheetError Spacing :=
  (sidesOf values).map fun sides => { s with shorthand := some sides }

/-- Give the amount of one side. -/
def set (s : Spacing) (side : Side) (amount : Nat) : Spacing :=
  { s with explicit := s.explicit.set side (some amount) }

/-- The amount at every side; a side about which nothing is said has none. -/
def resolved (s : Spacing) : Sides Nat :=
  Sides.zipWith Option.getD s.explicit (s.shorthand.getD (Sides.uniform 0))

/-- Whether there is no space at any side. -/
def isZero (s : Spacing) : Bool :=
  s.resolved == Sides.uniform 0

end Spacing

end Spreadsheet
