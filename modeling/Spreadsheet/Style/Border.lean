import Spreadsheet.Kind
import Spreadsheet.Style.Color
import Spreadsheet.Style.Sides

/-!
# Borders

A side of a border is described loosely: switched on or off, by a weight, by a colour, or by a pair
of both.  All these become one of three states, so that equal descriptions give equal sides.  The
border of a container is drawn around the container and not around each child, so the children
receive different parts of it.
-/

namespace Spreadsheet

/-- How a border line is drawn. -/
inductive BorderWeight where
  | thin | medium | thick | double | hair | dashed | dotted | mediumDashed | dashDot
  | mediumDashDot | dashDotDot | mediumDashDotDot | slantDashDot
deriving DecidableEq

namespace BorderWeight

/-- All weights with their names. -/
def named : List (BorderWeight × String) :=
  [(thin, "thin"), (medium, "medium"), (thick, "thick"), (double, "double"), (hair, "hair"),
    (dashed, "dashed"), (dotted, "dotted"), (mediumDashed, "medium_dashed"),
    (dashDot, "dash_dot"), (mediumDashDot, "medium_dash_dot"), (dashDotDot, "dash_dot_dot"),
    (mediumDashDotDot, "medium_dash_dot_dot"), (slantDashDot, "slant_dash_dot")]

/-- The name of a weight. -/
def name (w : BorderWeight) : String :=
  ((named.find? (·.1 == w)).map (·.2)).getD ""

/-- A name in the form in which names are compared: in lower case and without separators. -/
def comparable (text : String) : List Char :=
  (text.toList.filter fun c => c != '_' && c != '-' && c != ' ').map Char.toLower

/-- The weight that a text names, however it separates the words. -/
def ofText? (text : String) : Option BorderWeight :=
  (named.find? fun entry => comparable entry.2 == comparable text).map (·.1)

end BorderWeight

/-- The state of one side. -/
inductive BorderSide where
  /-- Nothing is said here; an outer border may still supply the side. -/
  | unset
  /-- There is no line, and none is inherited. -/
  | removed
  | line (weight : BorderWeight) (color : Color)
deriving DecidableEq

/-- One half of a pair of weight and colour. -/
inductive BorderSlot where
  | unset
  | remove
  | default
  | value (text : String)
deriving DecidableEq

/-- The ways to describe a side. -/
inductive BorderSpec where
  | unset
  | remove
  | default
  /-- The name of a weight, or a colour. -/
  | text (text : String)
  | pair (weight color : BorderSlot)

namespace BorderSide

/-- The line drawn where nothing is said about weight and colour. -/
def standard : BorderSide :=
  .line .thin .black

/-- The colour that a text denotes, as part of a border. -/
def colorOf (text : String) : Except SheetError Color :=
  match Color.ofHex? text with
  | some color => .ok color
  | none => .error (.invalidBorder (.neitherWeightNorColor text))

/-- The weight that a text names, as part of a border. -/
def weightOf (text : String) : Except SheetError BorderWeight :=
  match BorderWeight.ofText? text with
  | some weight => .ok weight
  | none => .error (.invalidBorder (.unknownWeight text))

/-- The side that a description means. -/
def ofSpec : BorderSpec → Except SheetError BorderSide
  | .unset => .ok .unset
  | .remove => .ok .removed
  | .default => .ok standard
  | .text text =>
    match BorderWeight.ofText? text with
    | some weight => .ok (.line weight .black)
    | none => (colorOf text).map (.line .thin)
  | .pair .remove _ | .pair _ .remove => .ok .removed
  | .pair .unset .unset => .ok .unset
  | .pair weight color => do
    let weight ← match weight with
      | .value text => weightOf text
      | _ => pure .thin
    let color ← match color with
      | .value text => colorOf text
      | _ => pure .black
    return .line weight color

/-- The side, or the outer one where nothing is said. -/
def inherit (own outer : BorderSide) : BorderSide :=
  if own = .unset then outer else own

@[simp] theorem inherit_unset (own : BorderSide) : own.inherit .unset = own := by
  unfold inherit
  split <;> simp_all

@[simp] theorem unset_inherit (outer : BorderSide) : BorderSide.unset.inherit outer = outer := rfl

theorem inherit_assoc (a b c : BorderSide) :
    (a.inherit b).inherit c = a.inherit (b.inherit c) := by
  by_cases ha : a = .unset
  · subst ha
    simp
  · simp [inherit, ha]

/-- The side as text, none where nothing is said. -/
def text? : BorderSide → Option String
  | .unset => none
  | .removed => some "removed"
  | .line weight color => some (weight.name ++ " " ++ color.text)

end BorderSide

/-- A border: the state of each side. -/
abbrev Border := Sides BorderSide

/-- The parts of a border for the first, a middle and the last child of a container. -/
structure BorderMasks where
  first : Border
  middle : Border
  last : Border

namespace Border

/-- The border that says nothing. -/
def unset : Border :=
  Sides.uniform .unset

/-- The same description for every side. -/
def ofSpec (spec : BorderSpec) : Except SheetError Border :=
  (BorderSide.ofSpec spec).map Sides.uniform

/-- Whether nothing is said about any side. -/
def isUnset (b : Border) : Bool :=
  b == unset

/-- The border, with sides about which it says nothing taken from an outer one. -/
def inherit (own outer : Border) : Border :=
  Sides.zipWith BorderSide.inherit own outer

/-- The parts of a border for children laid out along an axis. -/
def masks (b : Border) : Orientation → BorderMasks
  | .vertical =>
    { first := { b with bottom := .unset }
      middle := { b with top := .unset, bottom := .unset }
      last := { b with top := .unset } }
  | .horizontal =>
    { first := { b with right := .unset }
      middle := { b with left := .unset, right := .unset }
      last := { b with left := .unset } }

/-- The part of a border for one of `count` children; a single child gets all of it. -/
def forChild (b : Border) (index count : Nat) (o : Orientation) : Border :=
  if count ≤ 1 then b
  else if index = 0 then (b.masks o).first
  else if index + 1 = count then (b.masks o).last
  else (b.masks o).middle

@[simp] theorem inherit_unset (own : Border) : own.inherit .unset = own := by
  simp [inherit, unset, Sides.zipWith, Sides.uniform]

@[simp] theorem unset_inherit (outer : Border) : Border.unset.inherit outer = outer := by
  simp [inherit, unset, Sides.zipWith, Sides.uniform]

theorem inherit_assoc (a b c : Border) : (a.inherit b).inherit c = a.inherit (b.inherit c) := by
  simp [inherit, Sides.zipWith, BorderSide.inherit_assoc]

@[simp] theorem forChild_unset (index count : Nat) (o : Orientation) :
    Border.unset.forChild index count o = .unset := by
  cases o <;> simp [forChild, masks, unset, Sides.uniform]

end Border

end Spreadsheet
