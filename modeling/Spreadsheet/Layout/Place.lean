import Spreadsheet.Tree

/-!
# Places

Every element gets the location of its top left corner.  The children of a container follow each
other along its axis, each as far as it extends.
-/

namespace Spreadsheet

namespace Store

/-- Give an element itself a location. -/
def setLocation (s : Store) (e : Element) (l : Location) : Store :=
  match e with
  | .cell c => s.updateCell c fun n => { n with location := some l }
  | _ => s.updateAttributes e fun a => { a with location := some l }

/-- How far the next child is moved along an axis. -/
def advance (s : Store) (o : Orientation) : Element → Nat
  | .gap g => g.size
  | child => o.along (s.extent child)

/-- The location a number of units along an axis. -/
def along (o : Orientation) (l : Location) (offset : Nat) : Location :=
  l.offset (o.step.rows * offset) (o.step.cols * offset)

/-- Place children one after the other from a location on. -/
def placeChildren (place : Store → Element → Location → Store) (o : Orientation)
    (origin : Location) : Nat → Store → List Element → Store
  | _, s, [] => s
  | offset, s, child :: rest =>
    let s := place s child (along o origin offset)
    placeChildren place o origin (offset + s.advance o child) s rest

/-- Place an element and what is at most `fuel` steps below it. -/
def placeWithin : Nat → Store → Element → Location → Store
  | 0, s, _, _ => s
  | fuel + 1, s, e, origin =>
    let s := s.setLocation e origin
    match s.orientation? e with
    | some o => placeChildren (placeWithin fuel) o origin 0 s (s.children e)
    | none => s

/-- Place an element and everything below it, its top left corner at a location. -/
def place (s : Store) (e : Element) (origin : Location) : Store :=
  placeWithin s.depthBound s e origin

end Store

end Spreadsheet
