import Spreadsheet.Construct

/-!
# Gaps become cells

A gap in a vector becomes empty cells, a gap in a frame empty vectors as long as the longest vector,
and a gap in a stack a block as wide as the other children.  In a frame, vectors that are too short
are filled up to the longest.
-/

namespace Spreadsheet

namespace StoreM

/-- Empty cells in the style of a gap. -/
def gapCells (g : Gap) (count : Nat) : StoreM (List Element) :=
  (List.range count).mapM fun _ => do
    return .cell (← newCell { style := g.style, inheritsStyle := g.fill })

/-- A vector of empty cells. -/
def gapVector (g : Gap) (o : Orientation) (length : Nat) : StoreM VectorId := do
  newVector
    { orientation := o
      children := ← gapCells g length
      attributes := { inheritsStyle := g.fill } }

/-- Vectors of empty cells. -/
def gapVectors (g : Gap) (o : Orientation) (length : Nat) : StoreM (List Element) := do
  return (← (List.range g.size).mapM fun _ => gapVector g o length).map .vector

/-- A block of empty cells in place of a gap in a stack along the given axis. -/
def gapBlock (g : Gap) (o : Orientation) (across : Nat) : StoreM Element := do
  return .frame (← newFrame
    { orientation := o
      children := ← gapVectors g o.cross across
      attributes := { inheritsStyle := g.fill } })

/-- Replace the gaps among the children of a container. -/
def replaceGaps (e : Element) (replacement : Gap → StoreM (List Element)) : StoreM Unit := do
  let children ← ((← get).children e).mapM fun
    | .gap g => replacement g
    | child => pure [child]
  modify fun s => s.setChildren e children.flatten

/-- The length of a vector along its axis, header included. -/
def spanLength (s : Store) (v : VectorId) : Nat :=
  (s.vector v).orientation.along (s.extent (.vector v))

/-- Fill up a vector with empty cells. -/
def fillUp (g : Gap) (depth : Nat) (v : VectorId) : StoreM Unit := do
  let filler ← gapCells g (depth - spanLength (← get) v)
  modify fun s => s.updateVector v fun n => { n with children := n.children ++ filler }

/-- Replace the gaps of a frame and make its vectors equally long. -/
def levelFrame (f : FrameId) : StoreM Unit := do
  let s ← get
  let n := s.frame f
  let depth := ((s.frameVectors f).map (spanLength s)).foldl max 0
  replaceGaps (.frame f) fun g => gapVectors g n.orientation.cross (max depth 1)
  for v in (← get).frameVectors f do
    fillUp { size := 0, fill := n.fillEmpty } depth v

/-- Replace the gaps of a stack by blocks as wide as its other children. -/
def levelStack (k : StackId) : StoreM Unit := do
  let s ← get
  let n := s.stack k
  let solid := n.children.filter fun
    | .gap _ => false
    | _ => true
  let across := n.orientation.across (Store.stacked n.orientation (solid.map s.extent))
  replaceGaps (.stack k) fun g => return [← gapBlock g n.orientation (max across 1)]

/-- Replace the gaps of a single container. -/
def explode : Element → StoreM Unit
  | .vector v => replaceGaps (.vector v) fun g => gapCells g g.size
  | .frame f => levelFrame f
  | .stack k => levelStack k
  | _ => return

/-- Replace the gaps under an element, at most `fuel` steps down, from below. -/
def explodeWithin : Nat → Element → StoreM Unit
  | 0, _ => return
  | fuel + 1, e => do
    for child in (← get).children e do
      explodeWithin fuel child
    explode e

/-- Replace all gaps under an element. -/
def explodeGaps (e : Element) : StoreM Unit := do
  explodeWithin (← get).depthBound e

end StoreM

end Spreadsheet
