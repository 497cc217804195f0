import Spreadsheet.Number.Total
import Spreadsheet.Store

/-!
# The tree under an element

What can be read off an element and everything below it.  Containers nest without cycles, so a walk
ends after at most as many steps down as there are containers; that number is the bound with which
the walks below are run.
-/

namespace Spreadsheet

namespace Store

/-! ## Walks -/

/-- An element and everything at most `fuel` steps below it, each container before its children. -/
def walk (s : Store) : Nat → Element → List Element
  | 0, e => [e]
  | fuel + 1, e => e :: (s.children e).flatMap (s.walk fuel)

/-- An element and everything below it, each container before its children. -/
def subtree (s : Store) (e : Element) : List Element :=
  s.walk s.depthBound e

/-- The cell that an element is. -/
def asCell? : Element → Option CellId
  | .cell c => some c
  | _ => none

/-- The vector that an element is. -/
def asVector? : Element → Option VectorId
  | .vector v => some v
  | _ => none

/-- Every cell under an element, in the order in which cells are placed. -/
def leaves (s : Store) (e : Element) : List CellId :=
  (s.subtree e).filterMap asCell?

/-- Whether an element waits to be replaced. -/
def isProducer : Element → Bool
  | .expression _ | .call _ => true
  | _ => false

/-- Whether an element or anything under it waits to be replaced. -/
def isPending (s : Store) (e : Element) : Bool :=
  (s.subtree e).any isProducer

/-! ## Vectors -/

/-- The children of a vector without its header cell. -/
def content (s : Store) (v : VectorId) : List Element :=
  let n := s.vector v
  n.children.drop n.headerInserted.toNat

/-- The number of children of a vector, its header cell not counted. -/
def vectorLength (s : Store) (v : VectorId) : Nat :=
  let n := s.vector v
  n.children.length - n.headerInserted.toNat

/-- The length of a vector with its header, inserted or not. -/
def vectorShape (s : Store) (v : VectorId) : Nat :=
  s.vectorLength v + (s.vector v).header.isSome.toNat

/-- The cells of a vector without its header cell. -/
def vectorCells (s : Store) (v : VectorId) : List CellId :=
  (s.content v).filterMap asCell?

/-- The header cell of a vector, once it is inserted. -/
def headerCell? (s : Store) (v : VectorId) : Option CellId :=
  let n := s.vector v
  if n.headerInserted then n.children.head?.bind asCell? else none

/-- The vectors of a frame. -/
def frameVectors (s : Store) (f : FrameId) : List VectorId :=
  (s.frame f).children.filterMap asVector?

/-- The rows and columns of a frame before it is placed, headers counted. -/
def frameShape (s : Store) (f : FrameId) : Extent :=
  let vectors := s.frameVectors f
  let depth := (vectors.map s.vectorShape).foldl max 0
  (s.frame f).orientation.extent vectors.length depth

/-! ## Children by position and name -/

/-- The children to which positions and names refer. -/
def namedChildren (s : Store) : Element → List Element
  | .vector v => s.content v
  | e => s.children e

/-- The child at a position. -/
def childAt? (s : Store) (e : Element) (i : Nat) : Option Element :=
  (s.namedChildren e)[i]?

/-- The child whose id, or else whose header, is the given name. -/
def childNamed? (s : Store) (e : Element) (name : String) : Option Element :=
  let children := s.namedChildren e
  children.find? (s.id? · == some name) <|> children.find? (s.header? · == some name)

/-! ## Extents -/

/-- The extent of blocks that follow each other along an axis. -/
def stacked (o : Orientation) (extents : List Extent) : Extent :=
  o.extent (Number.total (extents.map o.along)) ((extents.map o.across).foldl max 0)

/-- The extent of an element of which at most `fuel` steps down are looked at. -/
def extentWithin (s : Store) : Nat → Element → Extent
  | _, .cell c => (s.cell c).merge
  | _, .gap _ | _, .expression _ | _, .call _ => ⟨0, 0⟩
  | 0, _ => ⟨0, 0⟩
  | fuel + 1, .vector v =>
    let n := s.vector v
    let inner := stacked n.orientation (n.children.map (s.extentWithin fuel))
    let header := (n.header.isSome && !n.headerInserted).toNat
    n.orientation.extent (n.orientation.along inner + header) (max (n.orientation.across inner) 1)
  | fuel + 1, .frame f =>
    stacked (s.frame f).orientation ((s.frame f).children.map (s.extentWithin fuel))
  | fuel + 1, .stack k =>
    stacked (s.stack k).orientation ((s.stack k).children.map (s.extentWithin fuel))

/-- The rows and columns that an element covers. -/
def extent (s : Store) (e : Element) : Extent :=
  s.extentWithin s.depthBound e

/-! ## Ranges -/

/-- The locations of the first and the last cell of a vector, once they are placed. -/
def vectorRange? (s : Store) (includeHeaders : Bool) (v : VectorId) :
    Option (Location × Location) := do
  let cells := s.vectorCells v
  let first ← (if includeHeaders then s.headerCell? v else none) <|> cells.head?
  let last := cells.getLast?.getD first
  return (← (s.cell first).location, ← (s.cell last).location)

/-- The corners of the block that a frame covers: the first cell of its first vector, and the
furthest row and column that any of its vectors ends in. -/
def frameRange? (s : Store) (includeHeaders : Bool) (f : FrameId) :
    Option (Location × Location) := do
  let ranges ← (s.frameVectors f).mapM (s.vectorRange? includeHeaders)
  let (first, _) ← ranges.head?
  let row := (ranges.map (·.2.row)).foldl max 0
  let col := (ranges.map (·.2.col)).foldl max 0
  return (first, ⟨first.sheet, row, col⟩)

/-! ## Borders -/

/-- The border drawn around an element. -/
def outline? (s : Store) : Element → Option Border
  | .cell c => some (s.cell c).style.border
  | e => (s.attributes? e).map (·.border)

end Store

end Spreadsheet
