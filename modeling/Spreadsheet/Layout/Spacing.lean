import Spreadsheet.Construct

/-!
# Sizes, margins and padding

The sizes of a frame become part of the style of its vectors.  A margin or a padding becomes a stack
around the element, with gaps at the sides.  The gaps of a padding are filled, and the border goes
around them.  In a frame there is no room for margins and padding: they are reported and ignored.
-/

namespace Spreadsheet

namespace Store

/-- Give a vector its width or height as part of a frame along the given axis. -/
def setVectorSize (s : Store) (o : Orientation) (v : VectorId) (size : Float) : Store :=
  s.updateVector v fun n =>
    let style := n.attributes.cellStyle
    let style := match o with
      | .horizontal => { style with colWidth := style.colWidth <|> some size }
      | .vertical => { style with rowHeight := style.rowHeight <|> some size }
    { n with attributes.cellStyle := style }

/-- Give the vectors of a frame their sizes. -/
def applyFrameSizes (s : Store) (f : FrameId) : Store :=
  let n := s.frame f
  (n.children.zip n.sizes).foldl
    (fun t pair => match pair with
      | (.vector v, some size) => t.setVectorSize n.orientation v size
      | _ => t) s

/-- Give the vectors of every frame under an element their sizes. -/
def applySizes (s : Store) (root : Element) : Store :=
  (s.subtree root).foldl
    (fun t e => match e with
      | .frame f => t.applyFrameSizes f
      | _ => t) s

end Store

/-- A gap where there is space at a side. -/
def sideGap (size : Nat) (fill : Bool) : List Element :=
  if size = 0 then [] else [.gap { size, fill }]

namespace StoreM

/-- Surround an element with space.  A filled surrounding takes over its border and colours. -/
def surround (inner : Element) (sides : Sides Nat) (fill : Bool) : StoreM Element := do
  let middle ← newStack
    { orientation := .horizontal
      children := sideGap sides.left fill ++ [inner] ++ sideGap sides.right fill }
  let inherited := ((← get).attributes? inner).getD {}
  let attributes : Attributes :=
    if fill then
      { border := inherited.border
        background := inherited.background
        cellStyle := inherited.cellStyle }
    else {}
  if fill then modify fun s => s.updateAttributes inner fun a => { a with border := .unset }
  return .stack (← newStack
    { orientation := .vertical
      children := sideGap sides.top fill ++ [.stack middle] ++ sideGap sides.bottom fill
      attributes })

/-- A child with its padding and its margin around it, and what is to be reported. -/
def wrapChild (inFrame : Bool) (child : Element) : StoreM (Element × List Notice) := do
  match (← get).attributes? child with
  | none => return (child, [])
  | some a =>
    if a.margin.isZero && a.padding.isZero then return (child, [])
    else if inFrame then
      let kind := (← get).kind child
      return (child, [.warning ("margin and padding are ignored on " ++ kind.name
        ++ " inside a Frame")])
    else
      let padded ← if a.padding.isZero then pure child else surround child a.padding.resolved true
      let wrapped ←
        if a.margin.isZero then pure padded else surround padded a.margin.resolved false
      return (wrapped, [])

/-- Wrap the children of a container one after the other, each after what is below it. -/
def wrapChildren (below : Element → StoreM (List Notice)) (inFrame : Bool) :
    List Element → StoreM (List Element × List Notice)
  | [] => return ([], [])
  | child :: rest => do
    let notices ← below child
    let (child, own) ← wrapChild inFrame child
    let (rest, more) ← wrapChildren below inFrame rest
    return (child :: rest, notices ++ own ++ more)

/-- Whether an element is a frame. -/
def isFrame : Element → Bool
  | .frame _ => true
  | _ => false

/-- Put margins and padding around everything under an element, at most `fuel` steps down. -/
def wrapWithin : Nat → Element → StoreM (List Notice)
  | 0, _ => return []
  | fuel + 1, e => do
    if !e.isContainer then return []
    let (children, notices) ← wrapChildren (wrapWithin fuel) (isFrame e) ((← get).children e)
    modify fun s => s.setChildren e children
    return notices

/-- Put margins and padding around everything under an element; what is to be reported. -/
def wrapSpacing (e : Element) : StoreM (List Notice) := do
  wrapWithin (← get).depthBound e

end StoreM

end Spreadsheet
