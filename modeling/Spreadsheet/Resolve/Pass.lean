import Spreadsheet.Resolve.Bind

/-!
# A pass over the tree

A pass goes through a container and everything below it.  A producer that is ready is evaluated and
replaced by its result, which is made to fit the container: a container that holds vectors makes one
of a cell, a vector takes the children of a vector, a frame takes the vectors of a frame.
-/

namespace Spreadsheet

/-- What a container expects of a function call in it. -/
def dimensionHint : Element → Option Dimension
  | .vector _ => some .scalar
  | .frame _ => some .vector
  | _ => none

namespace BuildM

/-- Turn vectors along an axis. -/
def turnVectors (o : Orientation) (vectors : List VectorId) : BuildM (List Element) := do
  changeStore fun s => vectors.foldl (fun s v => s.updateVector v ({ · with orientation := o })) s
  return vectors.map .vector

/-- The children that a container makes of a produced element. -/
def fit (container produced : Element) : BuildM (List Element) := do
  let s := (← get).store
  match container, produced with
  | .vector _, .cell c => return [.cell c]
  | .vector _, .vector v => return s.content v
  | .vector _, _ => refuse container produced
  | .frame f, .cell c => return [← promoted c (s.frame f).orientation]
  | .frame f, .vector v => turnVectors (s.frame f).orientation.cross [v]
  | .frame f, .frame inner =>
    turnVectors (s.frame f).orientation.cross (s.frameVectors inner)
  | .frame _, _ => refuse container produced
  | .stack k, .cell c => return [← promoted c (s.stack k).orientation]
  | _, _ => return [produced]

/-- The result of a producer, if it is ready. -/
def produce? (container : Element) : Element → BuildM (Option Element)
  | .expression e => do
    if ← attemptExpression (some container) e then
      return some (← evalExpression e (dimensionHint container) true)
    else return none
  | .call c => do
    if ← attemptCall (some container) c then
      return some (← evalCall c (dimensionHint container))
    else return none
  | _ => return none

/-- Go through the children of a container from left to right.  `before` holds those already done,
with their replacements; `below` passes over a child that is a container. -/
def passChildren (below : Element → BuildM Bool) (container : Element) (before : List Element) :
    List Element → BuildM Bool
  | [] => return true
  | child :: rest => do
    if child.isContainer then
      let done ← below child
      let restDone ← passChildren below container (before ++ [child]) rest
      return done && restDone
    else if Store.isProducer child then
      match ← produce? container child with
      | some produced =>
        let spliced ← fit container produced
        -- Later siblings may name this result by its position.
        changeStore fun s => s.setChildren container (before ++ spliced ++ rest)
        modify Build.sweep
        passChildren below container (before ++ spliced) rest
      | none =>
        let _ ← passChildren below container (before ++ [child]) rest
        return false
    else passChildren below container (before ++ [child]) rest

/-- One pass over a container, looking at most `fuel` steps down. -/
def passWithin : Nat → Element → BuildM Bool
  | 0, _ => return true
  | fuel + 1, container => do
    passChildren (passWithin fuel) container [] ((← get).store.children container)

/-- One pass over a container and everything below it; whether nothing is pending any more. -/
def pass (container : Element) : BuildM Bool := do
  passWithin (← get).store.depthBound container

end BuildM

end Spreadsheet
