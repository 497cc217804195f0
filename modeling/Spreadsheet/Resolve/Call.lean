import Spreadsheet.Resolve.Grid
import Spreadsheet.Template.Parser

/-!
# Function calls over elements

A call with a single result takes each container as one range.  A call with a series of results
makes one call per position: a series gives its item at the position, a frame the line across its
vectors there, and a single formula is repeated.  The number of positions is the length of the
shortest series, or else that of the shortest vector of a frame, or else one.
-/

namespace Spreadsheet

/-- The name of a function in upper case: a letter, then letters, digits, points and underscores. -/
def functionName? (name : String) : Option String :=
  let upper := (Text.trim name.toList).map Char.toUpper
  match upper with
  | c :: rest =>
    if c.isAlpha && rest.all Template.isNameRest then some (String.ofList upper) else none
  | [] => none

/-- The name of a function in upper case, or the error of what is none. -/
def functionName (name : String) : Except SheetError String :=
  match functionName? name with
  | some upper => .ok upper
  | none => .error (.invalidFunctionName name)

/-- An operand as a call with several positions sees it. -/
inductive Shape where
  | scalar (formula : Formula)
  | series (items : List Formula) (orientation : Orientation)
  /-- The vectors of a frame with the given axis, and what stands for all of it. -/
  | frame (vectors : List (List Formula)) (orientation : Orientation) (whole : Formula)

namespace Shape

/-- The shape of an operand. -/
def ofValue (s : Store) : Value → Except SheetError Shape
  | .grid (.scalar a) => .ok (.scalar a)
  | .grid (.series t) => .ok (.series t.items t.orientation)
  | .grid (.table vectors o) =>
    .ok (.frame (vectors.map (·.items)) o (.list (vectors.flatMap (·.items))))
  | .element (.cell c) => .ok (.scalar (.ref c))
  | .element (.vector v) =>
    if s.vectorLength v = 0 then .ok (.scalar (.range (.vector v) false))
    else (s.seriesOf v).map fun t => .series t.items t.orientation
  | .element (.frame f) =>
    .ok (.frame ((s.frameVectors f).map fun v => (s.vectorCells v).map Formula.ref)
      (s.frame f).orientation (.range (.frame f) false))
  | .element (.stack k) => .ok (.scalar (.range (.stack k) false))
  | .element e => .error (s.pendingError e)

/-- The length of a series. -/
def seriesLength? : Shape → Option Nat
  | .series items _ => some items.length
  | _ => none

/-- The length of the shortest vector of a frame. -/
def frameLength? : Shape → Option Nat
  | .frame vectors _ _ => (vectors.map List.length).min?
  | _ => none

/-- The axis of a series. -/
def seriesAxis? : Shape → Option Orientation
  | .series _ o => some o
  | _ => none

/-- The axis of the vectors of a frame. -/
def frameAxis? : Shape → Option Orientation
  | .frame _ o _ => some o.cross
  | _ => none

/-- What the operand contributes to the call at a position. -/
def atPosition (i : Nat) : Shape → Formula
  | .scalar a => a
  | .series items _ => items[i]?.getD default
  | .frame vectors _ whole =>
    match vectors.head?.bind (·[i]?), vectors.getLast?.bind (·[i]?) with
    | some (.ref first), some (.ref last) => .span first last
    | some _, some _ => .list (vectors.filterMap (·[i]?))
    | _, _ => whole

/-- The number of positions of a call. -/
def positions (shapes : List Shape) : Nat :=
  ((shapes.filterMap seriesLength?).min? <|> (shapes.filterMap frameLength?).min?).getD 1

/-- The axis along which the results of a call lie. -/
def axis (shapes : List Shape) : Orientation :=
  (shapes.findSome? seriesAxis? <|> shapes.findSome? frameAxis?).getD .vertical

end Shape

/-- The one formula that an operand is to a call with a single result. -/
def scalarOperand (s : Store) : Value → Except SheetError Formula
  | .grid (.scalar a) => .ok a
  | .grid (.series t) => .ok (.list t.items)
  | .grid (.table vectors _) => .ok (.list (vectors.flatMap (·.items)))
  | .element (.cell c) => .ok (.ref c)
  | .element e =>
    if e.isContainer then
      if s.isPending e then .error (.stillPending (s.kind e)) else .ok (.range e false)
    else .error (s.pendingError e)

/-- Whether a call makes a series of results. -/
def isVectorCall (name : String) (args : List Value) :
    Option Dimension → Except SheetError Bool
  | some .scalar => .ok false
  | some .vector => .ok true
  | some .frame => .error (.unsupportedFunctionDimension name)
  | some .heterogeneous | none => .ok (args.any Value.isOneDimensional)

/-- A call of a function.  When no dimension is asked for, an operand of one dimension makes the
call one too. -/
def callValue (s : Store) (name : String) (args : List Value) (requested : Option Dimension) :
    Except SheetError Value := do
  let name ← functionName name
  if ← isVectorCall name args requested then
    let shapes ← args.mapM (Shape.ofValue s)
    let items := (List.range (Shape.positions shapes)).map fun i =>
      Formula.call name (shapes.map (Shape.atPosition i))
    return .grid (.series ⟨items, Shape.axis shapes⟩)
  else
    return .grid (.scalar (.call name (← args.mapM (scalarOperand s))))

end Spreadsheet
