import Spreadsheet.Construct
import Spreadsheet.Text.Lowercase

/-!
# Headers

Before a frame is laid out its headers are renamed by its schema, and in a table every vector gets a
header that differs from the others even when case is ignored.  After that the headers become cells,
the first child of their vector.
-/

namespace Spreadsheet

/-- The name of a column without a header. -/
def unnamedColumn : String := "Unnamed"

/-- A name followed by a number, from two on. -/
def numbered (base : String) (n : Nat) : String :=
  if n ≤ 1 then base else base ++ Number.natText n

/-- The name, or else the name with the smallest number from two on, that is not taken; names are
compared in lower case.  Each name taken rules out one candidate. -/
def freeName (taken : List String) (base : String) : String :=
  ((List.range' 1 (taken.length + 1)).map (numbered base)).find?
      (fun name => !taken.contains (Text.lowercase name))
    |>.getD base

namespace Store

/-- Set the header of a vector. -/
def setHeader (s : Store) (v : VectorId) (header : String) : Store :=
  s.updateVector v fun n => { n with header := some header }

/-- Rename the headers of a frame's vectors by its schema; the first entry for a header counts. -/
def applySchema (s : Store) (f : FrameId) : Store :=
  (s.frameVectors f).foldl
    (fun t v =>
      match (t.vector v).header.bind fun h => (s.frame f).schema.lookup h with
      | some name => t.setHeader v name
      | none => t) s

/-- Give the vectors of a table their names, one after the other. -/
def nameVectors (s : Store) (taken : List String) (unnamed : Nat) : List VectorId → Store
  | [] => s
  | v :: rest =>
    let header := (s.vector v).header
    let unnamed := if header.isNone then unnamed + 1 else unnamed
    let name := freeName taken (header.getD (numbered unnamedColumn unnamed))
    (s.setHeader v name).nameVectors (Text.lowercase name :: taken) unnamed rest

/-- Rename the headers of a frame, and name its columns if it is a table. -/
def prepareFrame (s : Store) (f : FrameId) : Store :=
  let s := s.applySchema f
  if (s.frame f).table.isSome then s.nameVectors [] 0 (s.frameVectors f) else s

/-- Rename and name the headers of every frame under an element. -/
def prepareHeaders (s : Store) (root : Element) : Store :=
  (s.subtree root).foldl
    (fun t e => match e with
      | .frame f => t.prepareFrame f
      | _ => t) s

end Store

namespace StoreM

/-- Make the header of a vector its first cell, once. -/
def insertHeader (v : VectorId) : StoreM Unit := do
  let n := (← get).vector v
  match n.headerInserted, n.header with
  | false, some text =>
    let c ← newCell
      { value := .text text, style := n.attributes.headerStyle, isHeader := true }
    modify fun s => s.updateVector v fun n =>
      { n with children := .cell c :: n.children, headerInserted := true }
  | _, _ => return

/-- Make the headers under an element cells. -/
def insertHeaders (root : Element) : StoreM Unit := do
  for e in (← get).subtree root do
    if let .vector v := e then insertHeader v

end StoreM

end Spreadsheet
