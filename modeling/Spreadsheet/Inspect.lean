import Spreadsheet.Tree

/-!
# Elements for inspection

An element in short, for a person who looks into a layout: its kind and what tells it from others of
its kind.
-/

namespace Spreadsheet

/-- A kind with named parts between braces. -/
def recordText (kind : String) (parts : List (String × String)) : String :=
  kind ++ " \x7b " ++ ", ".intercalate (parts.map fun p => p.1 ++ ": " ++ p.2) ++ " \x7d"

/-- A value with its kind. -/
def CellValue.inspected : CellValue → String
  | .empty => "Empty"
  | .bool b => "Bool(" ++ (if b then "true" else "false") ++ ")"
  | .number x => "Number(" ++ Number.inspected x ++ ")"
  | .text s => "Text(" ++ Text.quoted s ++ ")"
  | .formula s => "Formula(" ++ Text.quoted s ++ ")"

/-- A part that is a text, where there is one. -/
def textPart (name : String) (text : Option String) : List (String × String) :=
  (text.map fun s => (name, Text.quoted s)).toList

namespace Store

/-- A cell in short. -/
def inspectCell (s : Store) (c : CellId) : String :=
  let n := s.cell c
  recordText "Cell" (("value", n.value.inspected)
    :: (if n.formula.isSome then [("formula", "true")] else [])
    ++ textPart "id" n.id ++ textPart "at" (n.location.map Location.describe))

/-- An element in short. -/
def inspect (s : Store) : Element → String
  | .cell c => s.inspectCell c
  | e => recordText (s.kind e).name (textPart "id" (s.id? e) ++ textPart "header" (s.header? e)
      ++ [("children", Number.natText (s.children e).length)])

/-- A producer with what it waits for, any other element in short. -/
def inspectProducer (s : Store) : Element → String
  | .expression e =>
    let n := s.expression e
    recordText "Expression" [("template", Text.quoted n.template.source),
      ("bound", Number.natText n.bound.length), ("keys", Number.natText n.template.keys.length)]
  | .call c =>
    let n := s.call c
    recordText "FunctionCall" [("name", Text.quoted n.name),
      ("operands", Number.natText n.args.length),
      ("result", match n.result with
        | some d => "Some(" ++ d.name ++ ")"
        | none => "None")]
  | e => s.inspect e

end Store

end Spreadsheet
