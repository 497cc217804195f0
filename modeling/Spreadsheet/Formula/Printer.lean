import Spreadsheet.Template.Printer
import Spreadsheet.Tree

/-!
# Formulas in prefix form

A formula as a parenthesized list that starts with the name of its operation.  A cell that has a
place is shown by it, any other by what it holds.
-/

namespace Spreadsheet

open Template (parenthesized)

/-- A value in prefix form. -/
def CellValue.prefixForm : CellValue → String
  | .empty => "empty"
  | .bool b => Template.flagText b
  | .number x => Number.plain x
  | .text s => Text.escaped s
  | .formula s => parenthesized ["f", Text.escaped s]

namespace Formula

mutual

/-- A formula in prefix form; `cellForm` shows the cells in it. -/
def prefixForm (s : Store) (cellForm : CellId → String) : Formula → String
  | .literal value => parenthesized ["lit", value.prefixForm]
  | .ref c => parenthesized ["ref", cellForm c]
  | .range target includeHeaders =>
    parenthesized ["range", (s.kind target).name, Number.natText (s.leaves target).length,
      if includeHeaders then "headers" else "content"]
  | .span first last => parenthesized ["span", cellForm first, cellForm last]
  | .unary op operand => parenthesized [op.name, operand.prefixForm s cellForm]
  | .binary op lhs rhs =>
    parenthesized [op.symbol, lhs.prefixForm s cellForm, rhs.prefixForm s cellForm]
  | .call name args => parenthesized ("call" :: name :: prefixForms s cellForm args)
  | .list items => parenthesized ("list" :: prefixForms s cellForm items)

/-- Each of several formulas in prefix form. -/
def prefixForms (s : Store) (cellForm : CellId → String) : List Formula → List String
  | [] => []
  | f :: rest => f.prefixForm s cellForm :: prefixForms s cellForm rest

end

end Formula

namespace Store

/-- A cell in prefix form, with the formulas of at most `fuel` cells inside each other. -/
def cellFormWithin (s : Store) : Nat → CellId → String
  | fuel, c =>
    let n := s.cell c
    match n.location with
    | some l => Text.escaped l.describe
    | none =>
      let content := match n.formula, fuel with
        | some formula, fuel + 1 => formula.prefixForm s (s.cellFormWithin fuel)
        | _, _ => n.value.prefixForm
      parenthesized ("cell" :: content :: (n.id.map Text.escaped).toList)

/-- The formula of a cell in prefix form. -/
def formulaForm (s : Store) (formula : Formula) : String :=
  formula.prefixForm s (s.cellFormWithin s.cells.size)

end Store

end Spreadsheet
