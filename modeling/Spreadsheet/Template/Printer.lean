import Spreadsheet.Template.Expr
import Spreadsheet.Text.Quoted
import Spreadsheet.Number.Text

/-!
# Expressions in prefix form

An expression as a parenthesized list that starts with the name of its operation.  The form shows
the whole structure: no precedence has to be known to read it.
-/

namespace Spreadsheet.Template

/-- A parenthesized list. -/
def parenthesized (parts : List String) : String :=
  "(" ++ " ".intercalate parts ++ ")"

/-- A key. -/
def Key.prefixForm : Key → String
  | .position i => Number.natText i
  | .name s => Text.escaped s

/-- The name of an operator with one operand. -/
def UnaryOp.name : UnaryOp → String
  | .neg => "neg"
  | .plus => "plus"
  | .percent => "percent"

/-- A truth value. -/
def flagText (b : Bool) : String :=
  if b then "true" else "false"

mutual

/-- An expression in prefix form. -/
def Expr.prefixForm : Expr → String
  | .number x => parenthesized ["num", Number.plain x]
  | .text s => parenthesized ["text", Text.escaped s]
  | .bool b => parenthesized ["bool", flagText b]
  | .ref key => parenthesized ["ref", key.prefixForm]
  | .index target key => parenthesized ["index", target.prefixForm, key.prefixForm]
  | .unary op operand => parenthesized [op.name, operand.prefixForm]
  | .binary op lhs rhs => parenthesized [op.symbol, lhs.prefixForm, rhs.prefixForm]
  | .call name args => parenthesized ("call" :: name :: prefixForms args)

/-- Each of several expressions in prefix form. -/
def prefixForms : List Expr → List String
  | [] => []
  | e :: rest => e.prefixForm :: prefixForms rest

end

end Spreadsheet.Template
