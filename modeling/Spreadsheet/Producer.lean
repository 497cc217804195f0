import Spreadsheet.Resolve.Call

/-!
# Making producers

An expression is made from a template, a call from a name and operands.  The name is checked before
the operands, and these in order.  A list among the operands is spread, a template becomes an
expression, and neither another call nor a gap can be an operand.
-/

namespace Spreadsheet

/-- An operand of a call, as it is given. -/
inductive Operand where
  | literal (value : CellValue)
  | element (element : Element)
  /-- An expression over the elements that the template names. -/
  | template (text : String)
  /-- Several operands. -/
  | list (operands : List Operand)
  /-- From one cell to another. -/
  | span (first last : CellId)

namespace BuildM

/-- Make an expression from a template. -/
def newExpression (text : String) : BuildM ExpressionId := do
  match Template.prepare text with
  | .error cause => throw (.template cause)
  | .ok template => onStore fun s => s.addExpression { template }

/-- The operand that a call makes of an element, if it takes it. -/
def elementArgument (name : String) : Element → BuildM Argument
  | .call _ => throw (.nestedFunctionCall name)
  | .gap _ => throw (.incompatibleChild (.element .functionCall) .gap)
  | .expression e => return .expression e
  | e => return .element e

mutual

/-- The operands that a call makes of one that is given. -/
def arguments (name : String) : Operand → BuildM (List Argument)
  | .literal value => return [.literal value]
  | .element e => return [← elementArgument name e]
  | .template text => return [.expression (← newExpression text)]
  | .list operands => allArguments name operands
  | .span first last => return [.span first last]

/-- The operands that a call makes of those that are given. -/
def allArguments (name : String) : List Operand → BuildM (List Argument)
  | [] => return []
  | operand :: rest => do
    let args ← arguments name operand
    return args ++ (← allArguments name rest)

end

/-- Make a call. -/
def newCall (name : String) (operands : List Operand) : BuildM CallId := do
  let name ← ofExcept (functionName name)
  let args ← allArguments name operands
  onStore fun s => s.addCall { name, args }

end BuildM

end Spreadsheet
