import Spreadsheet.Resolve.Call

/-!
# Evaluating producers

A producer is evaluated once the keys it names are bound.  The value becomes a new element, which
takes over the id, the header and the styles that the producer declares, without overriding anything
it has already.
-/

namespace Spreadsheet

open Template (Key Expr)

/-- What the parts of a template are evaluated against. -/
structure Scope where
  store : Store
  bound : List (Key × Element)
  source : String
  hint : Option Dimension

namespace Scope

/-- The element bound to a key. -/
def ref (x : Scope) (key : Key) : Except SheetError Value :=
  match x.bound.lookup key with
  | some e => .ok (.element e)
  | none => .error (.unresolvedReference x.source [key.text] none)

mutual

/-- The value of an expression. -/
def eval (x : Scope) : Expr → Except SheetError Value
  | .number n => .ok (.grid (.scalar (.literal (.number n))))
  | .text t => .ok (.grid (.scalar (.literal (.text t))))
  | .bool b => .ok (.grid (.scalar (.literal (.bool b))))
  | .ref key => x.ref key
  | .index target key => do Value.index x.store (← x.eval target) key
  | .unary op operand => do Value.unary x.store op (← x.eval operand)
  | .binary op lhs rhs => do
    let left ← x.eval lhs
    let right ← x.eval rhs
    Value.binary x.store op left right
  | .call name args => do callValue x.store name (← x.evalAll args) x.hint

/-- The values of the arguments of a call. -/
def evalAll (x : Scope) : List Expr → Except SheetError (List Value)
  | [] => .ok []
  | e :: rest => do
    let v ← x.eval e
    return v :: (← x.evalAll rest)

end

end Scope

namespace Store

/-- The keys of an expression to which nothing is bound yet. -/
def unboundKeys (s : Store) (e : ExpressionId) : List Key :=
  let n := s.expression e
  n.template.keys.filter fun key => (n.bound.lookup key).isNone

/-- The value of an expression. -/
def expressionValue (s : Store) (e : ExpressionId) (hint : Option Dimension) :
    Except SheetError Value :=
  let n := s.expression e
  Scope.eval ⟨s, n.bound, n.template.source, hint⟩ n.template.ast

/-- The value of an operand. -/
def argumentValue (s : Store) : Argument → Except SheetError Value
  | .literal v => .ok (.grid (.scalar (.literal v)))
  | .element e => .ok (.element e)
  | .expression e => s.expressionValue e (some .scalar)
  | .span first last => .ok (.grid (.scalar (.span first last)))

/-- The expressions among the operands of a call. -/
def callExpressions (s : Store) (c : CallId) : List ExpressionId :=
  (s.call c).args.filterMap fun
    | .expression e => some e
    | _ => none

/-- The keys for which the expressions of a call wait, repeats kept. -/
def callKeys (s : Store) (c : CallId) : List Key :=
  (s.callExpressions c).flatMap s.unboundKeys

/-- The value of a call; the dimension that the call asks for wins over the hint. -/
def callNodeValue (s : Store) (c : CallId) (hint : Option Dimension) : Except SheetError Value := do
  let n := s.call c
  callValue s n.name (← n.args.mapM s.argumentValue) (n.result <|> hint)

/-- A call in short, for messages. -/
def callText (s : Store) (c : CallId) : String :=
  let n := s.call c
  n.name ++ "(" ++ Number.natText n.args.length ++ " operands)"

end Store

namespace BuildM

/-- Pass on what a producer declares. -/
def applyDeclared (d : Declared) (e : Element) : BuildM Unit := do
  if let some id := d.id then
    if ((← get).store.id? e).isNone then setId e id else registerId id e
  if let some header := d.header then
    if ((← get).store.header? e).isNone then setHeader e header else registerHeader header e
  changeStore fun s =>
    match e with
    | .cell c => s.updateCell c fun n => { n with style := n.style.inherit d.cellStyle }
    | _ => s.updateAttributes e fun a =>
      { a with
        cellStyle := a.cellStyle.inherit d.cellStyle
        headerStyle := a.headerStyle.inherit d.headerStyle }

/-- The element that an expression produces.  With `reference`, a template that is a plain reference
gives cells that point at the element it names; otherwise the element is copied. -/
def evalExpression (e : ExpressionId) (hint : Option Dimension) (reference : Bool) :
    BuildM Element := do
  let s := (← get).store
  let n := s.expression e
  let value ← ofExcept (s.expressionValue e hint)
  let element ← elementFor value (reference && n.template.isRef)
  applyDeclared n.declared element
  return element

/-- The element that a call produces. -/
def evalCall (c : CallId) (hint : Option Dimension) : BuildM Element := do
  let s := (← get).store
  let value ← ofExcept (s.callNodeValue c hint)
  let element ← elementFor value false
  applyDeclared (s.call c).declared element
  return element

end BuildM

end Spreadsheet
