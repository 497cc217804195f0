import Spreadsheet.Resolve.Evaluate

/-!
# Binding the keys of a template

A position names a child of the container in which the template stands.  A name is looked for among
the children of that container, by id and then by header, and then in the symbol table.  A key is
bound only to an element under which nothing is pending, and stays bound to it.
-/

namespace Spreadsheet

open Template (Key)

namespace Build

/-- The element that a key finds from inside a container. -/
def find? (b : Build) (container : Option Element) : Key → Option Element
  | .position i => container.bind fun c => b.store.childAt? c i
  | .name name => (container.bind fun c => b.store.childNamed? c name) <|> b.lookup? name

/-- Bind one key of an expression, if it finds something that is not pending. -/
def bindKey (container : Option Element) (e : ExpressionId) (b : Build) (key : Key) : Build :=
  match b.find? container key with
  | some found =>
    if b.store.isPending found then b
    else
      { b with
        store := b.store.updateExpression e fun n => { n with bound := n.bound ++ [(key, found)] } }
  | none => b

/-- Try to bind every key of an expression that is not bound. -/
def bindKeys (b : Build) (container : Option Element) (e : ExpressionId) : Build :=
  (b.store.unboundKeys e).foldl (bindKey container e) b

/-- Try to bind the keys of an operand. -/
def bindArgument (container : Option Element) (b : Build) : Argument → Build
  | .expression e => b.bindKeys container e
  | _ => b

/-- Whether an operand can be evaluated. -/
def argumentReady (b : Build) : Argument → Bool
  | .expression e => (b.store.unboundKeys e).isEmpty
  | .element e => !b.store.isPending e
  | .literal _ | .span _ _ => true

end Build

namespace BuildM

/-- Try to bind the keys of an expression; whether all are bound. -/
def attemptExpression (container : Option Element) (e : ExpressionId) : BuildM Bool := do
  modify fun b => b.bindKeys container e
  return ((← get).store.unboundKeys e).isEmpty

/-- Try to bind the keys of the operands of a call; whether all operands are ready. -/
def attemptCall (container : Option Element) (c : CallId) : BuildM Bool := do
  let args := ((← get).store.call c).args
  modify fun b => args.foldl (Build.bindArgument container) b
  let b ← get
  return args.all b.argumentReady

end BuildM

end Spreadsheet
