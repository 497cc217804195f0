/-!
# Template expressions

A template such as `[price] * [qty]` denotes an expression over references to other elements.  The
operators are exactly those listed here; there is no general evaluation.
-/

namespace Spreadsheet.Template

/-- What a reference or an index names: a position, counted from zero, or an id or header. -/
inductive Key where
  | position (index : Nat)
  | name (text : String)
deriving DecidableEq, Inhabited

/-- The key as a user writes it between brackets. -/
def Key.text : Key → String
  | .position i => toString i
  | .name s => s

/-- The operators with two operands. -/
inductive BinaryOp where
  | add | sub | mul | div | pow | concat | eq | ne | lt | gt | le | ge
deriving DecidableEq

/-- The operator as it is written in a formula. -/
def BinaryOp.symbol : BinaryOp → String
  | .add => "+"
  | .sub => "-"
  | .mul => "*"
  | .div => "/"
  | .pow => "^"
  | .concat => "&"
  | .eq => "="
  | .ne => "<>"
  | .lt => "<"
  | .gt => ">"
  | .le => "<="
  | .ge => ">="

/-- The operators with one operand; a percent sign stands behind it. -/
inductive UnaryOp where
  | neg | plus | percent
deriving DecidableEq

/-- An expression. -/
inductive Expr where
  | number (value : Float)
  | text (value : String)
  | bool (value : Bool)
  | ref (key : Key)
  | index (target : Expr) (key : Key)
  | unary (op : UnaryOp) (operand : Expr)
  | binary (op : BinaryOp) (lhs rhs : Expr)
  | call (name : String) (args : List Expr)
deriving Inhabited

mutual

/-- The keys of all references, in evaluation order, repeats kept. -/
def Expr.refs : Expr → List Key
  | .number _ | .text _ | .bool _ => []
  | .ref key => [key]
  | .index target _ => target.refs
  | .unary _ operand => operand.refs
  | .binary _ lhs rhs => lhs.refs ++ rhs.refs
  | .call _ args => refsOfArgs args

/-- The keys of the references in a list of arguments. -/
def refsOfArgs : List Expr → List Key
  | [] => []
  | arg :: rest => arg.refs ++ refsOfArgs rest

end

/-- Whether a function is called anywhere in the expression. -/
def Expr.hasCall : Expr → Bool
  | .number _ | .text _ | .bool _ | .ref _ => false
  | .index target _ => target.hasCall
  | .unary _ operand => operand.hasCall
  | .binary _ lhs rhs => lhs.hasCall || rhs.hasCall
  | .call _ _ => true

/-- The keys without repeats, in order of first appearance. -/
def distinctKeys (keys : List Key) : List Key :=
  keys.foldl (fun seen key => if seen.contains key then seen else seen ++ [key]) []

theorem refsOfArgs_eq_flatMap (args : List Expr) : refsOfArgs args = args.flatMap Expr.refs := by
  induction args with
  | nil => rfl
  | cons arg rest ih => simp [refsOfArgs, ih]

end Spreadsheet.Template
