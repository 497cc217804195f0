import Spreadsheet.Template.Token

/-!
# The expression grammar

```text
compare  := concat (("=" | "<>" | "<" | ">" | "<=" | ">=") concat)*
concat   := additive ("&" additive)*
additive := term (("+" | "-") term)*
term     := power (("*" | "/") power)*
power    := unary ("^" unary)*
unary    := ("-" | "+") unary | postfix
postfix  := primary ("[" (NUMBER | STRING) "]" | "%")*
primary  := NUMBER | STRING | TRUE | FALSE | refs "[" (NUMBER | STRING) "]"
          | NAME "(" (compare ("," compare)*)? ")" | "(" compare ")"
```

Every level between `compare` and `power` groups to the left.  A parser takes tokens from the front
of a list and gives back the rest; a failure keeps the tokens at which it happened, so that its
position is known.
-/

namespace Spreadsheet.Template

/-- A failure and the tokens not taken when it happened. -/
structure Stuck where
  fault : Fault
  rest : List Placed

/-- A parser takes tokens from the front. -/
abbrev Parser (α : Type) := List Placed → Except Stuck (α × List Placed)

/-- The position that a number between brackets denotes: it has to be a natural number, and beyond
64 bits it is the largest position. -/
def indexOf (x : Float) : Option Nat :=
  (Number.toNat? x).map (min · (UInt64.size - 1))

/-- The key that a token denotes between brackets. -/
def keyOf : Token → Option Key
  | .number x => (indexOf x).map .position
  | .literal s => some (.name s)
  | _ => none

/-- Take a closing bracket. -/
def closeBracket : Parser Unit
  | ⟨.closeBracket, _⟩ :: rest => .ok ((), rest)
  | ts => .error ⟨.bracketExpected, ts⟩

/-- Take a closing parenthesis, or fail for the given reason. -/
def closeParen (fault : Fault) : Parser Unit
  | ⟨.closeParen, _⟩ :: rest => .ok ((), rest)
  | ts => .error ⟨fault, ts⟩

/-- One level of binary operators that group to the left, after its first operand. -/
def chain (ops : List BinaryOp) (operand : Parser Expr) : Nat → Expr → Parser Expr
  | 0, lhs, ts => .ok (lhs, ts)
  | fuel + 1, lhs, ⟨.operator op, start⟩ :: rest =>
    if ops.contains op then do
      let (rhs, rest) ← operand rest
      chain ops operand fuel (.binary op lhs rhs) rest
    else .ok (lhs, ⟨.operator op, start⟩ :: rest)
  | _, lhs, ts => .ok (lhs, ts)

/-- One level of binary operators. -/
def level (ops : List BinaryOp) (operand : Parser Expr) (fuel : Nat) : Parser Expr := fun ts => do
  let (lhs, rest) ← operand ts
  chain ops operand fuel lhs rest

/-- The signs in front of an operand. -/
def signed (operand : Parser Expr) : Parser Expr
  | ⟨.operator .sub, _⟩ :: rest => do
    let (e, rest) ← signed operand rest
    .ok (.unary .neg e, rest)
  | ⟨.operator .add, _⟩ :: rest => do
    let (e, rest) ← signed operand rest
    .ok (.unary .plus e, rest)
  | ts => operand ts

/-- The indices and percent signs behind an operand. -/
def suffixes (e : Expr) : Parser Expr
  | ⟨.openBracket, start⟩ :: ts =>
    match ts with
    | [] => .error ⟨.indexExpected, [⟨.openBracket, start⟩]⟩
    | t :: rest =>
      match keyOf t.token with
      | none => .error ⟨.indexExpected, t :: rest⟩
      | some key =>
        match rest with
        | ⟨.closeBracket, _⟩ :: rest => suffixes (.index e key) rest
        | _ => .error ⟨.bracketExpected, rest⟩
  | ⟨.percent, _⟩ :: rest => suffixes (.unary .percent e) rest
  | ts => .ok (e, ts)

/-- The arguments of a call after the first one, through the closing parenthesis. -/
def moreArguments (argument : Parser Expr) : Nat → List Expr → Parser (List Expr)
  | fuel + 1, args, ⟨.comma, _⟩ :: rest => do
    let (arg, rest) ← argument rest
    moreArguments argument fuel (args ++ [arg]) rest
  | _, args, ts => do
    let ((), rest) ← closeParen .argumentsUnclosed ts
    .ok (args, rest)

/-- The arguments of a call after its opening parenthesis. -/
def arguments (argument : Parser Expr) (fuel : Nat) : Parser (List Expr)
  | ⟨.closeParen, _⟩ :: rest => .ok ([], rest)
  | ts => do
    let (arg, rest) ← argument ts
    moreArguments argument fuel [arg] rest

/-- The reference that follows the reserved name and its bracket. -/
def reference : Parser Expr
  | [] => .error ⟨.malformedReference, []⟩
  | t :: rest =>
    match keyOf t.token with
    | none => .error ⟨.malformedReference, rest⟩
    | some key => do
      let ((), rest) ← closeBracket rest
      .ok (.ref key, rest)

/-- Upper-case form of a function name; names are ASCII. -/
def upperName (name : String) : String :=
  String.ofList (name.toList.map Char.toUpper)

/-- The expression that starts with a name: a reference, a call or a truth value. -/
def named (inner : Parser Expr) (fuel : Nat) (name : String) (start : Nat) : Parser Expr
  | ⟨.openBracket, position⟩ :: rest =>
    if name = reservedName then reference rest
    else constant (⟨.openBracket, position⟩ :: rest)
  | ⟨.openParen, _⟩ :: rest => do
    let (args, rest) ← arguments inner fuel rest
    .ok (.call (upperName name) args, rest)
  | ts => constant ts
where
  /-- A truth value in any case. -/
  constant : Parser Expr := fun ts =>
    if upperName name = "TRUE" then .ok (.bool true, ts)
    else if upperName name = "FALSE" then .ok (.bool false, ts)
    else .error ⟨.unknownName name, ⟨.name name, start⟩ :: ts⟩

/-- The smallest expressions. -/
def primary (inner : Parser Expr) (fuel : Nat) : Parser Expr
  | [] => .error ⟨.unexpectedEnd, []⟩
  | ⟨.number x, _⟩ :: rest => .ok (.number x, rest)
  | ⟨.literal s, _⟩ :: rest => .ok (.text s, rest)
  | ⟨.openParen, _⟩ :: rest => do
    let (e, rest) ← inner rest
    let ((), rest) ← closeParen .parenExpected rest
    .ok (e, rest)
  | ⟨.name name, start⟩ :: rest => named inner fuel name start rest
  | ts => .error ⟨.valueExpected, ts⟩

/-- An operand with its indices and percent signs. -/
def suffixed (inner : Parser Expr) (fuel : Nat) : Parser Expr := fun ts => do
  let (e, rest) ← primary inner fuel ts
  suffixes e rest

/-- The levels of operators above the operands, loosest last. -/
def operators (operand : Parser Expr) (fuel : Nat) : Parser Expr :=
  level [.eq, .ne, .lt, .gt, .le, .ge]
    (level [.concat]
      (level [.add, .sub]
        (level [.mul, .div]
          (level [.pow] (signed operand) fuel) fuel) fuel) fuel) fuel

/-- An expression.  Every parenthesis and every operator takes a token, so one more than the number
of tokens is `fuel` enough. -/
def expression : Nat → Parser Expr
  | 0 => fun ts => .error ⟨.unexpectedEnd, ts⟩
  | fuel + 1 => operators (suffixed (expression fuel) fuel) fuel

/-- The expression that a list of tokens is, all of it. -/
def parseTokens (ts : List Placed) : Except Stuck Expr :=
  match expression (ts.length + 1) ts with
  | .error stuck => .error stuck
  | .ok (e, []) => .ok e
  | .ok (_, rest) => .error ⟨.trailingInput, rest⟩

/-- The byte offset of the first token, or the end of the text. -/
def offsetOf (length : Nat) : List Placed → Nat
  | [] => length
  | t :: _ => t.start

/-- The expression that a text is. -/
def parse (text : String) : Except TemplateError Expr :=
  match tokens text.toList with
  | .error (.unterminatedString, _) => .error (.unterminatedString text)
  | .error (.fault cause, position) => .error (.malformed text position cause)
  | .ok ts =>
    match parseTokens ts with
    | .ok e => .ok e
    | .error stuck => .error (.malformed text (offsetOf text.utf8ByteSize stuck.rest) stuck.fault)

end Spreadsheet.Template
