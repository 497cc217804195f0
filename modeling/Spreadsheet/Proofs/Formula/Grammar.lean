import Mathlib
import Spreadsheet.Template.Parser
import Spreadsheet.Formula.FutureName

/-!
# The grammar of written formulas

A written formula is read by the grammar of templates with one more primary, the reference of a
cell: letters and digits such as `B2`, behind a sheet's name and `!` where the cell is on another
sheet.  The name stands in single quotes, a quote inside written twice, unless it consists of
letters, digits, underscores and points and starts with no digit.  Only the tokens and the primaries
are new here; every level of operators is that of the template grammar.
-/

namespace Spreadsheet.Formula

open Spreadsheet.Template

/-! ## References as text -/

/-- The rest of a quoted sheet name after its opening quote: the spelling up to the closing quote,
and what follows. -/
def quotedSheet : List Char → Option (List Char × List Char)
  | [] => none
  | '\'' :: '\'' :: rest =>
    (quotedSheet rest).map fun (spelling, after) => ('\'' :: '\'' :: spelling, after)
  | c :: rest =>
    if c = '\'' then some (['\''], rest)
    else (quotedSheet rest).map fun (spelling, after) => (c :: spelling, after)

/-- The sheet's name at the start of a text, and what follows. -/
def sheetSpelling : List Char → Option (List Char × List Char)
  | '\'' :: rest =>
    (quotedSheet rest).map fun (spelling, after) => ('\'' :: spelling, after)
  | cs =>
    if cs.head?.any Char.isDigit then none
    else some (cs.takeWhile isNameRest, cs.dropWhile isNameRest)

/-- The sheet's name with the `!` behind it at the start of a text, and what follows. -/
def sheetPrefix (cs : List Char) : Option (List Char × List Char) :=
  match sheetSpelling cs with
  | some (name, '!' :: rest) => some (name ++ ['!'], rest)
  | _ => none

/-- Whether a text is letters and then digits, some of each. -/
def isCellName (cs : List Char) : Bool :=
  !(cs.takeWhile Char.isAlpha).isEmpty && !(cs.dropWhile Char.isAlpha).isEmpty
    && (cs.dropWhile Char.isAlpha).all Char.isDigit

/-- Whether a text is the reference of a cell. -/
def isReference (cs : List Char) : Bool :=
  match sheetPrefix cs with
  | some (_, name) => isCellName name
  | none => isCellName cs

/-! ## Tokens -/

/-- The token at the start of a text that starts with `c`; a reference to another sheet is one
name. -/
def cellLexeme (c : Char) (rest : List Char) : Except LexFault Lexeme :=
  match sheetPrefix (c :: rest) with
  | some (sheet, after) =>
    let spelling := sheet ++ after.takeWhile isNameRest
    .ok ⟨.name (String.ofList spelling), spelling, after.dropWhile isNameRest⟩
  | none => lexeme c rest

/-- The tokens of a written formula, without their places. -/
def cellTokens : List Char → Option (List Placed)
  | [] => some []
  | c :: rest =>
    if isSpacing c then cellTokens rest
    else
      match cellLexeme c rest with
      | .error _ => none
      | .ok found =>
        if _shorter : found.rest.length < (c :: rest).length then
          (cellTokens found.rest).map (⟨found.token, 0⟩ :: ·)
        else none
termination_by cs => cs.length
decreasing_by
  · exact Nat.lt_succ_self _
  · assumption

/-! ## Expressions -/

/-- The smallest expressions, references of cells among them.  A name before a parenthesis is that
of a call, whatever it looks like. -/
def cellPrimary (inner : Parser Expr) (fuel : Nat) : Parser Expr
  | ⟨.name text, start⟩ :: ⟨.openParen, position⟩ :: rest =>
    primary inner fuel (⟨.name text, start⟩ :: ⟨.openParen, position⟩ :: rest)
  | ⟨.name text, start⟩ :: rest =>
    if isReference text.toList then .ok (.ref (.name text), rest)
    else primary inner fuel (⟨.name text, start⟩ :: rest)
  | ts => primary inner fuel ts

/-- An operand with its indices and percent signs. -/
def cellSuffixed (inner : Parser Expr) (fuel : Nat) : Parser Expr := fun ts => do
  let (e, rest) ← cellPrimary inner fuel ts
  suffixes e rest

/-- An expression over cells. -/
def cellExpression : Nat → Parser Expr
  | 0 => fun ts => .error ⟨.unexpectedEnd, ts⟩
  | fuel + 1 => operators (cellSuffixed (cellExpression fuel) fuel) fuel

/-- The expression that a written formula is, all of it, without its equals sign. -/
def readFormula (cs : List Char) : Option Expr := do
  let ts ← cellTokens cs
  match cellExpression (ts.length + 1) ts with
  | .ok (e, []) => some e
  | _ => none

end Spreadsheet.Formula
