import Spreadsheet.Text.Bytes
import Spreadsheet.Number.Read
import Spreadsheet.Template.Expr
import Spreadsheet.Template.Error

/-!
# Tokens of an expression

Numbers, string literals, names, brackets and operators.  A token is read by its longest spelling,
except that an exponent without digits is left to the next token.  Spaces, tabs and line ends
between tokens are skipped.
-/

namespace Spreadsheet.Template

open Spreadsheet.Text

/-- A token. -/
inductive Token where
  | number (value : Float)
  | literal (text : String)
  | name (text : String)
  | openParen
  | closeParen
  | openBracket
  | closeBracket
  | comma
  | operator (op : BinaryOp)
  | percent
deriving DecidableEq

/-- A token with the byte offset at which it starts. -/
structure Placed where
  token : Token
  start : Nat

/-- Why no token can be read. -/
inductive LexFault where
  | unterminatedString
  | fault (cause : Fault)

/-- A token with its spelling and the text after it. -/
structure Lexeme where
  token : Token
  spelling : List Char
  rest : List Char

/-- Whether a character between tokens is skipped. -/
def isSpacing (c : Char) : Bool :=
  c == ' ' || c == '\t' || c == '\n' || c == '\r'

/-- Whether a character can be part of a number before its exponent. -/
def isNumberChar (c : Char) : Bool :=
  c.isDigit || c == '.'

/-- Whether a name can start with a character. -/
def isNameStart (c : Char) : Bool :=
  c.isAlpha || c == '_'

/-- Whether a name can go on with a character. -/
def isNameRest (c : Char) : Bool :=
  c.isAlphanum || c == '_' || c == '.'

/-- The rest of a string literal after its opening quote: its value, its spelling with the closing
quote, and what follows. -/
def literalTail : List Char → Option (List Char × List Char × List Char)
  | [] => none
  | '"' :: '"' :: rest =>
    (literalTail rest).map fun (value, spelling, after) =>
      ('"' :: value, '"' :: '"' :: spelling, after)
  | c :: rest =>
    if c = '"' then some ([], ['"'], rest)
    else
      (literalTail rest).map fun (value, spelling, after) => (c :: value, c :: spelling, after)

/-- Reading a literal splits the text. -/
theorem literalTail_append {cs value spelling after : List Char}
    (h : literalTail cs = some (value, spelling, after)) : spelling ++ after = cs := by
  fun_induction literalTail cs generalizing value spelling with
  | case1 => simp at h
  | case2 rest ih =>
    simp only [Option.map_eq_some_iff, Prod.exists, Prod.mk.injEq] at h
    obtain ⟨v, s, a, hs, rfl, rfl, rfl⟩ := h
    simp [ih hs]
  | case3 rest =>
    obtain ⟨-, rfl, rfl⟩ : value = [] ∧ ['"'] = spelling ∧ rest = after := by simpa using h
    rfl
  | case4 c rest _ hc ih =>
    simp only [Option.map_eq_some_iff, Prod.exists, Prod.mk.injEq] at h
    obtain ⟨v, s, a, hs, rfl, rfl, rfl⟩ := h
    simp [ih hs]

/-- The spelling of an exponent at the start of a text, empty if there is none. -/
def exponentSpelling : List Char → List Char
  | [] => []
  | c :: rest =>
    if c = 'e' ∨ c = 'E' then
      let sign := match rest with
        | s :: _ => if s = '+' ∨ s = '-' then [s] else []
        | [] => []
      let digits := (rest.drop sign.length).takeWhile Char.isDigit
      if digits.isEmpty then [] else c :: sign ++ digits
    else []

/-- The spelling of a number at the start of a text. -/
def numberSpelling (cs : List Char) : List Char :=
  cs.takeWhile isNumberChar ++ exponentSpelling (cs.dropWhile isNumberChar)

/-- The operator or bracket at the start of a text, with the length of its spelling. -/
def symbolAt : List Char → Option (Token × Nat)
  | '(' :: _ => some (.openParen, 1)
  | ')' :: _ => some (.closeParen, 1)
  | '[' :: _ => some (.openBracket, 1)
  | ']' :: _ => some (.closeBracket, 1)
  | ',' :: _ => some (.comma, 1)
  | '+' :: _ => some (.operator .add, 1)
  | '-' :: _ => some (.operator .sub, 1)
  | '*' :: _ => some (.operator .mul, 1)
  | '/' :: _ => some (.operator .div, 1)
  | '^' :: _ => some (.operator .pow, 1)
  | '&' :: _ => some (.operator .concat, 1)
  | '%' :: _ => some (.percent, 1)
  | '=' :: _ => some (.operator .eq, 1)
  | '<' :: '>' :: _ => some (.operator .ne, 2)
  | '<' :: '=' :: _ => some (.operator .le, 2)
  | '<' :: _ => some (.operator .lt, 1)
  | '>' :: '=' :: _ => some (.operator .ge, 2)
  | '>' :: _ => some (.operator .gt, 1)
  | _ => none

/-- The token at the start of a text that starts with `c`. -/
def lexeme (c : Char) (rest : List Char) : Except LexFault Lexeme :=
  let cs := c :: rest
  if c = '"' then
    match literalTail rest with
    | some (value, spelling, after) =>
      .ok ⟨.literal (String.ofList value), c :: spelling, after⟩
    | none => .error .unterminatedString
  else if isNumberChar c then
    let spelling := numberSpelling cs
    match Number.read spelling with
    | some value => .ok ⟨.number value, spelling, cs.drop spelling.length⟩
    | none => .error (.fault (.invalidNumber (String.ofList spelling)))
  else if isNameStart c then
    let spelling := cs.takeWhile isNameRest
    .ok ⟨.name (String.ofList spelling), spelling, cs.dropWhile isNameRest⟩
  else
    match symbolAt cs with
    | some (token, length) => .ok ⟨token, cs.take length, cs.drop length⟩
    | none => .error (.fault (.unexpectedCharacter c))

/-- The tokens of a text that starts at byte `position`, with the position of a fault.  Every token
is at least one character long, so the length of the text is `fuel` enough. -/
def tokensFrom : Nat → Nat → List Char → Except (LexFault × Nat) (List Placed)
  | 0, _, _ => .ok []
  | _, _, [] => .ok []
  | fuel + 1, position, c :: rest =>
    if isSpacing c then tokensFrom fuel (position + 1) rest
    else
      match lexeme c rest with
      | .error fault => .error (fault, position)
      | .ok found =>
        (tokensFrom fuel (position + byteLength found.spelling) found.rest).map
          (⟨found.token, position⟩ :: ·)

/-- The tokens of a text. -/
def tokens (cs : List Char) : Except (LexFault × Nat) (List Placed) :=
  tokensFrom cs.length 0 cs

end Spreadsheet.Template
