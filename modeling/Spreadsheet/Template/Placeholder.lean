import Spreadsheet.Text.Blank
import Spreadsheet.Text.Bytes
import Spreadsheet.Number.Read
import Spreadsheet.Template.Expr
import Spreadsheet.Template.Error

/-!
# Placeholders

A placeholder is a bracketed key such as `[price]` or `[0]`.  Brackets inside string literals do
not count, and a bracket directly after `]`, `)` or `[` is indexing.  A template is scanned with the
contents of its literals masked, so that every position stays that of the template itself.
-/

namespace Spreadsheet.Template

open Spreadsheet.Text

/-! ## Masking string literals -/

/-- A character of a template, with whether it lies inside a string literal. -/
structure Masked where
  char : Char
  hidden : Bool

/-- The character as the scanners see it: blank inside a literal. -/
def Masked.shown (m : Masked) : Char :=
  if m.hidden then ' ' else m.char

/-- Mask the contents of string literals; the quotes at their ends stay visible, a doubled quote
inside is content.  There is no answer when the last literal is not closed. -/
def maskFrom : Bool → List Char → Option (List Masked)
  | false, [] => some []
  | true, [] => none
  | true, '"' :: '"' :: rest => (maskFrom true rest).map ([⟨'"', true⟩, ⟨'"', true⟩] ++ ·)
  | inside, c :: rest =>
    if c = '"' then (maskFrom (!inside) rest).map (⟨c, false⟩ :: ·)
    else (maskFrom inside rest).map (⟨c, inside⟩ :: ·)

/-- A template with the contents of its string literals masked. -/
def mask (cs : List Char) : Option (List Masked) :=
  maskFrom false cs

/-- Masking keeps the characters. -/
theorem map_char_maskFrom {inside : Bool} {cs : List Char} {ms : List Masked}
    (h : maskFrom inside cs = some ms) : ms.map (·.char) = cs := by
  fun_induction maskFrom inside cs generalizing ms with
  | case1 => simp_all
  | case2 => simp at h
  | case3 rest ih =>
    obtain ⟨us, hu, rfl⟩ := Option.map_eq_some_iff.1 h
    simp [ih hu]
  | case4 inside rest _ ih =>
    obtain ⟨us, hu, rfl⟩ := Option.map_eq_some_iff.1 h
    simp [ih hu]
  | case5 inside c rest _ hc ih =>
    obtain ⟨us, hu, rfl⟩ := Option.map_eq_some_iff.1 h
    simp [ih hu]

/-- The masked text with every hidden byte blank, as long as the template in bytes. -/
def blanked (ms : List Masked) : List Char :=
  ms.flatMap fun m => if m.hidden then List.replicate m.char.utf8Size ' ' else [m.char]

/-! ## Checks on the whole template -/

/-- The first bracket that does not pair up; `opened` holds the brackets still open. -/
def unbalancedBracket (opened : List Bracket) : List Char → Option Bracket
  | [] => opened.head?
  | '[' :: rest => unbalancedBracket (.square :: opened) rest
  | '(' :: rest => unbalancedBracket (.round :: opened) rest
  | ']' :: rest =>
    match opened with
    | .square :: outer => unbalancedBracket outer rest
    | _ => some .square
  | ')' :: rest =>
    match opened with
    | .round :: outer => unbalancedBracket outer rest
    | _ => some .round
  | _ :: rest => unbalancedBracket opened rest

/-- Whether a character can stand inside a name. -/
def isNameChar (c : Char) : Bool :=
  c.isAlphanum || c == '_'

/-- Whether the reserved name is indexed anywhere; `before` is the character before the text. -/
def indexesReserved (before : Option Char) : List Char → Bool
  | [] => false
  | c :: rest =>
    (!before.any isNameChar && (reservedName.toList ++ ['[']).isPrefixOf (c :: rest))
      || indexesReserved (some c) rest

/-- Whether a bracket after this character is indexing. -/
def indexesAfter (before : Option Char) : Bool :=
  before.any fun c => c == ']' || c == ')' || c == '['

/-- Whether an empty pair of brackets that is not indexing occurs. -/
def hasEmptyBrackets (before : Option Char) : List Char → Bool
  | [] => false
  | c :: rest =>
    (!indexesAfter before && ['[', ']'].isPrefixOf (c :: rest)) || hasEmptyBrackets (some c) rest

/-! ## Bracketed runs -/

/-- A bracketed run of characters free of brackets and parentheses, with its place in bytes. -/
structure Run where
  inner : List Char
  start : Nat
  stop : Nat
  follows : Option Char

/-- A run whose closing bracket is not yet reached; its characters are held backwards. -/
structure OpenRun where
  reversed : List Char
  start : Nat
  follows : Option Char

/-- The open run after a character: an opening bracket starts a new one, any other bracket ends it,
and all else belongs to it. -/
def nextOpen (before : Option Char) (position : Nat) (opened : Option OpenRun) (m : Masked) :
    Option OpenRun :=
  match m.shown with
  | '[' => some ⟨[], position, before⟩
  | ']' | '(' | ')' => none
  | _ => opened.map fun run => { run with reversed := m.char :: run.reversed }

/-- The run that a character closes, if any. -/
def closedRun (position : Nat) (opened : Option OpenRun) (m : Masked) : List Run :=
  match m.shown, opened with
  | ']', some ⟨c :: cs, start, follows⟩ =>
    [⟨(c :: cs).reverse, start, position + m.char.utf8Size, follows⟩]
  | _, _ => []

/-- The non-empty bracketed runs of a masked text from byte `position` on. -/
def runsFrom (before : Option Char) (position : Nat) (opened : Option OpenRun) :
    List Masked → List Run
  | [] => []
  | m :: rest =>
    closedRun position opened m ++
      runsFrom (some m.shown) (position + m.char.utf8Size) (nextOpen before position opened m) rest

/-! ## Extraction -/

/-- An occurrence of a key and the bytes it covers in the template. -/
structure Placeholder where
  key : Key
  start : Nat
  stop : Nat

/-- Positions are natural numbers of 64 bits; a longer number is a name. -/
def positionBound : Nat := UInt64.size

/-- Whether a character is a quote, of either kind. -/
def isQuote (c : Char) : Bool :=
  c == '\'' || c == '"'

/-- The text without the characters of a class at either end. -/
def trimBoth (p : Char → Bool) (cs : List Char) : List Char :=
  ((cs.dropWhile p).reverse.dropWhile p).reverse

/-- The key that the text between brackets names: a position, or a name without the quotes and
blanks around it.  There is no answer when nothing is left. -/
def readKey (inner : List Char) : Option Key :=
  let text := trim inner
  match Number.readNat positionBound text with
  | some i => some (.position i)
  | none =>
    match trim (trimBoth isQuote text) with
    | [] => none
    | name => some (.name (String.ofList name))

/-- All placeholders of a template, in order of appearance. -/
def placeholders (template : String) : Except TemplateError (List Placeholder) := do
  let some masked := mask template.toList | throw (.unterminatedString template)
  let shown := masked.map Masked.shown
  if let some bracket := unbalancedBracket [] shown then throw (.unbalanced template bracket)
  if indexesReserved none shown then throw (.reservedName template)
  let runs := (runsFrom none 0 none masked).filter (!indexesAfter ·.follows)
  let found ← runs.mapM fun run =>
    match readKey run.inner with
    | some key => pure { key, start := run.start, stop := run.stop : Placeholder }
    | none => throw (.emptyPlaceholder template)
  if hasEmptyBrackets none shown then throw (.emptyPlaceholder template)
  return found

end Spreadsheet.Template
