import Spreadsheet.Number.Text

/-!
# TOML values

The values of a TOML document, and their text on one line.  A table shows its entries by key, simple
ones before lists of tables and those before tables.
-/

namespace Spreadsheet.Toml

/-- A value of a TOML document. -/
inductive Value where
  | string (text : String)
  | integer (n : Int)
  | float (x : Float)
  | boolean (b : Bool)
  /-- A date, a time or both, in their usual form. -/
  | datetime (text : String)
  | array (items : List Value)
  | table (entries : List (String × Value))
deriving Inhabited

/-- Whether a character needs no quotes in a key. -/
def isBareKeyChar (c : Char) : Bool :=
  c.isAlphanum || c == '_' || c == '-'

/-- Whether a character can stand in a string as it is, quotes and backslashes apart. -/
def isTextChar (c : Char) : Bool :=
  c == '\t' || (32 ≤ c.toNat && c.toNat != 127)

/-! ## Strings -/

/-- The character `c` inside double quotes. -/
def escapedChar (multiline : Bool) (c : Char) : List Char :=
  if c = '\n' ∧ multiline then [c]
  else if c = '\x08' then ['\\', 'b']
  else if c = '\t' then ['\\', 't']
  else if c = '\n' then ['\\', 'n']
  else if c = '\x0c' then ['\\', 'f']
  else if c = '\r' then ['\\', 'r']
  else if c = '"' ∨ c = '\\' then ['\\', c]
  else if isTextChar c then [c]
  else
    let digits := (Nat.toDigits 16 c.toNat).map Char.toUpper
    ['\\', 'u'] ++ List.replicate (4 - digits.length) '0' ++ digits

/-- The length of the longest run of single quotes. -/
def longestQuoteRun (run best : Nat) : List Char → Nat
  | [] => max run best
  | c :: rest =>
    if c = '\'' then longestQuoteRun (run + 1) best rest else longestQuoteRun 0 (max run best) rest

/-- Whether a text is better shown without escapes: it has a character to be escaped, and none that
cannot be shown without. -/
def prefersLiteral (cs : List Char) : Bool :=
  cs.any (fun c => c == '"' || c == '\\') && cs.all fun c => c == '\n' || isTextChar c

/-- A string as text.  Line breaks make it a block; single quotes are used where they save
escapes. -/
def stringText (s : String) : String :=
  let cs := s.toList
  let multiline := cs.contains '\n'
  let quotes := longestQuoteRun 0 0 cs
  if prefersLiteral cs && quotes < 3 && cs.getLast? != some '\'' then
    if multiline then "'''\n" ++ s ++ "'''"
    else if quotes = 0 then "'" ++ s ++ "'"
    else "'''" ++ s ++ "'''"
  else
    let body := String.ofList (cs.flatMap (escapedChar multiline))
    if multiline then "\"\"\"\n" ++ body ++ "\"\"\"" else "\"" ++ body ++ "\""

/-- A key as text. -/
def keyText (key : String) : String :=
  let cs := key.toList
  if !cs.isEmpty && cs.all isBareKeyChar then key
  else if
    cs.any (fun c => c == '"' || c == '\\') && cs.all (fun c => isTextChar c && c != '\'') then
    "'" ++ key ++ "'"
  else "\"" ++ String.ofList (cs.flatMap (escapedChar false)) ++ "\""

/-! ## Values -/

/-- A float as text: a point is always there, unless the value is no finite number. -/
def floatText (x : Float) : String :=
  match Number.Binary.ofFloat x with
  | .nan => "nan"
  | .infinite _ => Number.plain x
  | .finite .. =>
    let text := Number.plain x
    if text.toList.contains '.' then text else text ++ ".0"

namespace Value

/-- Whether a value is a table. -/
def isTable : Value → Bool
  | table _ => true
  | _ => false

/-- The place of an entry among those of its table: before lists of tables, these before tables. -/
def rank : Value → Nat
  | table _ => 2
  | array items => if items.any isTable then 1 else 0
  | _ => 0

end Value

/-- An entry of a table ready to be shown. -/
structure ShownEntry where
  rank : Nat
  key : String
  text : String

/-- Entries are shown by rank and then by key. -/
def ShownEntry.before (a b : ShownEntry) : Bool :=
  a.rank < b.rank || (a.rank == b.rank && decide (a.key ≤ b.key))

namespace Value

mutual

/-- A value on one line. -/
def inline : Value → String
  | string s => stringText s
  | integer n => toString n
  | float x => floatText x
  | boolean b => if b then "true" else "false"
  | datetime s => s
  | array items => "[" ++ ", ".intercalate (inlineAll items) ++ "]"
  | table entries =>
    let shown := (inlineEntries entries).mergeSort ShownEntry.before
    if shown.isEmpty then "\x7b\x7d"
    else
      "\x7b " ++ ", ".intercalate (shown.map fun e => keyText e.key ++ " = " ++ e.text) ++ " \x7d"

/-- Each of several values on one line. -/
def inlineAll : List Value → List String
  | [] => []
  | v :: rest => v.inline :: inlineAll rest

/-- The entries of a table, each with its value on one line. -/
def inlineEntries : List (String × Value) → List ShownEntry
  | [] => []
  | (key, v) :: rest => ⟨v.rank, key, v.inline⟩ :: inlineEntries rest

end

end Value

end Spreadsheet.Toml
