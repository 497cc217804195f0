import Spreadsheet.Toml.Numbers
import Spreadsheet.Toml.Tables

/-!
# Reading TOML documents

A document is a list of lines: headers, entries, comments and blank lines.  Values can go over
several lines inside square brackets and blocks.  A document that breaks a rule has no answer.
-/

namespace Spreadsheet.Toml

/-! ## Space between things -/

/-- The text after a comment, if there is one at its start. -/
def skipComment : List Char → List Char
  | '#' :: rest => rest.dropWhile isTextChar
  | cs => cs

/-- The text after blanks, comments and line breaks, of which there are at most `fuel`. -/
def skipLinesWithin : Nat → List Char → List Char
  | 0, cs => cs
  | fuel + 1, cs =>
    match skipComment (skipBlanks cs) with
    | '\n' :: rest | '\r' :: '\n' :: rest => skipLinesWithin fuel rest
    | rest => rest

/-- The text after blanks, comments and line breaks. -/
def skipLines (cs : List Char) : List Char :=
  skipLinesWithin cs.length cs

/-- The text after the end of a line, where only a comment is left on it. -/
def skipLineEnd (cs : List Char) : Option (List Char) :=
  match skipComment (skipBlanks cs) with
  | [] => some []
  | '\n' :: rest | '\r' :: '\n' :: rest => some rest
  | _ => none

/-! ## Values -/

/-- Whether a number, a date or a time can start with a character. -/
def startsNumber (c : Char) : Bool :=
  c.isDigit || c == '+' || c == '-' || c == 'i' || c == 'n'

/-- The elements of a list up to its closing bracket, of which there are at most `fuel`. -/
def readElements (readValue : Reader Value) : Nat → Reader (List Value)
  | 0, _ => none
  | fuel + 1, cs =>
    match skipLines cs with
    | ']' :: rest => some ([], rest)
    | cs => do
      let (v, rest) ← readValue cs
      match skipLines rest with
      | ',' :: rest =>
        let (more, rest) ← readElements readValue fuel rest
        some (v :: more, rest)
      | ']' :: rest => some ([v], rest)
      | _ => none

/-- A key, an equals sign and a value. -/
def readEntry (readValue : Reader Value) : Reader (List String × Value) := fun cs => do
  let (path, rest) ← readKey cs
  match rest with
  | '=' :: rest =>
    let (v, rest) ← readValue (skipBlanks rest)
    some ((path, v), rest)
  | _ => none

/-- The entries between braces up to the closing one, of which there are at most `fuel`. -/
def readEntries (readValue : Reader Value) : Nat → Items → Reader Items
  | 0, _, _ => none
  | fuel + 1, items, cs => do
    let ((path, v), rest) ← readEntry readValue cs
    let items ← items.addEntry path v .defined
    match skipBlanks rest with
    | ',' :: rest => readEntries readValue fuel items rest
    | '\x7d' :: rest => some (items, rest)
    | _ => none

/-- A table in braces, after the opening one. -/
def readTable (readValue : Reader Value) : Reader Value := fun cs =>
  match skipBlanks cs with
  | '\x7d' :: rest => some (.table [], rest)
  | cs => do
    let (items, rest) ← readEntries readValue cs.length [] cs
    some (.table (entryValues items), rest)

/-- A value in which lists and tables nest at most `depth` deep. -/
def readValueWithin : Nat → Reader Value
  | depth, cs =>
    match cs with
    | '"' :: _ | '\'' :: _ =>
      (readString cs).map fun (text, rest) => (.string (String.ofList text), rest)
    | 't' :: 'r' :: 'u' :: 'e' :: rest => some (.boolean true, rest)
    | 'f' :: 'a' :: 'l' :: 's' :: 'e' :: rest => some (.boolean false, rest)
    | '[' :: rest =>
      match depth with
      | 0 => none
      | depth + 1 =>
        (readElements (readValueWithin depth) (rest.length + 1) rest).map fun (items, rest) =>
          (.array items, rest)
    | '\x7b' :: rest =>
      match depth with
      | 0 => none
      | depth + 1 => readTable (readValueWithin depth) rest
    | c :: _ => if startsNumber c then readNumber cs else none
    | [] => none

/-- A value. -/
def readValue : Reader Value :=
  readValueWithin nestingLimit

/-! ## Documents -/

/-- A line of a document. -/
inductive Line where
  | header (path : List String)
  | element (path : List String)
  | entry (path : List String) (value : Value)

/-- The key of a header, with the given number of brackets around it. -/
def readHeader (brackets : Nat) : Reader (List String) := fun cs => do
  let (path, rest) ← readKey cs
  if (List.replicate brackets ']').isPrefixOf rest then some (path, rest.drop brackets) else none

/-- One line. -/
def readLine : Reader Line
  | '[' :: '[' :: rest => (readHeader 2 rest).map fun (path, rest) => (.element path, rest)
  | '[' :: rest => (readHeader 1 rest).map fun (path, rest) => (.header path, rest)
  | cs => (readEntry readValue cs).map fun ((path, v), rest) => (.entry path v, rest)

/-- A document as far as it is read: its entries, and the header of the table that is open. -/
structure Draft where
  items : Items := []
  header : List String := []

/-- Add a line to a document. -/
def Draft.add (d : Draft) : Line → Option Draft
  | .header path => do
    let key ← path.getLast?
    let items ← d.items.within false (fun _ => Items.openTable key) path.dropLast .defined
    return { items, header := path }
  | .element path => do
    let key ← path.getLast?
    let items ← d.items.within false (fun _ => Items.openElement key) path.dropLast .defined
    return { items, header := path }
  | .entry path v => do
    return { d with items := ← d.items.within false (Items.addEntry path v) d.header .defined }

/-- Add all lines of a text, of which there are at most `fuel`. -/
def readLines : Nat → Draft → List Char → Option Draft
  | 0, d, _ => some d
  | fuel + 1, d, cs =>
    match skipLines cs with
    | [] => some d
    | cs => do
      let (line, rest) ← readLine cs
      let d ← d.add line
      readLines fuel d (← skipLineEnd rest)

/-- The mark that may stand at the start of a text to tell its byte order. -/
def byteOrderMark : Char := '\ufeff'

/-- The entries of a document. -/
def readDocument (text : String) : Option (List (String × Value)) := do
  let cs := match text.toList with
    | c :: rest => if c = byteOrderMark then rest else c :: rest
    | [] => []
  let d ← readLines (cs.length + 1) {} cs
  return entryValues d.items

end Spreadsheet.Toml
