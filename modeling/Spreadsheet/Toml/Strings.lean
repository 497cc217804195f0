import Spreadsheet.Number.Read
import Spreadsheet.Toml.Value

/-!
# Reading TOML strings and keys

Each reader takes the text after an opening quote and answers what the string holds with the text
after its closing quote.  A line break in a block counts as a line feed, however it is written.
-/

namespace Spreadsheet.Toml

/-- Reads something off the start of a text and answers it with the text after it. -/
abbrev Reader (α : Type) := List Char → Option (α × List Char)

/-- Put characters in front of those that are read. -/
def prepend (cs : List Char) : Option (List Char × List Char) → Option (List Char × List Char) :=
  Option.map fun (text, rest) => (cs ++ text, rest)

/-- The character with a code point in hexadecimal digits; surrogates are no characters. -/
def codePoint (digits : List Char) : Option Char := do
  let n := (← digits.mapM Number.hexDigit?).foldl (fun n d => 16 * n + d) 0
  if n.isValidChar then some (Char.ofNat n) else none

/-- The character that stands behind a backslash for another one. -/
def escapeOf? (c : Char) : Option Char :=
  [('b', '\x08'), ('t', '\t'), ('n', '\n'), ('f', '\x0c'), ('r', '\r'), ('"', '"'),
    ('\\', '\\')].lookup c

/-- A string in double quotes on one line. -/
def readBasic : Reader (List Char)
  | [] => none
  | '"' :: rest => some ([], rest)
  | '\\' :: 'u' :: a :: b :: c :: d :: rest => do
    let x ← codePoint [a, b, c, d]
    prepend [x] (readBasic rest)
  | '\\' :: 'U' :: a :: b :: c :: d :: e :: f :: g :: h :: rest => do
    let x ← codePoint [a, b, c, d, e, f, g, h]
    prepend [x] (readBasic rest)
  | '\\' :: c :: rest => do
    let x ← escapeOf? c
    prepend [x] (readBasic rest)
  | c :: rest => if isTextChar c then prepend [c] (readBasic rest) else none

/-- A string in single quotes on one line. -/
def readLiteral : Reader (List Char)
  | [] => none
  | c :: rest =>
    if c = '\'' then some ([], rest)
    else if isTextChar c then prepend [c] (readLiteral rest)
    else none

/-- Whether only blanks stand before the end of the line. -/
def endsLine (cs : List Char) : Bool :=
  match cs.dropWhile fun c => c == ' ' || c == '\t' with
  | '\n' :: _ | '\r' :: '\n' :: _ => true
  | _ => false

/-- A block in double quotes.  `trimming` holds behind a backslash at the end of a line, up to the
next character that is not blank.  Up to two quotes can stand before the closing ones. -/
def readBlock : Bool → List Char → Option (List Char × List Char)
  | _, [] => none
  | _, '"' :: '"' :: '"' :: '"' :: '"' :: rest => some (['"', '"'], rest)
  | _, '"' :: '"' :: '"' :: '"' :: rest => some (['"'], rest)
  | _, '"' :: '"' :: '"' :: rest => some ([], rest)
  | trimming, '\r' :: '\n' :: rest =>
    prepend (if trimming then [] else ['\n']) (readBlock trimming rest)
  | _, '\\' :: 'u' :: a :: b :: c :: d :: rest => do
    let x ← codePoint [a, b, c, d]
    prepend [x] (readBlock false rest)
  | _, '\\' :: 'U' :: a :: b :: c :: d :: e :: f :: g :: h :: rest => do
    let x ← codePoint [a, b, c, d, e, f, g, h]
    prepend [x] (readBlock false rest)
  | _, '\\' :: c :: rest =>
    if endsLine (c :: rest) then
      -- The first of these characters is a blank or a line break, which trimming skips as well.
      if c = '\r' then readBlock true (c :: rest) else readBlock true rest
    else do
      let x ← escapeOf? c
      prepend [x] (readBlock false rest)
  | trimming, c :: rest =>
    if trimming && (c == ' ' || c == '\t' || c == '\n') then readBlock true rest
    else if c == '\n' || isTextChar c then prepend [c] (readBlock false rest)
    else none

/-- A block in single quotes. -/
def readLiteralBlock : Reader (List Char)
  | [] => none
  | '\'' :: '\'' :: '\'' :: '\'' :: '\'' :: rest => some (['\'', '\''], rest)
  | '\'' :: '\'' :: '\'' :: '\'' :: rest => some (['\''], rest)
  | '\'' :: '\'' :: '\'' :: rest => some ([], rest)
  | '\r' :: '\n' :: rest => prepend ['\n'] (readLiteralBlock rest)
  | c :: rest =>
    if c == '\n' || isTextChar c then prepend [c] (readLiteralBlock rest) else none

/-- The text without a line break at its start. -/
def dropLineBreak : List Char → List Char
  | '\n' :: rest | '\r' :: '\n' :: rest => rest
  | cs => cs

/-- A string of any kind. -/
def readString : Reader (List Char)
  | '"' :: '"' :: '"' :: rest => readBlock false (dropLineBreak rest)
  | '\'' :: '\'' :: '\'' :: rest => readLiteralBlock (dropLineBreak rest)
  | '"' :: rest => readBasic rest
  | '\'' :: rest => readLiteral rest
  | _ => none

/-- The text without the blanks at its start. -/
def skipBlanks (cs : List Char) : List Char :=
  cs.dropWhile fun c => c == ' ' || c == '\t'

/-- One part of a key. -/
def readKeyPart (cs : List Char) : Option (String × List Char) :=
  match cs with
  | '"' :: rest => (readBasic rest).map fun (key, rest) => (String.ofList key, rest)
  | '\'' :: rest => (readLiteral rest).map fun (key, rest) => (String.ofList key, rest)
  | _ =>
    let key := cs.takeWhile isBareKeyChar
    if key.isEmpty then none else some (String.ofList key, cs.dropWhile isBareKeyChar)

/-- How deep values nest, and of how many parts a key is, at most. -/
def nestingLimit : Nat := 79

/-- A key of at most `limit` parts with points between them, blanks allowed around each. -/
def readKeyWithin : Nat → List Char → Option (List String × List Char)
  | 0, _ => none
  | limit + 1, cs => do
    let (part, rest) ← readKeyPart (skipBlanks cs)
    match skipBlanks rest with
    | '.' :: rest =>
      let (parts, rest) ← readKeyWithin limit rest
      some (part :: parts, rest)
    | rest => some ([part], rest)

/-- A key. -/
def readKey (cs : List Char) : Option (List String × List Char) :=
  readKeyWithin nestingLimit cs

end Spreadsheet.Toml
