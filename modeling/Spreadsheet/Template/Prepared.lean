import Spreadsheet.Template.Placeholder
import Spreadsheet.Template.Parser

/-!
# Prepared templates

Before a template can be evaluated, each placeholder is expanded into a look-up in the table of
references and the result is parsed: `[price] * [0]` becomes `refs["price"] * refs[0]`.  Brackets
that are no placeholders stay, and are parsed as indexing.
-/

namespace Spreadsheet.Template

open Spreadsheet.Text

/-- Write a text as a string literal: a quote inside is written twice. -/
def quoteText (s : String) : String :=
  String.ofList ('"' :: s.toList.flatMap (fun c => if c = '"' then ['"', '"'] else [c]) ++ ['"'])

/-- The look-up that stands for a key. -/
def lookupText : Key → String
  | .position i => reservedName ++ "[" ++ toString i ++ "]"
  | .name s => reservedName ++ "[" ++ quoteText s ++ "]"

/-- Expand the text that starts at byte `position`. -/
def expandFrom (position : Nat) (cs : List Char) : List Placeholder → List Char
  | [] => cs
  | p :: rest =>
    let (before, from_) := splitAtByte (p.start - position) cs
    let (_, after) := splitAtByte (p.stop - p.start) from_
    before ++ (lookupText p.key).toList ++ expandFrom p.stop after rest

/-- The template with every placeholder replaced by its look-up. -/
def expand (template : String) (found : List Placeholder) : String :=
  String.ofList (expandFrom 0 template.toList found)

/-- A template that is ready to be evaluated. -/
structure Prepared where
  /-- The text as the user wrote it. -/
  source : String
  /-- The text with its placeholders expanded. -/
  expanded : String
  /-- The keys, in order of first appearance. -/
  keys : List Key
  /-- Whether the template is a single placeholder and nothing else. -/
  isRef : Bool
  ast : Expr

/-- Whether a single placeholder covers all of the template but blanks around it. -/
def isSingleReference (template : String) : List Placeholder → Bool
  | [p] =>
    let cs := template.toList
    p.start == byteLength (cs.takeWhile isBlank) && p.stop - p.start == byteLength (trim cs)
  | _ => false

/-- Prepare a template.  A fault in the expanded text is reported against the template itself. -/
def prepare (template : String) : Except TemplateError Prepared := do
  let found ← placeholders template
  let text := expand template found
  match parse text with
  | .error (.malformed _ position fault) => throw (.malformed template position fault)
  | .error other => throw other
  | .ok ast =>
    return {
      source := template
      expanded := text
      keys := distinctKeys (found.map (·.key))
      isRef := isSingleReference template found
      ast }

end Spreadsheet.Template
