import Spreadsheet.Text.Quoted
import Spreadsheet.Number.Text

/-!
# What can be wrong with a template
-/

namespace Spreadsheet.Template

/-- The two kinds of brackets that must pair up in a template. -/
inductive Bracket where
  | square
  | round
deriving DecidableEq

/-- The bracket as an opening and a closing character. -/
def Bracket.text : Bracket → String
  | .square => "[]"
  | .round => "()"

/-- Why a text is no expression. -/
inductive Fault where
  | invalidNumber (literal : String)
  | unexpectedCharacter (c : Char)
  | trailingInput
  | bracketExpected
  | indexExpected
  | malformedReference
  | parenExpected
  | argumentsUnclosed
  | unknownName (name : String)
  | valueExpected
  | unexpectedEnd
deriving DecidableEq

open Spreadsheet.Text in
/-- The fault in words. -/
def Fault.message : Fault → String
  | .invalidNumber literal => "invalid number " ++ quoted literal
  | .unexpectedCharacter c => "unexpected character " ++ quotedChar c
  | .trailingInput => "unexpected trailing input"
  | .bracketExpected => "expected ']'"
  | .indexExpected => "expected a position or a quoted name in [...]"
  | .malformedReference => "malformed reference lookup"
  | .parenExpected => "expected ')'"
  | .argumentsUnclosed => "expected ')' to close the argument list"
  | .unknownName name => "unknown name " ++ quoted name
  | .valueExpected => "expected a value"
  | .unexpectedEnd => "unexpected end of expression"

/-- Why a template is refused.  The position of a fault is a byte offset. -/
inductive TemplateError where
  | unbalanced (template : String) (bracket : Bracket)
  | emptyPlaceholder (template : String)
  | reservedName (template : String)
  | unterminatedString (template : String)
  | malformed (template : String) (position : Nat) (fault : Fault)
deriving DecidableEq

/-- The name of the kind of error. -/
def TemplateError.name : TemplateError → String
  | .unbalanced .. => "Unbalanced"
  | .emptyPlaceholder .. => "EmptyPlaceholder"
  | .reservedName .. => "ReservedName"
  | .unterminatedString .. => "UnterminatedString"
  | .malformed .. => "Syntax"

/-- The name that stands for the table of references in an expanded template. -/
def reservedName : String := "refs"

open Spreadsheet.Text Spreadsheet.Number in
/-- The error in words. -/
def TemplateError.message : TemplateError → String
  | .unbalanced template bracket =>
    "Unbalanced '" ++ bracket.text ++ "' in template " ++ quoted template
  | .emptyPlaceholder template => "Empty placeholder '[]' in template " ++ quoted template
  | .reservedName template =>
    "Template " ++ quoted template ++ " uses the reserved name '" ++ Template.reservedName ++ "['"
  | .unterminatedString template => "Unterminated string literal in template " ++ quoted template
  | .malformed template position fault =>
    "Syntax error in template " ++ quoted template ++ " at offset " ++ natText position ++ ": "
      ++ fault.message

end Spreadsheet.Template
