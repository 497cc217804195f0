import Spreadsheet.Text.WordChar
import Spreadsheet.Template.Token
import Spreadsheet.Formula.Quotes

/-!
# Marking newer functions

A call whose name is in upper case and not a known function gets the marker `_xlfn.` before its
name.  A name starts at a word boundary and extends to the parenthesis directly after it.
-/

namespace Spreadsheet.Formula

open Spreadsheet.Text Spreadsheet.Template

/-- The marker of a newer function. -/
def futureMarker : String := "_xlfn."

/-- The name of the call at the start of a text: the longest name, if a parenthesis follows it. -/
def callName : List Char → Option (List Char)
  | [] => none
  | c :: rest =>
    if isNameStart c && (rest.dropWhile isNameRest).head? == some '(' then
      some (c :: rest.takeWhile isNameRest)
    else none

/-- Whether a call of this name needs the marker. -/
def needsMarker (known : String → Bool) (name : List Char) : Bool :=
  !(name.any Char.isLower || futureMarker.toList.isPrefixOf name || known (String.ofList name))

/-- Text outside quotes with newer functions marked.  `before` is the character before the text,
and `inName` holds from the start of a call's name to its parenthesis. -/
def markOutside (known : String → Bool) (before : Option Char) (inName : Bool) :
    List Char → List Char
  | [] => []
  | c :: rest =>
    match if inName || before.any isWordChar then none else callName (c :: rest) with
    | some name =>
      (if needsMarker known name then futureMarker.toList else []) ++
        c :: markOutside known (some c) true rest
    | none => c :: markOutside known (some c) (inName && c != '(') rest

/-- Mark the newer functions of a formula text. -/
def markFutureFunctions (known : String → Bool) (cs : List Char) : List Char :=
  mapOutside (markOutside known none false) cs

end Spreadsheet.Formula
