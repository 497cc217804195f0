import Spreadsheet.Text.Blank
import Spreadsheet.Formula.Quotes

/-!
# Cleaning up formula text

A formula is put together from parts, each in parentheses where it might need them.  Two passes tidy
the result: one removes a pair of parentheses around the whole formula, the other a separator left
over before a closing parenthesis.  Neither touches quoted text.
-/

namespace Spreadsheet.Formula

open Spreadsheet.Text

/-- Whether the parentheses come level before the last character, inside the given quote and at the
given depth. -/
def closesEarly (quote : Option Char) (depth : Nat) : List Char → Bool
  | [] => false
  | c :: rest =>
    match quote with
    | some q => closesEarly (if c = q then none else quote) depth rest
    | none =>
      if isQuoteMark c then closesEarly (some c) depth rest
      else if c = '(' then closesEarly none (depth + 1) rest
      else if c = ')' then
        (depth - 1 == 0 && !rest.isEmpty) || closesEarly none (depth - 1) rest
      else closesEarly none depth rest

/-- The trimmed text without a pair of parentheses that encloses all of it. -/
def stripOuterParens (cs : List Char) : List Char :=
  let text := trim cs
  if text.head? = some '(' ∧ text.getLast? = some ')' ∧ closesEarly none 0 text = false then
    trim (text.drop 1).dropLast
  else text

/-- Whether the next character that is not blank closes a parenthesis. -/
def closesNext (cs : List Char) : Bool :=
  (cs.dropWhile isBlank).head? == some ')'

/-- Text outside quotes without dangling separators; `skipping` is set behind one. -/
def collapseOutside : Bool → List Char → List Char
  | _, [] => []
  | skipping, c :: rest =>
    if skipping && isBlank c then collapseOutside true rest
    else if c == ',' && closesNext rest then collapseOutside true rest
    else c :: collapseOutside false rest

/-- Remove every comma, with the blanks after it, that stands before a closing parenthesis. -/
def collapseSeparators (cs : List Char) : List Char :=
  mapOutside (collapseOutside false) cs

end Spreadsheet.Formula
