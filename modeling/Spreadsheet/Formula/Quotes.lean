/-!
# Quoted parts of a formula

A formula text holds string literals in double quotes and sheet names in single quotes.  Passes over
the text change only what lies outside them.  A doubled quote ends one quoted part and at once
begins another, so it needs no case of its own; a quote that is never closed extends to the end.
-/

namespace Spreadsheet.Formula

/-- A stretch of a formula text, either a whole quoted part with its quotes or text outside. -/
structure Stretch where
  quoted : Bool
  chars : List Char
deriving DecidableEq

/-- Whether a character opens a quoted part. -/
def isQuoteMark (c : Char) : Bool :=
  c == '"' || c == '\''

/-- The stretches of a text of which `held` (backwards) is already read, inside the given quote. -/
def stretchesFrom (quote : Option Char) (held : List Char) : List Char → List Stretch
  | [] => [⟨quote.isSome, held.reverse⟩]
  | c :: rest =>
    match quote with
    | some q =>
      if c = q then ⟨true, (c :: held).reverse⟩ :: stretchesFrom none [] rest
      else stretchesFrom quote (c :: held) rest
    | none =>
      if isQuoteMark c then ⟨false, held.reverse⟩ :: stretchesFrom (some c) [c] rest
      else stretchesFrom none (c :: held) rest

/-- The stretches of a formula text. -/
def stretches (cs : List Char) : List Stretch :=
  stretchesFrom none [] cs

/-- Apply a function to the text outside quotes, stretch by stretch. -/
def mapOutside (f : List Char → List Char) (cs : List Char) : List Char :=
  (stretches cs).flatMap fun s => if s.quoted then s.chars else f s.chars

/-- Cutting into stretches loses nothing. -/
theorem flatMap_stretchesFrom (quote : Option Char) (held cs : List Char) :
    (stretchesFrom quote held cs).flatMap (·.chars) = held.reverse ++ cs := by
  induction cs generalizing quote held with
  | nil => simp [stretchesFrom]
  | cons c rest ih =>
    cases quote with
    | some q =>
      by_cases h : c = q
      · subst h
        simp [stretchesFrom, ih]
      · simp [stretchesFrom, h, ih]
    | none => by_cases h : isQuoteMark c <;> simp [stretchesFrom, h, ih]

theorem flatMap_stretches (cs : List Char) : (stretches cs).flatMap (·.chars) = cs := by
  simp [stretches, flatMap_stretchesFrom]

/-- A pass that changes nothing outside quotes changes nothing. -/
@[simp] theorem mapOutside_id (cs : List Char) : mapOutside id cs = cs := by
  simp [mapOutside, flatMap_stretches]

end Spreadsheet.Formula
