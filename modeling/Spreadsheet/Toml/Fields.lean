import Spreadsheet.Toml.Value

/-!
# Records in TOML

A record is written as a table that has no entries but the record's fields, or as a list with the
values of its first fields in order.
-/

namespace Spreadsheet.Toml

/-- The values of the fields that a record gives, by name.  A list must give at least `least`. -/
def fieldsOf (names : List String) (least : Nat) : Value → Option (List (String × Value))
  | .table entries => if entries.all fun e => names.contains e.1 then some entries else none
  | .array items => if least ≤ items.length then some (names.zip items) else none
  | _ => none

/-- A field that may be missing. -/
def field? {α : Type} (fields : List (String × Value)) (name : String) (read : Value → Option α) :
    Option (Option α) :=
  match fields.lookup name with
  | none => some none
  | some v => (read v).map some

/-- A field with a value for records that do not give it. -/
def fieldOr {α : Type} (fields : List (String × Value)) (name : String) (read : Value → Option α)
    (missing : α) : Option α :=
  match fields.lookup name with
  | none => some missing
  | some v => read v

namespace Value

/-- A text. -/
def text? : Value → Option String
  | string s => some s
  | _ => none

/-- A truth value. -/
def flag? : Value → Option Bool
  | boolean b => some b
  | _ => none

/-- A natural number below a bound. -/
def natural? (bound : Nat) : Value → Option Nat
  | integer n => if 0 ≤ n ∧ n.toNat < bound then some n.toNat else none
  | _ => none

/-- A list. -/
def list? {α : Type} (read : Value → Option α) : Value → Option (List α)
  | array items => items.mapM read
  | _ => none

end Value

end Spreadsheet.Toml
