/-!
# Sets of characters given by code point ranges

Properties of characters that the Unicode standard lists by table are kept as arrays of closed
ranges.  Membership is a plain scan; the callers decide ASCII characters themselves first.
-/

namespace Spreadsheet.Text

/-- A closed range of code points. -/
structure CodeRange where
  first : Nat
  last : Nat

namespace CodeRange

/-- The range as a set. -/
def contains (r : CodeRange) (c : Char) : Bool :=
  r.first ≤ c.toNat && c.toNat ≤ r.last

/-- Ranges from a flat list of their end points, each first point before its last one. -/
def pairs : List Nat → List CodeRange
  | first :: last :: rest => ⟨first, last⟩ :: pairs rest
  | _ => []

theorem contains_iff {r : CodeRange} {c : Char} :
    r.contains c = true ↔ r.first ≤ c.toNat ∧ c.toNat ≤ r.last := by
  simp [contains]

end CodeRange

end Spreadsheet.Text
