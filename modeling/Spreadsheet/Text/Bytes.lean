import Spreadsheet.Number.Total

/-!
# Byte offsets in a text

Positions that a user sees are byte offsets in the UTF-8 form of a text, while the library works on
its characters.
-/

namespace Spreadsheet.Text

/-- The number of bytes of a text. -/
def byteLength (cs : List Char) : Nat :=
  Number.total (cs.map Char.utf8Size)

/-- Cut a text after its first `count` bytes; a character across the cut stays in front. -/
def splitAtByte : Nat → List Char → List Char × List Char
  | 0, cs => ([], cs)
  | _, [] => ([], [])
  | count + 1, c :: rest =>
    let (before, after) := splitAtByte (count + 1 - c.utf8Size) rest
    (c :: before, after)

@[simp] theorem byteLength_nil : byteLength [] = 0 := rfl

@[simp] theorem byteLength_cons (c : Char) (cs : List Char) :
    byteLength (c :: cs) = c.utf8Size + byteLength cs := by
  simp [byteLength]

@[simp] theorem byteLength_append (cs ds : List Char) :
    byteLength (cs ++ ds) = byteLength cs + byteLength ds := by
  simp [byteLength]

/-- Cutting loses nothing. -/
theorem splitAtByte_append (count : Nat) (cs : List Char) :
    (splitAtByte count cs).1 ++ (splitAtByte count cs).2 = cs := by
  induction cs generalizing count with
  | nil => cases count <;> rfl
  | cons c rest ih =>
    cases count with
    | zero => rfl
    | succ count => simp [splitAtByte, ih]

/-- A cut at a character boundary falls there. -/
theorem splitAtByte_byteLength (cs ds : List Char) :
    splitAtByte (byteLength cs) (cs ++ ds) = (cs, ds) := by
  induction cs with
  | nil => cases ds <;> rfl
  | cons c rest ih =>
    have pos := c.utf8Size_pos
    obtain ⟨k, hk⟩ : ∃ k, byteLength (c :: rest) = k + 1 :=
      ⟨byteLength (c :: rest) - 1, by simp; omega⟩
    have : k + 1 - c.utf8Size = byteLength rest := by simp at hk; omega
    rw [hk, List.cons_append, splitAtByte, this, ih]

end Spreadsheet.Text
