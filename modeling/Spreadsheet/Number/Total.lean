/-!
# Sums

The sum of a list of natural numbers, by which lengths and sizes are added up.
-/

namespace Spreadsheet.Number

/-- The sum of the numbers of a list. -/
def total : List Nat → Nat
  | [] => 0
  | n :: rest => n + total rest

@[simp] theorem total_nil : total [] = 0 := rfl

@[simp] theorem total_cons (n : Nat) (rest : List Nat) : total (n :: rest) = n + total rest := rfl

@[simp] theorem total_append (ms ns : List Nat) : total (ms ++ ns) = total ms + total ns := by
  induction ms with
  | nil => simp
  | cons m rest ih => simp [ih, Nat.add_assoc]

end Spreadsheet.Number
