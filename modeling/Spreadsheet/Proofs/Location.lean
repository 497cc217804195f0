import Spreadsheet.Proofs.Formula.Spelling
import Spreadsheet.Proofs.Number.Exact

/-!
# Names of cells

The letters of a name are a number in base 26 whose digits count from one, and so every positive number
has one spelling.  Both numbers of a name are read with a bound on all that is computed on the way, and
a number is given up on the way exactly if it does not stay below the bound itself.
-/

namespace Spreadsheet

open Formula Template

/-- The place of a letter in the alphabet, counted from one, in whichever case it is. -/
def letterPlace (c : Char) : Nat :=
  c.toUpper.toNat - 'A'.toNat + 1

/-- The number that letters are in base 26, the last one counting its place. -/
def lettersValue (letters : List Char) : Nat :=
  Nat.ofDigits 26 (letters.reverse.map letterPlace)

/-- The number that decimal digits are. -/
def digitsValue (digits : List Char) : Nat :=
  Nat.ofDigits 10 (digits.reverse.map fun d => d.toNat - '0'.toNat)

/-- Whether a text is spelled with letters and then digits. -/
structure IsSpelled (letters digits : List Char) (text : String) : Prop where
  text : text.toList = letters ++ digits
  letters : ∀ c ∈ letters, c.isAlpha = true
  digits : ∀ c ∈ digits, c.isDigit = true

/-! ## Values -/

/-- A number is put together from its digits from the left or from the right. -/
theorem foldl_eq_ofDigits (b : Nat) (place : Char → Nat) (cs : List Char) :
    cs.foldl (fun n c => b * n + place c) 0 = Nat.ofDigits b (cs.reverse.map place) := by
  rw [Nat.ofDigits_eq_foldr, List.foldr_map, List.foldr_reverse]
  simp only [Nat.cast_id, Nat.add_comm]

theorem columnNumber_eq (letters : List Char) : columnNumber letters = lettersValue letters :=
  foldl_eq_ofDigits 26 letterPlace letters

theorem ofDigits_eq (digits : List Char) : Number.ofDigits digits = digitsValue digits :=
  foldl_eq_ofDigits 10 _ digits

theorem columnNumber_concat (letters : List Char) (c : Char) :
    columnNumber (letters ++ [c]) = 26 * columnNumber letters + letterPlace c := by
  simp [columnNumber, letterPlace]

theorem letterPlace_of_isAlpha {c : Char} (h : c.isAlpha = true) :
    letterPlace c ≤ 26 ∧ Char.ofNat ('A'.toNat + (letterPlace c - 1)) = c.toUpper := by
  obtain ⟨k, rfl⟩ := ofNat_toNat_of_isNameRest (c := c) (by simp [isNameRest, Char.isAlphanum, h])
  have all : ∀ k : Fin 128, (Char.ofNat k).isAlpha = true → letterPlace (Char.ofNat k) ≤ 26 ∧
      Char.ofNat ('A'.toNat + (letterPlace (Char.ofNat k) - 1)) = (Char.ofNat k).toUpper := by
    decide
  exact all k h

/-- The digits of a number end with the remainder, which counts from one. -/
theorem columnDigits_mul_add (n : Nat) {place : Nat} (low : 1 ≤ place) (high : place ≤ 26) :
    columnDigits (26 * n + place) =
      columnDigits n ++ [Char.ofNat ('A'.toNat + (place - 1))] := by
  have front : (26 * n + place - 1) / 26 = n := by omega
  have last : (26 * n + place - 1) % 26 = place - 1 := by omega
  rw [columnDigits, if_neg (by omega), front, last]

/-- Letters are the digits of the number that they denote, in upper case. -/
theorem columnDigits_columnNumber {letters : List Char} (h : ∀ c ∈ letters, c.isAlpha = true) :
    columnDigits (columnNumber letters) = letters.map Char.toUpper := by
  induction letters using List.reverseRecOn with
  | nil => simp [columnNumber, columnDigits]
  | append_singleton letters c ih =>
      have low : 1 ≤ letterPlace c := Nat.le_add_left 1 _
      obtain ⟨high, upper⟩ := letterPlace_of_isAlpha (h c (by simp))
      rw [columnNumber_concat, columnDigits_mul_add _ low high, upper,
        ih fun d hd => h d (List.mem_append_left _ hd), List.map_append, List.map_singleton]

/-! ## Bounds -/

/-- One step of the reading fits exactly if its result does, since nothing on the way is larger. -/
theorem bounded?_step (n place : Nat) :
    ((bounded? (26 * n)).bind fun m => bounded? (m + place)) = bounded? (26 * n + place) := by
  by_cases product : 26 * n < coordinateBound
  · simp [bounded?, product]
  · have sum : ¬26 * n + place < coordinateBound := by omega
    simp [bounded?, product, sum]

/-- To check every number on the way is to check the last one. -/
theorem columnNumber?_eq (letters : List Char) :
    columnNumber? letters = bounded? (columnNumber letters) := by
  suffices run : ∀ n, ((bounded? n).bind fun n => letters.foldlM (fun n c => do
      bounded? ((← bounded? (26 * n)) + letterPlace c)) n) =
        bounded? (letters.foldl (fun n c => 26 * n + letterPlace c) n) from run 0
  induction letters with
  | nil => exact fun n => Option.bind_fun_some _
  | cons c letters ih =>
      intro n
      rw [List.foldl_cons, ← ih]
      by_cases fits : n < coordinateBound
      · rw [bounded?, if_pos fits, Option.bind_some, List.foldlM_cons]
        exact congrArg (Option.bind · _) (bounded?_step n (letterPlace c))
      · -- What was too large stays too large.
        have large : ¬26 * n + letterPlace c < coordinateBound := by omega
        rw [bounded?, if_neg fits, bounded?, if_neg large]
        rfl

/-! ## Names -/

namespace Location

variable {sheet name : String} {letters digits : List Char}

theorem span_letters (h : IsSpelled letters digits name) :
    name.toList.takeWhile Char.isAlpha = letters ∧ name.toList.dropWhile Char.isAlpha = digits := by
  have behind : digits.takeWhile Char.isAlpha = [] ∧ digits.dropWhile Char.isAlpha = digits := by
    cases digits with
    | nil => exact ⟨rfl, rfl⟩
    | cons d rest => simp [not_isAlpha_of_isDigit (h.digits d (by simp))]
  rw [h.text, List.takeWhile_append_of_pos h.letters, List.dropWhile_append_of_pos h.letters,
    behind.1, behind.2, List.append_nil]
  exact ⟨rfl, rfl⟩

theorem readNat_digits (filled : digits ≠ []) (h : ∀ c ∈ digits, c.isDigit = true) (bound : Nat) :
    Number.readNat bound digits =
      if digitsValue digits < bound then some (digitsValue digits) else none := by
  have all : digits.all Char.isDigit = true := List.all_eq_true.2 h
  unfold Number.readNat
  split
  case h_1 rest => exact absurd (h '+' (by simp)) (by decide)
  case h_2 => simp [filled, all, ofDigits_eq]

/-- What is spelled with letters and digits names a location if both numbers are positive and stay below
the bound. -/
theorem ofA1?_of_isSpelled (h : IsSpelled letters digits name) :
    ofA1? sheet name =
      if (0 < lettersValue letters ∧ lettersValue letters < coordinateBound) ∧
          0 < digitsValue digits ∧ digitsValue digits < coordinateBound then
        some ⟨sheet, digitsValue digits - 1, lettersValue letters - 1⟩
      else none := by
  obtain ⟨front, back⟩ := span_letters h
  have all : digits.all Char.isDigit = true := List.all_eq_true.2 h.digits
  by_cases filled : letters ≠ [] ∧ digits ≠ []
  · simp only [ofA1?, front, back, all, List.isEmpty_eq_false_iff.2 filled.1,
      List.isEmpty_eq_false_iff.2 filled.2, columnNumber?_eq, columnNumber_eq, bounded?,
      readNat_digits filled.2 h.digits]
    by_cases cols : lettersValue letters < coordinateBound
    · by_cases rows : digitsValue digits < coordinateBound
      · simp [cols, rows]
      · simp [cols, rows]
    · simp [cols]
  · -- Without letters or without digits there is a number that is zero.
    rcases not_and_or.1 filled with none | none
    · obtain rfl : letters = [] := not_not.1 none
      simp [ofA1?, front, lettersValue]
    · obtain rfl : digits = [] := not_not.1 none
      simp [ofA1?, back, digitsValue]

theorem exists_isSpelled {l : Location} (h : ofA1? sheet name = some l) :
    ∃ letters digits, IsSpelled letters digits name := by
  by_cases all : (name.toList.dropWhile Char.isAlpha).all Char.isDigit = true
  · exact ⟨_, _, List.takeWhile_append_dropWhile.symm, fun _ => List.mem_takeWhile_imp,
      List.all_eq_true.1 all⟩
  · simp [ofA1?, all] at h

theorem columnLetters_pred {letters : List Char} (h : ∀ c ∈ letters, c.isAlpha = true)
    (positive : 0 < lettersValue letters) :
    columnLetters (lettersValue letters - 1) = String.ofList (letters.map Char.toUpper) := by
  rw [columnLetters, Nat.sub_add_cancel positive, ← columnNumber_eq, columnDigits_columnNumber h]

theorem isSpelled_a1 (l : Location) :
    IsSpelled (columnDigits (l.col + 1)) (Nat.toDigits 10 (l.row + 1)) l.a1 where
  text := a1_toList l
  letters := isNameRest_columnDigits _
  digits _ := Number.isDigit_of_mem_toDigits

/-- The name of a location is read as that location. -/
theorem ofA1?_a1 (sheet : String) {l : Location} (rows : l.row + 1 < coordinateBound)
    (cols : l.col + 1 < coordinateBound) : ofA1? sheet l.a1 = some ⟨sheet, l.row, l.col⟩ := by
  have col : lettersValue (columnDigits (l.col + 1)) = l.col + 1 := by
    rw [← columnNumber_eq, columnNumber_columnDigits]
  have row : digitsValue (Nat.toDigits 10 (l.row + 1)) = l.row + 1 := by
    rw [← ofDigits_eq, Number.ofDigits_toDigits]
  rw [ofA1?_of_isSpelled (isSpelled_a1 l), col, row]
  simp [rows, cols]

/-- Locations whose numbers fit into 64 bits when they are counted from one are read back from their
names.  A text is read exactly if it is letters and then digits, both of them numbers from one to the
largest of 64 bits, however long it is; the location then has the letters in upper case for its column,
and its row is the number less one. -/
theorem ofA1?_inverts_a1 (sheet : String) :
    (∀ row col, row < 2 ^ 64 - 1 → col < 2 ^ 64 - 1 →
      ofA1? sheet (a1 ⟨sheet, row, col⟩) = some ⟨sheet, row, col⟩) ∧
    (∀ name, (ofA1? sheet name).isSome ↔ ∃ letters digits, IsSpelled letters digits name ∧
      (1 ≤ lettersValue letters ∧ lettersValue letters ≤ 2 ^ 64 - 1) ∧
      (1 ≤ digitsValue digits ∧ digitsValue digits ≤ 2 ^ 64 - 1)) ∧
    ∀ letters digits name l, IsSpelled letters digits name → ofA1? sheet name = some l →
      l.sheet = sheet ∧ columnLetters l.col = String.ofList (letters.map Char.toUpper) ∧
      l.row = digitsValue digits - 1 := by
  have bound : coordinateBound = 2 ^ 64 := rfl
  refine ⟨fun row col hrow hcol => ofA1?_a1 sheet ?_ ?_, fun name => ⟨fun read => ?_, ?_⟩,
    fun letters digits name l spelled read => ?_⟩
  · show row + 1 < coordinateBound
    omega
  · show col + 1 < coordinateBound
    omega
  · obtain ⟨l, read⟩ := Option.isSome_iff_exists.1 read
    obtain ⟨letters, digits, spelled⟩ := exists_isSpelled read
    rw [ofA1?_of_isSpelled spelled, Option.ite_none_right_eq_some] at read
    obtain ⟨⟨⟨positive, below⟩, positive', below'⟩, -⟩ := read
    exact ⟨letters, digits, spelled, ⟨positive, by omega⟩, positive', by omega⟩
  · rintro ⟨letters, digits, spelled, ⟨positive, below⟩, positive', below'⟩
    rw [ofA1?_of_isSpelled spelled, if_pos ⟨⟨positive, by omega⟩, positive', by omega⟩]
    rfl
  · rw [ofA1?_of_isSpelled spelled, Option.ite_none_right_eq_some] at read
    obtain ⟨⟨⟨positive, -⟩, -⟩, same⟩ := read
    obtain rfl := Option.some.inj same
    exact ⟨rfl, columnLetters_pred spelled.letters positive, rfl⟩

theorem ofA1?_lastRow : (2 ^ 64 - 2 < 2 ^ 64 - 1 ∧ 701 < 2 ^ 64 - 1) ∧
    ofA1? "S" (a1 ⟨"S", 2 ^ 64 - 2, 701⟩) = some ⟨"S", 2 ^ 64 - 2, 701⟩ :=
  ⟨by decide, (ofA1?_inverts_a1 "S").1 _ _ (by decide) (by decide)⟩

example : ofA1? "S" "zZ18446744073709551615" = some ⟨"S", 2 ^ 64 - 2, 701⟩ ∧
    ofA1? "S" "ZZ18446744073709551616" = none := by
  decide +kernel

end Location

end Spreadsheet
