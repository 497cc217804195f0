import Mathlib
import Spreadsheet.Number.Read

/-!
# Natural numbers as doubles

Every natural number up to `2 ^ 53` is a double: reading its digits gives a double whose value is
that number.
-/

namespace Spreadsheet.Number

/-! ## Patterns -/

section Patterns

open Float.Model (UnpackedFloat Format)
open Float.Model.UnpackedFloat

theorem toNat_unpackMantissa (b : BitVec 64) :
    (@unpackMantissa Format.binary64 b).toNat = b.toNat % 2 ^ 52 := by
  simp only [unpackMantissa]
  rw [BitVec.toNat_cast, BitVec.extractLsb_toNat]
  rfl

theorem toNat_unpackExponent (b : BitVec 64) :
    (@unpackExponent Format.binary64 b).toNat = b.toNat / 2 ^ 52 % 2 ^ 11 := by
  simp only [unpackExponent]
  rw [BitVec.toNat_cast, BitVec.extractLsb_toNat, Nat.shiftRight_eq_div_pow]

theorem toNat_unpackSign (b : BitVec 64) :
    (@unpackSign Format.binary64 b).toNat = b.toNat / 2 ^ 63 := by
  simp only [unpackSign]
  rw [BitVec.toNat_cast, BitVec.extractLsb_toNat, Nat.shiftRight_eq_div_pow]
  have := b.isLt
  omega

theorem toNat_packComponents (sign : Float.Model.UnpackedFloat.Sign) (exponent : BitVec 11)
    (mantissa : BitVec 52) :
    (packComponents Format.binary64 sign exponent mantissa).toNat =
      (sign.toBitVec.toNat * 2 ^ 11 + exponent.toNat) * 2 ^ 52 + mantissa.toNat := by
  have he := exponent.isLt
  have hm := mantissa.isLt
  simp only [packComponents]
  rw [BitVec.toNat_append, BitVec.toNat_append, ← Nat.shiftLeft_add_eq_or_of_lt hm,
    ← Nat.shiftLeft_add_eq_or_of_lt he, Nat.shiftLeft_eq, Nat.shiftLeft_eq]

/-- The pattern of a normal double is kept. -/
theorem toBits_ofBits_of_normal {n : Nat} (low : 2 ^ 52 ≤ n) (high : n < 2047 * 2 ^ 52) :
    (Float.ofBits (UInt64.ofNat n)).toBits.toNat = n := by
  have small : n % 2 ^ 64 = n := by omega
  have pattern : (BitVec.ofNat 64 n).toNat = n := by rw [BitVec.toNat_ofNat, small]
  have hm := toNat_unpackMantissa (BitVec.ofNat 64 n)
  have he := toNat_unpackExponent (BitVec.ofNat 64 n)
  have hs := toNat_unpackSign (BitVec.ofNat 64 n)
  rw [pattern] at hm he hs
  show (pack Format.binary64 (unpack Format.binary64 (BitVec.ofNat 64 n))).toNat = n
  generalize hM : @unpackMantissa Format.binary64 (BitVec.ofNat 64 n) = M at hm
  generalize hE : @unpackExponent Format.binary64 (BitVec.ofNat 64 n) = E at he
  generalize hS : @unpackSign Format.binary64 (BitVec.ofNat 64 n) = S at hs
  have notLargest : E ≠ -1#11 := by
    rintro rfl
    rw [show (-1#11).toNat = 2047 from rfl] at he
    omega
  have notLeast : E ≠ 0#11 := by
    rintro rfl
    rw [show (0#11).toNat = 0 from rfl] at he
    omega
  obtain rfl : S = 0#1 := by
    apply BitVec.eq_of_toNat_eq
    rw [hs]
    exact Nat.div_eq_of_lt (by omega)
  simp only [unpack, hM, hE, hS, notLargest, notLeast, if_false, pack]
  have field : ((E.toNat : Int) - (Format.binary64.exponentBias + (52 : Nat)) +
      Format.binary64.exponentBias + (52 : Nat)).toNat = E.toNat := by omega
  have significand : (1#1 ++ M).toNat = 2 ^ 52 + M.toNat := by
    have bound := M.isLt
    rw [BitVec.toNat_append, ← Nat.shiftLeft_add_eq_or_of_lt bound]
    rfl
  have leading : (2 ^ 52 + M.toNat).log2 + 1 = Format.binary64.mantissaBits := by
    have bound : M.toNat < 2 ^ 52 := M.isLt
    have : (2 ^ 52 + M.toNat).log2 = 52 := (Nat.log2_eq_iff (by omega)).2 (by omega)
    rw [this]
    rfl
  rw [field, significand, if_neg (by omega), if_pos leading, toNat_packComponents,
    BitVec.toNat_ofNat, BitVec.toNat_ofNat, show (Sign.ofBitVec 0#1).toBitVec.toNat = 0 from rfl]
  omega

end Patterns

/-! ## Natural numbers -/

theorem roundEven_one (n : Nat) : roundEven n 1 = n := by
  simp [roundEven, Nat.mod_one]

section

variable {n : Nat} (pos : n ≠ 0) (high : n ≤ 2 ^ 53)

include pos

theorem two_pow_log2_mul (k : Nat) :
    2 ^ (n.log2 + k) ≤ n * 2 ^ k ∧ n * 2 ^ k < 2 ^ (n.log2 + k + 1) := by
  obtain ⟨low, up⟩ := (Nat.log2_eq_iff pos).1 rfl
  rw [Nat.add_right_comm, Nat.pow_add, Nat.pow_add]
  exact ⟨Nat.mul_le_mul_right _ low, Nat.mul_lt_mul_of_pos_right up (Nat.two_pow_pos k)⟩

include high

theorem log2_le_of_le : n.log2 ≤ 53 := by
  have low := ((Nat.log2_eq_iff pos).1 rfl).1
  exact (Nat.pow_le_pow_iff_right (by omega)).1 (low.trans high)

theorem lastBitExponent_one : lastBitExponent n 1 = (n.log2 : Int) - 52 := by
  have short := log2_le_of_le pos high
  obtain ⟨k, hk⟩ : ∃ k, n.log2 + k = 53 := ⟨53 - n.log2, by omega⟩
  have one : (1 : Nat).log2 = 0 := rfl
  have guess : -((n.log2 : Int) - (1 : Nat).log2 - ((fractionBits + 1 : Nat) : Int)) = (k : Nat) := by
    simp [fractionBits, one]
    omega
  have low := (two_pow_log2_mul pos k).1
  rw [hk] at low
  simp only [lastBitExponent, guess, scaled, Int.natCast_nonneg, if_true, Int.toNat_natCast,
    Nat.div_one, twoPow, Nat.pow_eq]
  rw [if_pos (show 2 ^ (fractionBits + 1) ≤ _ from low), one]
  simp [fractionBits, leastExponent]
  omega

/-- The pattern of a natural number consists of its exponent and a significand of 53 bits. -/
theorem nearestPattern_one :
    ∃ significand, 2 ^ 52 ≤ significand ∧ significand < 2 ^ 53 ∧
      significand * 2 ^ n.log2 = n * 2 ^ 52 ∧
      nearestPattern n 1 = (n.log2 + 1022) * 2 ^ 52 + significand := by
  have short := log2_le_of_le pos high
  have exponent : ((n.log2 : Int) - 52 - leastExponent).toNat = n.log2 + 1022 := by
    simp [leastExponent]
    omega
  obtain ⟨significand, rounded, low, up, value⟩ : ∃ significand,
      roundEven (scaled n 1 (-((n.log2 : Int) - 52))).1 (scaled n 1 (-((n.log2 : Int) - 52))).2 =
        significand ∧ 2 ^ 52 ≤ significand ∧ significand < 2 ^ 53 ∧
        significand * 2 ^ n.log2 = n * 2 ^ 52 := by
    by_cases whole : n.log2 ≤ 52
    · obtain ⟨k, hk⟩ : ∃ k, n.log2 + k = 52 := ⟨52 - n.log2, by omega⟩
      have places : -((n.log2 : Int) - 52) = (k : Nat) := by omega
      obtain ⟨low, up⟩ := two_pow_log2_mul pos k
      rw [hk] at low up
      refine ⟨n * 2 ^ k, ?_, low, up, ?_⟩
      · simp [places, scaled, roundEven_one, twoPow]
      · rw [Nat.mul_assoc, ← Nat.pow_add, Nat.add_comm k, hk]
    · have last : n.log2 = 53 := by omega
      obtain rfl : n = 2 ^ 53 := by
        have := ((Nat.log2_eq_iff pos).1 last).1
        omega
      exact ⟨2 ^ 52, by decide +kernel, by omega, by omega, by rw [last]; omega⟩
  refine ⟨significand, low, up, value, ?_⟩
  simp only [nearestPattern, if_neg pos, lastBitExponent_one pos high, exponent, rounded, twoPow,
    fractionBits, Nat.pow_eq]
  omega

end

theorem toNat?_ofNat {n : Nat} (high : n ≤ 2 ^ 53) : toNat? (ofNat n) = some n := by
  by_cases pos : n = 0
  · obtain rfl := pos
    decide +kernel
  obtain ⟨significand, low, up, value, pattern⟩ := nearestPattern_one pos high
  have short := log2_le_of_le pos high
  have bits : (ofNat n).toBits.toNat = (n.log2 + 1022) * 2 ^ 52 + significand := by
    simp only [ofNat, ofFraction, pattern, Bool.false_eq_true, if_false, Nat.zero_add]
    exact toBits_ofBits_of_normal (by omega) (by omega)
  have parts : Binary.ofFloat (ofNat n) = .finite false significand ((n.log2 : Int) - 52) := by
    have sign : ((n.log2 + 1022) * 2 ^ 52 + significand) / 2 ^ 63 = 0 :=
      Nat.div_eq_of_lt (by omega)
    have field : ((n.log2 + 1022) * 2 ^ 52 + significand) / 2 ^ 52 % 2 ^ 11 = n.log2 + 1023 := by
      omega
    have fraction : 2 ^ 52 + ((n.log2 + 1022) * 2 ^ 52 + significand) % 2 ^ 52 = significand := by
      omega
    simp only [Binary.ofFloat, bits, twoPow, Nat.pow_eq, fractionBits, sign, field, fraction]
    rw [if_neg (by omega), if_neg (by omega)]
    simp [leastExponent]
    omega
  simp only [toNat?, parts]
  rw [if_neg (by omega)]
  simp only [Bool.false_eq_true, if_false, twoPow, Nat.pow_eq]
  split
  · obtain ⟨k, hk⟩ : ∃ k, n.log2 = 52 + k := ⟨n.log2 - 52, by omega⟩
    have places : ((n.log2 : Int) - 52).toNat = k := by omega
    rw [hk, Nat.pow_add, Nat.mul_comm n, Nat.mul_left_comm] at value
    rw [places, Nat.eq_of_mul_eq_mul_left (Nat.two_pow_pos 52) value]
  · obtain ⟨k, hk⟩ : ∃ k, n.log2 + k = 52 := ⟨52 - n.log2, by omega⟩
    have places : (-((n.log2 : Int) - 52)).toNat = k := by omega
    have shifted : significand = n * 2 ^ k := by
      rw [← hk, Nat.pow_add, Nat.mul_comm (2 ^ n.log2), ← Nat.mul_assoc] at value
      exact Nat.eq_of_mul_eq_mul_right (Nat.two_pow_pos _) value
    rw [places, shifted]
    simp

/-! ## Reading digits -/

theorem ofDigits_toDigits (n : Nat) : ofDigits (Nat.toDigits 10 n) = n :=
  Nat.ofDigitChars_toDigits (b := 10) (by omega) (by omega)

theorem isDigit_of_mem_toDigits {n : Nat} {c : Char} (hc : c ∈ Nat.toDigits 10 n) :
    c.isDigit = true :=
  Nat.isDigit_of_mem_toDigits (by omega) (by omega) hc

theorem toLower_of_isDigit {c : Char} (h : c.isDigit = true) : c.toLower = c := by
  simp only [Char.isDigit, Bool.and_eq_true, decide_eq_true_eq, UInt32.le_iff_toNat_le,
    ge_iff_le] at h
  have nine : '9'.val.toNat = 57 := rfl
  have letter : 'A'.val.toNat = 65 := rfl
  refine dif_neg fun upper => ?_
  have low := UInt32.le_iff_toNat_le.1 upper.1
  omega

theorem read_digits {cs : List Char} (some_digits : cs ≠ []) (digits : ∀ c ∈ cs, c.isDigit = true) :
    read cs = some (ofDecimal false (ofDigits cs) 0) := by
  obtain ⟨c, rest, rfl⟩ := List.exists_cons_of_ne_nil some_digits
  have first := digits c (by simp)
  have sign : splitSign (c :: rest) = (false, c :: rest) := by
    unfold splitSign
    split
    · rename_i same
      cases same
      exact absurd first (by decide)
    · rename_i same
      cases same
      exact absurd first (by decide)
    · rfl
  have word : ∀ d ds, d.isDigit = false → (c :: rest).map Char.toLower ≠ d :: ds := by
    rintro d ds hd same
    obtain ⟨same, -⟩ := List.cons.inj same
    rw [← same, toLower_of_isDigit first, first] at hd
    cases hd
  have taken := List.takeWhile_eq_self_iff.2 digits
  have dropped := List.dropWhile_eq_nil_iff.2 digits
  simp only [read, sign]
  rw [if_neg (by rintro (h | h) <;> exact word _ _ (by decide) h),
    if_neg (by exact word _ _ (by decide))]
  simp [readMagnitude, taken, dropped, readExponent]

theorem read_toDigits {n : Nat} (high : n ≤ 2 ^ 53) :
    read (Nat.toDigits 10 n) = some (ofNat n) := by
  have short : (Nat.toDigits 10 n).length ≤ 16 :=
    (Nat.length_toDigits_le_iff (by omega) (by omega)).2 (by omega)
  rw [read_digits (Nat.toDigits_ne_nil) fun c => isDigit_of_mem_toDigits, ofDigits_toDigits]
  by_cases zero : n = 0
  · subst zero
    rfl
  · simp only [ofDecimal]
    rw [if_neg (by omega), if_neg (by omega), if_pos (by omega)]
    simp [ofNat, tenPow]

end Spreadsheet.Number
