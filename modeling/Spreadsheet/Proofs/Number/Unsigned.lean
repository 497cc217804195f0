import Spreadsheet.Number.Text
import Spreadsheet.Proofs.Number.Exact

/-!
# Numbers without a sign

A number that is read without a minus sign in front has none, and a finite one of these is written
with digits and at most a point.
-/

namespace Spreadsheet.Number

/-- Whether the sign bit of a double is clear. -/
def Unsigned (x : Float) : Prop :=
  x.toBits.toNat < 2 ^ 63

/-- Whether a double is a number, neither infinite nor undefined. -/
def IsFinite (x : Float) : Prop :=
  ∃ negative significand exponent, Binary.ofFloat x = .finite negative significand exponent

instance (x : Float) : Decidable (IsFinite x) :=
  match h : Binary.ofFloat x with
  | .finite negative significand exponent => .isTrue ⟨negative, significand, exponent, h⟩
  | .nan | .infinite _ => .isFalse fun ⟨_, _, _, finite⟩ => by simp [h] at finite

/-! ## The sign bit -/

section SignBit

open Float.Model (UnpackedFloat Format)
open Float.Model.UnpackedFloat

/-- The sign of unpacked doubles that have one. -/
private def HasPlus : UnpackedFloat → Prop
  | .infinity s | .zero s | .finite s _ _ _ => s = .positive
  | .notANumber => True

private theorem packComponents_positive_lt (exponent : BitVec 11) (mantissa : BitVec 52) :
    (packComponents Format.binary64 .positive exponent mantissa).toNat < 2 ^ 63 := by
  have he := exponent.isLt
  have hm := mantissa.isLt
  rw [toNat_packComponents, show Sign.positive.toBitVec.toNat = 0 from rfl]
  omega

private theorem pack_lt_of_hasPlus {f : UnpackedFloat} (h : HasPlus f) :
    (pack Format.binary64 f).toNat < 2 ^ 63 := by
  cases f with
  | notANumber => exact packComponents_positive_lt _ _
  | infinity s =>
      obtain rfl : s = .positive := h
      exact packComponents_positive_lt _ _
  | zero s =>
      obtain rfl : s = .positive := h
      exact packComponents_positive_lt _ _
  | finite s m e pos =>
      obtain rfl : s = .positive := h
      simp only [pack]
      split
      · exact packComponents_positive_lt _ _
      · split
        · exact packComponents_positive_lt _ _
        · exact packComponents_positive_lt _ _

private theorem unpackSign_eq_zero {b : BitVec 64} (h : b.toNat < 2 ^ 63) :
    @unpackSign Format.binary64 b = 0#1 := by
  apply BitVec.eq_of_toNat_eq
  rw [toNat_unpackSign]
  exact Nat.div_eq_of_lt h

private theorem hasPlus_unpack {b : BitVec 64} (h : b.toNat < 2 ^ 63) :
    HasPlus (unpack Format.binary64 b) := by
  have hs := unpackSign_eq_zero h
  have positive : Sign.ofBitVec (0#1) = .positive := rfl
  simp only [unpack, hs, positive]
  split
  · split <;> simp [HasPlus]
  · split
    · split <;> simp [HasPlus]
    · simp [HasPlus]

theorem unsigned_ofBits {n : Nat} (h : n < 2 ^ 63) : Unsigned (Float.ofBits (UInt64.ofNat n)) := by
  have hn : (UInt64.ofNat n).toBitVec.toNat < 2 ^ 63 := by
    simp
    omega
  exact pack_lt_of_hasPlus (hasPlus_unpack hn)

end SignBit

/-! ## Reading -/

theorem nearestPattern_lt (num den : Nat) : nearestPattern num den < 2 ^ 63 := by
  have infinite : 2047 * twoPow fractionBits < 2 ^ 63 := by decide
  unfold nearestPattern
  split
  · omega
  · exact Nat.lt_of_le_of_lt (Nat.min_le_right _ _) infinite

theorem unsigned_ofFraction (num den : Nat) : Unsigned (ofFraction false num den) := by
  apply unsigned_ofBits
  simpa using nearestPattern_lt num den

theorem unsigned_infinity : Unsigned (infinity false) := by
  apply unsigned_ofBits
  decide

theorem unsigned_nan : Unsigned nan := by
  apply unsigned_ofBits
  decide

theorem unsigned_ofDecimal (digits : Nat) (exponent : Int) :
    Unsigned (ofDecimal false digits exponent) := by
  simp only [ofDecimal]
  split
  · exact unsigned_ofFraction _ _
  · split
    · exact unsigned_infinity
    · split
      · exact unsigned_ofFraction _ _
      · exact unsigned_ofFraction _ _

private theorem unsigned_of_unless {skip : Prop} [Decidable skip] {found : Option Int}
    {f : Int → Float} (hf : ∀ e, Unsigned (f e)) {x : Float}
    (h : (if skip then none else found.map f) = some x) : Unsigned x := by
  split at h
  · cases h
  · obtain ⟨e, -, rfl⟩ := Option.map_eq_some_iff.1 h
    exact hf e

theorem unsigned_readMagnitude {cs : List Char} {x : Float}
    (h : readMagnitude false cs = some x) : Unsigned x := by
  simp only [readMagnitude] at h
  split at h
  · exact unsigned_of_unless (fun _ => unsigned_ofDecimal _ _) h
  · exact unsigned_of_unless (fun _ => unsigned_ofDecimal _ _) h

theorem splitSign_of_ne {c : Char} (minus : c ≠ '-') (cs : List Char) :
    (splitSign (c :: cs)).1 = false := by
  unfold splitSign
  split
  · simp_all
  · rfl
  · rfl

/-- A number has no sign when the text does not start with a minus sign. -/
theorem unsigned_read {c : Char} {cs : List Char} {x : Float} (minus : c ≠ '-')
    (h : read (c :: cs) = some x) : Unsigned x := by
  have plus := splitSign_of_ne minus cs
  simp only [read, plus] at h
  split at h
  · obtain rfl : infinity false = x := by simpa using h
    exact unsigned_infinity
  · split at h
    · obtain rfl : nan = x := by simpa using h
      exact unsigned_nan
    · exact unsigned_readMagnitude h

/-! ## Writing -/

theorem literal_of_unsigned {x : Float} (unsigned : Unsigned x) (finite : IsFinite x) :
    ∃ d, literal x = positional d := by
  obtain ⟨negative, significand, exponent, hx⟩ := finite
  have sign : negative = false := by
    have small : x.toBits.toNat / twoPow 63 = 0 := Nat.div_eq_of_lt unsigned
    simp only [Binary.ofFloat, small] at hx
    split at hx
    · split at hx <;> cases hx
    · split at hx
      · cases hx
        rfl
      · cases hx
        rfl
  refine ⟨shortest significand exponent, ?_⟩
  simp [literal, plain, hx, sign, signText]

/-- Whether a character is a digit or a point. -/
def isDecimalChar (c : Char) : Bool :=
  c.isDigit || c == '.'

theorem isDecimalChar_toDigits {n : Nat} {c : Char} (hc : c ∈ Nat.toDigits 10 n) :
    isDecimalChar c = true := by
  simp [isDecimalChar, isDigit_of_mem_toDigits hc]

theorem positional_chars (d : Decimal) :
    (positional d).toList ≠ [] ∧ ∀ c ∈ (positional d).toList, isDecimalChar c = true := by
  have zero : isDecimalChar '0' = true := rfl
  have point : isDecimalChar '.' = true := rfl
  have digits : ∀ c ∈ Nat.toDigits 10 d.digits, isDecimalChar c = true :=
    fun c hc => isDecimalChar_toDigits hc
  simp only [positional]
  split
  · constructor
    · simp [Nat.toDigits_ne_nil]
    · simp only [String.toList_ofList, List.mem_append, List.mem_replicate]
      rintro c (hc | ⟨-, rfl⟩)
      · exact digits c hc
      · exact zero
  · generalize (-d.exponent).toNat + 1 - (Nat.toDigits 10 d.digits).length = missing
    have padded : ∀ c ∈ List.replicate missing '0' ++ Nat.toDigits 10 d.digits,
        isDecimalChar c = true := by
      simp only [List.mem_append, List.mem_replicate]
      rintro c (⟨-, rfl⟩ | hc)
      · exact zero
      · exact digits c hc
    constructor
    · simp
    · simp only [String.toList_ofList, List.mem_append, List.mem_cons]
      rintro c (hc | rfl | hc)
      · exact padded c (List.mem_of_mem_take hc)
      · exact point
      · exact padded c (List.mem_of_mem_drop hc)

end Spreadsheet.Number
