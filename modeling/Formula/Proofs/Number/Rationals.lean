import Formula.Number.Binary
import Mathlib

/-!
# Floating point numbers as rational numbers

A finite number of a format is a rational number, and cutting off its fraction is rounding that number
towards zero.
-/

namespace Formula.Number

/-- The rational number that a finite reading stands for. -/
def FloatReading.rational? : FloatReading → Option ℚ
  | .finite negative m e => some (if negative then -(m * 2 ^ e) else m * 2 ^ e)
  | _ => none

/-- A rational number without its fraction. -/
def integerPart (q : ℚ) : Int := if q < 0 then ⌈q⌉ else ⌊q⌋

theorem integerPart_of_nonneg {q : ℚ} (h : 0 ≤ q) : integerPart q = ⌊q⌋ :=
  if_neg (not_lt.mpr h)

theorem integerPart_neg {q : ℚ} (h : 0 ≤ q) : integerPart (-q) = -⌊q⌋ := by
  rcases h.eq_or_lt with rfl | hq
  · rfl
  · rw [integerPart, if_pos (neg_neg_of_pos hq), Int.ceil_neg]

/-- The natural part of a mantissa with a power of two. -/
def wholeMagnitude (m : Nat) (e : Int) : Nat :=
  if 0 ≤ e then m * Nat.pow 2 e.toNat else m / Nat.pow 2 (-e).toNat

theorem magnitude_eq {e : Int} (he : 0 ≤ e) (m : Nat) : (m : ℚ) * 2 ^ e = wholeMagnitude m e := by
  obtain ⟨k, rfl⟩ := Int.eq_ofNat_of_zero_le he
  rw [wholeMagnitude, if_pos he, zpow_natCast, Int.toNat_natCast, Nat.pow_eq]
  push_cast
  rfl

theorem floor_magnitude (m : Nat) (e : Int) : ⌊(m : ℚ) * 2 ^ e⌋ = wholeMagnitude m e := by
  rcases le_or_gt 0 e with he | he
  · rw [magnitude_eq he, Int.floor_natCast]
  · obtain ⟨k, hk⟩ := Int.eq_ofNat_of_zero_le (neg_nonneg.mpr he.le)
    have hquotient : (m : ℚ) * 2 ^ e = ((m : ℤ) : ℚ) / ((2 ^ k : ℕ) : ℚ) := by
      rw [← neg_neg e, hk, zpow_neg, zpow_natCast, div_eq_mul_inv]
      push_cast
      rfl
    rw [wholeMagnitude, if_neg (not_le.mpr he), hquotient, Rat.floor_intCast_div_natCast, hk,
      Int.toNat_natCast]
    rfl

theorem FloatReading.truncate?_eq (r : FloatReading) :
    r.truncate? = r.rational?.map integerPart := by
  cases r with
  | nan => rfl
  | infinite negative => rfl
  | finite negative m e =>
    have hnonneg : 0 ≤ (m : ℚ) * 2 ^ e := by positivity
    cases negative with
    | false => exact congrArg some ((integerPart_of_nonneg hnonneg).trans (floor_magnitude m e)).symm
    | true =>
      refine congrArg some (.trans ?_ (integerPart_neg hnonneg).symm)
      rw [floor_magnitude]
      rfl

/-- A number with a mantissa of at most 53 bits has no fraction from `2 ^ 53` on. -/
theorem FloatReading.eq_of_integerPart {negative : Bool} {m : Nat} {e : Int} (hm : m < 2 ^ 53)
    {q : ℚ} (hq : rational? (.finite negative m e) = some q) (hlarge : 2 ^ 53 ≤ integerPart q) :
    q = integerPart q := by
  have hnonneg : 0 ≤ (m : ℚ) * 2 ^ e := by positivity
  cases negative with
  | true =>
    cases hq
    rw [if_pos rfl, integerPart_neg hnonneg, floor_magnitude] at hlarge
    omega
  | false =>
    cases hq
    rw [if_neg Bool.false_ne_true, integerPart_of_nonneg hnonneg, floor_magnitude] at hlarge ⊢
    rcases le_or_gt 0 e with he | he
    · rw [magnitude_eq he, Int.cast_natCast]
    · have hsmall : wholeMagnitude m e ≤ m := by
        rw [wholeMagnitude, if_neg (not_le.mpr he)]
        exact Nat.div_le_self _ _
      omega

/-- The mantissa of a number is no longer than its format says, and the exponent is in range. -/
theorem BinaryFormat.bounds_of_read (f : BinaryFormat) (hf : 0 < f.precision) {bits m : Nat}
    {e : Int} {negative : Bool} (h : f.read bits = .finite negative m e) :
    m < 2 ^ f.precision ∧ f.leastExponent ≤ e ∧ e < f.leastExponent + f.lastExponent := by
  have hprecision : 2 ^ f.precision = 2 * f.hiddenBit := by
    rw [hiddenBit, Nat.pow_eq, mul_pow_sub_one hf.ne']
  have hfraction : bits % f.hiddenBit < f.hiddenBit := Nat.mod_lt _ (Nat.two_pow_pos _)
  have hexponent : bits / f.hiddenBit % (f.lastExponent + 1) < f.lastExponent + 1 :=
    Nat.mod_lt _ (Nat.succ_pos _)
  rw [read] at h
  split_ifs at h with hlast hzero hfirst
  · cases h
    omega
  · cases h
    omega

end Formula.Number
