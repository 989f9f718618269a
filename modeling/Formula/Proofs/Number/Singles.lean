import Formula.Number.Numeral
import Formula.Proofs.Number.Doubles

/-!
# Numbers beyond single precision

A number of at least `2 ^ 128` stays that large when it is rounded to double precision, and is
infinite in single precision.
-/

namespace Formula.Number

theorem le_roundHalfEven (num den : Nat) : num / den ≤ roundHalfEven num den := by
  rw [roundHalfEven]
  split_ifs <;> omega

namespace BinaryFormat

theorem magnitudeBits_le (f : BinaryFormat) (num den : Nat) :
    f.magnitudeBits num den ≤ f.infinityBits := by
  rw [magnitudeBits]
  split_ifs
  · exact Nat.zero_le _
  · exact Nat.min_le_right _ _

/-- An integer keeps its leading bit, so the exponent field says at least where that stands. -/
theorem le_magnitudeBits (f : BinaryFormat) (hf : 0 < f.precision) {n k : Nat} (hn : n ≠ 0)
    (hk : f.leastExponent + k ≤ (n.log2 : Int) - f.precision + 1) :
    min ((k + 1) * f.hiddenBit) f.infinityBits ≤ f.magnitudeBits n 1 := by
  have hunit : f.unitExponent n 1 = (n.log2 : Int) - (f.precision - 1 : Nat) := by
    rw [f.unitExponent_one hn]
    omega
  have hfield : k ≤ ((n.log2 : Int) - (f.precision - 1 : Nat) - f.leastExponent).toNat := by omega
  have hmantissa : f.hiddenBit ≤ roundHalfEven
      (scaleDown n 1 ((n.log2 : Int) - (f.precision - 1 : Nat))).1
      (scaleDown n 1 ((n.log2 : Int) - (f.precision - 1 : Nat))).2 :=
    (scaleDown_div n (f.precision - 1) hn).1.trans (le_roundHalfEven _ _)
  rw [magnitudeBits, if_neg hn]
  dsimp only
  rw [hunit]
  refine min_le_min_right _ ?_
  calc (k + 1) * f.hiddenBit = k * f.hiddenBit + f.hiddenBit := Nat.succ_mul _ _
    _ ≤ _ := Nat.add_le_add (Nat.mul_le_mul_right _ hfield) hmantissa

end BinaryFormat

theorem magnitudeBits_binary32_of_large {n : Nat} (h : 2 ^ 128 ≤ n) :
    binary32.magnitudeBits n 1 = binary32.infinityBits := by
  have hn : n ≠ 0 := by
    rintro rfl
    exact absurd h (by decide)
  have hlog : 128 ≤ n.log2 := (Nat.le_log2 hn).mpr h
  refine Nat.le_antisymm (binary32.magnitudeBits_le n 1) ?_
  have hprecision : binary32.precision = 24 := rfl
  have hleast : binary32.leastExponent = -149 := rfl
  exact binary32.le_magnitudeBits (by decide) (k := 254) hn (by rw [hprecision, hleast]; omega)

theorem not_singleIsFinite_infinity :
    singleIsFinite (singleOfBits binary32.infinityBits) = false := rfl

/-- A double of at least `2 ^ 128` has no finite neighbour in single precision. -/
theorem not_singleIsFinite_narrow {bits : Nat} (hlow : 1151 * 2 ^ 52 ≤ bits)
    (hhigh : bits ≤ binary64.infinityBits) :
    singleIsFinite (narrow (doubleOfBits bits)) = false := by
  have hinfinity : binary64.infinityBits = 2047 * 2 ^ 52 := rfl
  by_cases hbits : bits = binary64.infinityBits
  · subst hbits
    rfl
  · have hfinite : FiniteBits bits := by constructor <;> omega
    have hread : readDouble (doubleOfBits bits) =
        .finite false (bits % 2 ^ 52 + 2 ^ 52) (-1074 + (bits / 2 ^ 52 : Nat) - 1) := by
      have hfield : bits / 2 ^ 52 % 2048 = bits / 2 ^ 52 := by omega
      have hsign : decide (bits / 2 ^ 63 % 2 = 1) = false := by
        rw [decide_eq_false_iff_not]
        omega
      rw [readDouble, hfinite.toBits_doubleOfBits, BinaryFormat.read]
      change (if bits / 2 ^ 52 % 2048 = 2047 then _
        else if bits / 2 ^ 52 % 2048 = 0 then _
        else FloatReading.finite (decide (bits / 2 ^ 63 % 2 = 1)) _
          (-1074 + (bits / 2 ^ 52 % 2048 : Nat) - 1)) = _
      rw [hfield, hsign, if_neg (by omega), if_neg (by omega)]
      rfl
    have hlarge : 2 ^ 128 ≤ (bits % 2 ^ 52 + 2 ^ 52) *
        2 ^ (-1074 + (bits / 2 ^ 52 : Nat) - 1 : Int).toNat := by
      calc 2 ^ 128 = 2 ^ 52 * 2 ^ 76 := by rw [← Nat.pow_add]
        _ ≤ _ := Nat.mul_le_mul (by omega) (Nat.pow_le_pow_right (by decide) (by omega))
    rw [narrow, hread, BinaryFormat.convertBits, if_pos (by omega), BinaryFormat.nearestBits]
    rw [Nat.pow_eq, magnitudeBits_binary32_of_large hlarge]
    exact not_singleIsFinite_infinity

/-- The double nearest to an integer of at least `2 ^ 128` is as large. -/
theorem toBits_of_large {n : Nat} (h : 2 ^ 128 ≤ n) :
    1151 * 2 ^ 52 ≤ (Numeral.decimal false n 0).toBits binary64 ∧
      (Numeral.decimal false n 0).toBits binary64 ≤ binary64.infinityBits := by
  have hinfinity : binary64.infinityBits = 2047 * 2 ^ 52 := rfl
  have hn : n ≠ 0 := by
    rintro rfl
    exact absurd h (by decide)
  rw [Numeral.toBits, if_neg (by omega), if_pos (Int.le_refl 0)]
  split_ifs
  · rw [BinaryFormat.convertBits]
    constructor <;> simp [hinfinity]
  · have hlog : 128 ≤ n.log2 := (Nat.le_log2 hn).mpr h
    have hprecision : binary64.precision = 53 := rfl
    have hleast : binary64.leastExponent = -1074 := rfl
    have hhidden : binary64.hiddenBit = 2 ^ 52 := rfl
    have hlow := binary64.le_magnitudeBits (by decide) (k := 1150) hn
      (by rw [hprecision, hleast]; omega)
    have hone : n * Nat.pow 10 (0 : Int).toNat = n := Nat.mul_one n
    rw [hhidden, hinfinity] at hlow
    rw [BinaryFormat.nearestBits, hone, if_neg Bool.false_ne_true, Nat.add_zero]
    exact ⟨hlow.trans' (by decide), binary64.magnitudeBits_le n 1⟩

end Formula.Number
