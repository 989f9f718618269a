import Formula.Number.Binary
import Mathlib

/-!
# Doubles of integers

The double nearest to an integer of at most 1023 bits is finite: the last bit of its mantissa
stands 52 places behind the leading bit of the integer, so its exponent field stays below the last
one.
-/

namespace Formula.Number

section Bits

variable {bits : Nat}

/-- The exponent field of the bits is not the last one. -/
def FiniteBits (bits : Nat) : Prop := bits < 2 ^ 64 ∧ bits / 2 ^ 52 % 2 ^ 11 ≠ 2047

theorem FiniteBits.toBits_doubleOfBits (h : FiniteBits bits) :
    (doubleOfBits bits).toBits.toNat = bits := by
  have htoNat : (UInt64.ofNat bits).toNat = bits := UInt64.toNat_ofNat_of_lt' h.1
  have hvalid : Float.Model.Format.binary64.Valid (UInt64.ofNat bits).toBitVec := by
    refine ⟨fun hexponent => absurd ?_ h.2⟩
    have hfield := congrArg BitVec.toNat hexponent
    simp only [Float.Model.UnpackedFloat.unpackExponent_def, BitVec.extractLsb'_toNat,
      Nat.shiftRight_eq_div_pow, UInt64.toNat_toBitVec, htoNat] at hfield
    exact hfield
  have hround : Float.ofBits (UInt64.ofNat bits) = ⟨⟨UInt64.ofNat bits, hvalid⟩⟩ :=
    Float.ofBits_toBits ⟨⟨UInt64.ofNat bits, hvalid⟩⟩
  rw [doubleOfBits, hround]
  exact htoNat

theorem FiniteBits.doubleIsFinite (h : FiniteBits bits) :
    doubleIsFinite (doubleOfBits bits) = true := by
  have hfield : ¬ bits / binary64.hiddenBit % (binary64.lastExponent + 1) = binary64.lastExponent :=
    h.2
  rw [Number.doubleIsFinite, readDouble, h.toBits_doubleOfBits, BinaryFormat.read]
  rw [if_neg hfield]
  split_ifs <;> rfl

theorem finiteBits_add_sign (h : bits < binary64.infinityBits) (negative : Bool) :
    FiniteBits (bits + if negative then binary64.signBit else 0) := by
  have hsign : binary64.signBit = 2 ^ 63 := rfl
  have hinfinity : binary64.infinityBits = 2047 * 2 ^ 52 := rfl
  rw [hinfinity] at h
  rw [hsign]
  cases negative
  · constructor <;> simp only [Bool.false_eq_true, if_false] <;> omega
  · constructor <;> simp only [if_true] <;> omega

end Bits

theorem exists_rankDouble? {x : Float} (h : doubleIsFinite x = true) :
    ∃ r, rankDouble? x = some r := by
  have hfield : x.toBits.toNat / binary64.hiddenBit % (binary64.lastExponent + 1) ≠
      binary64.lastExponent := by
    intro hlast
    rw [doubleIsFinite, readDouble, BinaryFormat.read] at h
    simp only [if_pos hlast] at h
    split at h
    · next heq => split_ifs at heq
    · exact Bool.false_ne_true h
  have hmagnitude : x.toBits.toNat % binary64.signBit ≤ binary64.infinityBits := by
    have hsign : binary64.signBit = 2 ^ 63 := rfl
    have hinfinity : binary64.infinityBits = 2047 * 2 ^ 52 := rfl
    have hhidden : binary64.hiddenBit = 2 ^ 52 := rfl
    have hlast : binary64.lastExponent = 2047 := rfl
    rw [hhidden, hlast] at hfield
    rw [hsign, hinfinity]
    omega
  exact ⟨_, if_pos hmagnitude⟩

theorem roundHalfEven_le (num den : Nat) : roundHalfEven num den ≤ num / den + 1 := by
  rw [roundHalfEven]
  split_ifs <;> omega

/-- An integer moved so that `width` of its bits and one more are left. -/
theorem scaleDown_div (n width : Nat) (h : n ≠ 0) :
    let parts := scaleDown n 1 ((n.log2 : Int) - width)
    2 ^ width ≤ parts.1 / parts.2 ∧ parts.1 / parts.2 < 2 ^ (width + 1) := by
  have hlower := Nat.log2_self_le h
  have hupper := Nat.lt_log2_self (n := n)
  rw [scaleDown]
  split
  · next hle =>
    have hexponent : ((n.log2 : Int) - width).toNat = n.log2 - width := by omega
    have hsum : width + (n.log2 - width) = n.log2 := by omega
    simp only [Nat.pow_eq, Nat.one_mul, hexponent]
    constructor
    · rw [Nat.le_div_iff_mul_le (by positivity), ← Nat.pow_add, hsum]
      exact hlower
    · rw [Nat.div_lt_iff_lt_mul (by positivity), ← Nat.pow_add, Nat.add_right_comm, hsum]
      exact hupper
  · next hlt =>
    have hexponent : (-((n.log2 : Int) - width)).toNat = width - n.log2 := by omega
    have hsum : n.log2 + (width - n.log2) = width := by omega
    simp only [Nat.pow_eq, Nat.div_one, hexponent]
    constructor
    · calc 2 ^ width = 2 ^ n.log2 * 2 ^ (width - n.log2) := by rw [← Nat.pow_add, hsum]
        _ ≤ n * 2 ^ (width - n.log2) := Nat.mul_le_mul_right _ hlower
    · calc n * 2 ^ (width - n.log2) < 2 ^ (n.log2 + 1) * 2 ^ (width - n.log2) :=
            Nat.mul_lt_mul_of_pos_right hupper (by positivity)
        _ = 2 ^ (width + 1) := by rw [← Nat.pow_add, Nat.add_right_comm, hsum]

/-- The last bit of the mantissa stands behind the leading bit as far as the format is precise,
unless it would be less than every number of the format. -/
theorem BinaryFormat.unitExponent_one (f : BinaryFormat) {n : Nat} (h : n ≠ 0) :
    f.unitExponent n 1 = max ((n.log2 : Int) - f.precision + 1) f.leastExponent := by
  have hquotient := (scaleDown_div n f.precision h).1
  have hone : (Nat.log2 1 : Int) = 0 := by decide
  rw [unitExponent]
  simp only [hone, Nat.pow_eq, Int.sub_zero]
  rw [if_neg (Nat.not_lt.mpr hquotient)]

theorem unitExponent_eq {n : Nat} (h : n ≠ 0) :
    binary64.unitExponent n 1 = (n.log2 : Int) - 52 := by
  have hprecision : binary64.precision = 53 := rfl
  have hleast : binary64.leastExponent = -1074 := rfl
  rw [BinaryFormat.unitExponent_one _ h, hprecision, hleast]
  omega

theorem magnitudeBits_lt {n : Nat} (h : n.log2 < 1023) :
    binary64.magnitudeBits n 1 < binary64.infinityBits := by
  have hinfinity : binary64.infinityBits = 2047 * 2 ^ 52 := rfl
  rw [BinaryFormat.magnitudeBits]
  split_ifs with hn
  · rw [hinfinity]; omega
  · have hquotient : (scaleDown n 1 ((n.log2 : Int) - 52)).1 /
        (scaleDown n 1 ((n.log2 : Int) - 52)).2 < 2 ^ 53 := (scaleDown_div n 52 hn).2
    have hround := roundHalfEven_le (scaleDown n 1 ((n.log2 : Int) - 52)).1
      (scaleDown n 1 ((n.log2 : Int) - 52)).2
    have hleast : binary64.leastExponent = -1074 := rfl
    have hhidden : binary64.hiddenBit = 2 ^ 52 := rfl
    have hexponent : ((n.log2 : Int) - 52 - -1074).toNat = n.log2 + 1022 := by omega
    simp only [unitExponent_eq hn, hleast, hhidden, hexponent, hinfinity]
    refine Nat.lt_of_le_of_lt (Nat.min_le_left _ _) ?_
    omega

theorem doubleIsFinite_doubleOfInt {n : Int} (h : n.natAbs.log2 < 1023) :
    doubleIsFinite (doubleOfInt n) = true := by
  rw [doubleOfInt, BinaryFormat.nearestBits]
  exact (finiteBits_add_sign (magnitudeBits_lt h) _).doubleIsFinite

end Formula.Number
