import Formula.Proofs.Operations.Widths
import Mathlib

/-!
# Powers of integers

A power with an exponent that is not negative is exact or an overflow. An exponent of more than 32 bits
counts as an overflow whatever the base is, and that is wrong for three bases: the powers of zero, one
and minus one fit with every exponent.
-/

namespace Formula

namespace Number

variable {base : Int} {exponent width : Nat}

/-- A base of size two or more outgrows a width before its exponent exceeds the width. -/
theorem two_pow_lt_natAbs_pow (hbase : 1 < base.natAbs) (hexponent : width < exponent) :
    2 ^ width < (base ^ exponent).natAbs := by
  rw [Int.natAbs_pow]
  calc 2 ^ width < 2 ^ exponent := Nat.pow_lt_pow_right (by decide) hexponent
    _ ≤ base.natAbs ^ exponent := Nat.pow_le_pow_left hbase exponent

theorem natAbs_pow_le_one (h : base.natAbs ≤ 1) (exponent : Nat) :
    (base ^ exponent).natAbs ≤ 1 := by
  rw [Int.natAbs_pow]
  exact pow_le_one' h exponent

/-- The powers of zero, one and minus one alternate between at most two numbers. -/
theorem pow_of_natAbs_le_one (h : base.natAbs ≤ 1) (exponent : Nat) : base ^ exponent =
    if exponent = 0 then 1 else if exponent % 2 = 0 then base * base else base := by
  have hbase : base = 0 ∨ base = 1 ∨ base = -1 := by omega
  split_ifs with hzero heven
  · rw [hzero, pow_zero]
  · rcases hbase with rfl | rfl | rfl
    · exact zero_pow hzero
    · exact one_pow exponent
    · exact (Nat.even_iff.mpr heven).neg_one_pow
  · rcases hbase with rfl | rfl | rfl
    · exact zero_pow hzero
    · exact one_pow exponent
    · exact (Nat.not_even_iff_odd.mp (mt Nat.even_iff.mp heven)).neg_one_pow

theorem boundedPower?_eq_some (h : base.natAbs ≤ 1 ∨ exponent ≤ width) :
    boundedPower? width base exponent = some (base ^ exponent) := by
  rw [boundedPower?]
  by_cases hbase : base.natAbs ≤ 1
  · rw [if_pos hbase, pow_of_natAbs_le_one hbase]
  · rw [if_neg hbase, if_pos (h.resolve_left hbase)]
    rfl

theorem boundedPower?_bind {α : Type} (f : Int → Option α)
    (hf : ∀ n : Int, 2 ^ width < n.natAbs → f n = none) (base : Int) (exponent : Nat) :
    (boundedPower? width base exponent).bind f = f (base ^ exponent) := by
  by_cases h : base.natAbs ≤ 1 ∨ exponent ≤ width
  · rw [boundedPower?_eq_some h]
    rfl
  · obtain ⟨hbase, hexponent⟩ := not_or.mp h
    have hlarge := two_pow_lt_natAbs_pow (Nat.lt_of_not_le hbase) (Nat.lt_of_not_le hexponent)
    rw [hf _ hlarge, boundedPower?, if_neg hbase, if_neg hexponent]
    rfl

theorem int32?_of_large {n : Int} (h : 2 ^ 32 < n.natAbs) : int32? n = none := by
  rw [int32?_eq_none_iff, FitsInt32]
  omega

theorem int64?_of_large {n : Int} (h : 2 ^ 64 < n.natAbs) : int64? n = none := by
  rw [int64?_eq_none_iff, FitsInt64]
  omega

end Number

open Number Strategy

namespace IntegerPair

variable {a b : Value} {w : Width} {m n : Int}

/-- Exponents of more than 32 bits are too large for the program, all others are not. -/
theorem pow_eq (h : IntegerPair a b w m n) (hn : 0 ≤ n) : coercing.pow a b =
    if n < 2 ^ 32 then w.hold (.overflow .power) (m ^ n.toNat) else .error (.overflow .power) := by
  have hpow : coercing.pow a b = powerPair (w.value m) (w.value n) := h.arithmetic _ _
  have hm := h.fits_left
  have hfits := h.fits_right
  rw [hpow]
  cases w with
  | short =>
    have hbase : (Int32.ofInt m).toInt = m := toInt_ofInt_int32 hm
    have hexponent : (Int32.ofInt n).toInt = n := toInt_ofInt_int32 hfits
    have hshort : n < 2 ^ 32 := Int.lt_trans hfits.2 (by decide)
    simp only [powerPair, Width.value, hbase, hexponent]
    rw [if_pos hn, if_pos hshort, boundedPower?_bind int32? fun _ => int32?_of_large]
    exact (Width.hold_short _ _).symm
  | long =>
    have hbase : (Int64.ofInt m).toInt = m := toInt_ofInt_int64 hm
    have hexponent : (Int64.ofInt n).toInt = n := toInt_ofInt_int64 hfits
    simp only [powerPair, Width.value, hbase, hexponent]
    rw [if_pos hn]
    by_cases hshort : n < 2 ^ 32
    · have hlimit : n < 4294967296 := hshort
      rw [if_pos hlimit, if_pos hshort, boundedPower?_bind int64? fun _ => int64?_of_large]
      exact (Width.hold_long _ _).symm
    · have hlimit : ¬ n < 4294967296 := hshort
      rw [if_neg hlimit, if_neg hshort]

end IntegerPair

namespace Width

variable {w : Width} {m : Int}

theorem fits_pow_of_natAbs_le_one (h : m.natAbs ≤ 1) (exponent : Nat) : w.Fits (m ^ exponent) := by
  have hsize := natAbs_pow_le_one h exponent
  have hleast : w.least ≤ -2 := by cases w <;> decide
  rw [fits_iff]
  omega

theorem not_fits_of_large {n : Int} (h : 2 ^ 64 < n.natAbs) : ¬ w.Fits n := by
  have hleast : -2 ^ 64 ≤ w.least := by cases w <;> decide
  rw [fits_iff]
  omega

end Width

namespace Strategy

/-- A power of integers with an exponent that is not negative is exact, or an overflow where it does
not fit, but for the powers of zero, one and minus one with an exponent of more than 32 bits: these
are an overflow although they fit. -/
theorem pow_exact_iff {a b : Value} {w : Width} {m n : Int} (h : IntegerPair a b w m n)
    (hn : 0 ≤ n) :
    (coercing.pow a b = w.hold (.overflow .power) (m ^ n.toNat) ↔ 1 < m.natAbs ∨ n < 2 ^ 32) ∧
    (m.natAbs ≤ 1 → w.Fits (m ^ n.toNat)) ∧
    (2 ^ 32 ≤ n → coercing.pow a b = .error (.overflow .power)) := by
  refine ⟨?_, fun hbase => Width.fits_pow_of_natAbs_le_one hbase _, fun hlong => ?_⟩
  · rw [h.pow_eq hn]
    by_cases hshort : n < 2 ^ 32
    · rw [if_pos hshort, iff_true_left rfl]
      exact .inr hshort
    · rw [if_neg hshort, or_iff_left hshort]
      constructor
      · intro hhold
        by_contra hbase
        rw [Width.hold_of_fits (Width.fits_pow_of_natAbs_le_one (Nat.le_of_not_lt hbase) _)] at hhold
        cases hhold
      · intro hbase
        have hlarge : 2 ^ 64 < (m ^ n.toNat).natAbs := two_pow_lt_natAbs_pow hbase (by omega)
        rw [Width.hold_of_not_fits (Width.not_fits_of_large hlarge)]
  · rw [h.pow_eq hn, if_neg (Int.not_lt.mpr hlong)]

/-- The least integer of 64 bits is a power, and the largest exponent that is taken. -/
theorem pow_exact_iff_at_ends :
    IntegerPair (.integer (-2)) (.long 63) .long (-2) 63 ∧
      coercing.pow (.integer (-2)) (.long 63) = .ok (.long Int64.minValue) ∧
      IntegerPair (.integer (-1)) (.long 4294967295) .long (-1) 4294967295 ∧
      coercing.pow (.integer (-1)) (.long 4294967295) = .ok (.long (-1)) := by
  have hleast : IntegerPair (.integer (-2)) (.long 63) .long (-2) 63 := ⟨rfl, rfl, rfl, by decide⟩
  have hlast : IntegerPair (.integer (-1)) (.long 4294967295) .long (-1) 4294967295 :=
    ⟨rfl, rfl, rfl, by decide⟩
  refine ⟨hleast, ?_, hlast, ?_⟩
  · rw [(pow_exact_iff hleast (by decide)).1.mpr (.inr (by decide))]
    rfl
  · have hodd : (-1 : Int) ^ (4294967295 : Int).toNat = -1 := Odd.neg_one_pow (by decide)
    rw [(pow_exact_iff hlast (by decide)).1.mpr (.inr (by decide)), hodd]
    rfl

/-- The powers of one, minus one and zero fit, but with long exponents they are refused. -/
theorem pow_of_one_overflows :
    (1 : Int) ^ (4294967296 : Int).toNat = 1 ∧ Width.long.Fits 1 ∧
      coercing.pow (.long 1) (.long 4294967296) = .error (.overflow .power) ∧
      coercing.pow (.long 1) (.long 4294967296) ≠ .ok (.long 1) ∧
      coercing.pow (.integer (-1)) (.long 4294967297) = .error (.overflow .power) ∧
      coercing.pow (.long 0) (.long Int64.maxValue) = .error (.overflow .power) :=
  ⟨one_pow _, by decide, rfl, nofun, rfl, rfl⟩

end Strategy

end Formula
