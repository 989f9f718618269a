import Formula.Proofs.Operations.Widths
import Mathlib

/-!
# Shifts of integers

A shift by less than the width multiplies by a power of two and lets high bits go, or divides by one and
rounds down. A shift by at least the width is an overflow, and a negative one an invalid argument. An
amount of more than 32 bits is taken for a negative one, although it is larger than every width.
-/

namespace Formula

open Number Strategy

namespace Width

variable {w : Width} {n : Int}

theorem fits_bmod (w : Width) (n : Int) : w.Fits (n.bmod (2 ^ w.bits)) := by
  have hlow : -((2 ^ w.bits : Nat) / 2 : Int) ≤ n.bmod (2 ^ w.bits) := Int.le_bmod (by positivity)
  have hhigh : n.bmod (2 ^ w.bits) < ((2 ^ w.bits : Nat) + 1) / 2 := Int.bmod_lt (by positivity)
  rw [fits_iff]
  cases w <;> exact ⟨hlow, hhigh⟩

theorem value_bmod (w : Width) (n : Int) : w.value (n.bmod (2 ^ w.bits)) = w.value n := by
  cases w with
  | short =>
    refine congrArg Value.integer (Int32.toInt_inj.mp ?_)
    rw [Int32.toInt_ofInt, Int32.toInt_ofInt]
    exact Int.bmod_bmod
  | long =>
    refine congrArg Value.long (Int64.toInt_inj.mp ?_)
    rw [Int64.toInt_ofInt, Int64.toInt_ofInt]
    exact Int.bmod_bmod

theorem fits_ediv_two_pow (h : w.Fits n) (k : Nat) : w.Fits (n / 2 ^ k) := by
  have hpos : (0 : Int) < 2 ^ k := by positivity
  refine h.of_between ?_
  rcases Int.le_total 0 n with hn | hn
  · exact .inl ⟨Int.ediv_nonneg hn hpos.le, Int.ediv_le_self _ hn⟩
  · refine .inr ⟨?_, (Int.ediv_le_ediv hpos hn).trans_eq (Int.zero_ediv _)⟩
    rw [Int.le_ediv_iff_mul_le hpos]
    exact mul_le_of_one_le_right hn hpos

end Width

namespace IntegerPair

variable {a b : Value} {w : Width} {m n : Int}

theorem shift_eq (h : IntegerPair a b w m n) (side : ShiftSide) :
    coercing.arithmetic .arithmetic a b (shiftPair side) =
      if n < 0 ∨ 2 ^ 32 ≤ n then .error (.invalidArgument (.negativeShift n))
      else if n < w.bits then .ok (w.value (side.move m n.toNat))
      else .error (.overflow side.operation) := by
  have hm := h.fits_left
  have hn := h.fits_right
  rw [h.arithmetic]
  cases w with
  | short =>
    have hnumber : (Int32.ofInt m).toInt = m := toInt_ofInt_int32 hm
    have hamount : (Int32.ofInt n).toInt = n := toInt_ofInt_int32 hn
    simp only [shiftPair, shiftBy, Width.value, hnumber, hamount]
    rfl
  | long =>
    have hnumber : (Int64.ofInt m).toInt = m := toInt_ofInt_int64 hm
    have hamount : (Int64.ofInt n).toInt = n := toInt_ofInt_int64 hn
    simp only [shiftPair, shiftBy, Width.value, hnumber, hamount]
    rfl

variable (h : IntegerPair a b w m n)
include h

theorem shift_refused (hn : n < 0 ∨ 2 ^ 32 ≤ n) (side : ShiftSide) :
    coercing.arithmetic .arithmetic a b (shiftPair side) =
      .error (.invalidArgument (.negativeShift n)) := by
  rw [h.shift_eq, if_pos hn]

theorem shift_overflows (hlow : w.bits ≤ n) (hhigh : n < 2 ^ 32) (side : ShiftSide) :
    coercing.arithmetic .arithmetic a b (shiftPair side) = .error (.overflow side.operation) := by
  rw [h.shift_eq, if_neg (by omega), if_neg (by omega)]

theorem shift_moves {k : Nat} (hn : n = k) (hk : k < w.bits) (side : ShiftSide) :
    coercing.arithmetic .arithmetic a b (shiftPair side) = .ok (w.value (side.move m k)) := by
  have hbits : w.bits ≤ 64 := by cases w <;> decide
  subst hn
  rw [h.shift_eq, if_neg (by omega), if_pos (by omega), Int.toNat_natCast]

end IntegerPair

namespace Strategy

/-- A shift of an integer of width `w` by less than the width is the product with the power of two,
reduced to the integers of the width, or the quotient rounded down. It is an overflow from the width on
and an invalid argument below zero, and an invalid argument again from `2 ^ 32` on. -/
theorem shift_integers {a b : Value} {w : Width} {m n : Int} (h : IntegerPair a b w m n) :
    (∀ k : Nat, n = k → k < w.bits →
      w.Fits ((m * 2 ^ k).bmod (2 ^ w.bits)) ∧
      coercing.lsh a b = .ok (w.value ((m * 2 ^ k).bmod (2 ^ w.bits))) ∧
      w.Fits (m.fdiv (2 ^ k)) ∧ coercing.rsh a b = .ok (w.value (m.fdiv (2 ^ k)))) ∧
    (w.bits ≤ n → n < 2 ^ 32 →
      coercing.lsh a b = .error (.overflow .shiftLeft) ∧
      coercing.rsh a b = .error (.overflow .shiftRight)) ∧
    (n < 0 ∨ 2 ^ 32 ≤ n →
      coercing.lsh a b = .error (.invalidArgument (.negativeShift n)) ∧
      coercing.rsh a b = .error (.invalidArgument (.negativeShift n))) := by
  refine ⟨fun k hn hk => ?_, fun hlow hhigh => ?_, fun hn => ?_⟩
  · have hfloor : m.fdiv (2 ^ k) = m / 2 ^ k := Int.fdiv_eq_ediv_of_nonneg m (by positivity)
    have hleft : ShiftSide.left.move m k = m * 2 ^ k := by simp [ShiftSide.move]
    have hright : ShiftSide.right.move m k = m / 2 ^ k := by simp [ShiftSide.move]
    rw [w.value_bmod, hfloor, ← hleft, ← hright]
    exact ⟨w.fits_bmod _, h.shift_moves hn hk .left, hright ▸ Width.fits_ediv_two_pow h.fits_left k,
      h.shift_moves hn hk .right⟩
  · exact ⟨h.shift_overflows hlow hhigh .left, h.shift_overflows hlow hhigh .right⟩
  · exact ⟨h.shift_refused hn .left, h.shift_refused hn .right⟩

/-- A sign bit that goes and one that comes, a negative integer rounded down, and the first amounts
that are refused. -/
theorem shift_integers_at_ends :
    IntegerPair (.integer (-3)) (.integer 31) .short (-3) 31 ∧
      coercing.lsh (.integer (-3)) (.integer 31) = .ok (.integer Int32.minValue) ∧
      coercing.rsh (.integer (-3)) (.integer 31) = .ok (.integer (-1)) ∧
      IntegerPair (.integer 1) (.long 64) .long 1 64 ∧
      coercing.lsh (.integer 1) (.long 64) = .error (.overflow .shiftLeft) ∧
      IntegerPair (.long 1) (.integer (-1)) .long 1 (-1) ∧
      coercing.rsh (.long 1) (.integer (-1)) = .error (.invalidArgument (.negativeShift (-1))) := by
  have hmoves : IntegerPair (.integer (-3)) (.integer 31) .short (-3) 31 :=
    ⟨rfl, rfl, rfl, by decide⟩
  have hwidth : IntegerPair (.integer 1) (.long 64) .long 1 64 := ⟨rfl, rfl, rfl, by decide⟩
  have hnegative : IntegerPair (.long 1) (.integer (-1)) .long 1 (-1) := ⟨rfl, rfl, rfl, by decide⟩
  obtain ⟨-, hleft, -, hright⟩ := (shift_integers hmoves).1 31 rfl (by decide)
  exact ⟨hmoves, hleft, hright, hwidth, ((shift_integers hwidth).2.1 (by decide) (by decide)).1,
    hnegative, ((shift_integers hnegative).2.2 (.inl (by decide))).2⟩

/-- An amount far beyond the width is refused as a negative one. -/
theorem shift_by_long_amount :
    coercing.lsh (.long 1) (.long 4294967296) =
        .error (.invalidArgument (.negativeShift 4294967296)) ∧
      coercing.lsh (.long 1) (.long 4294967296) ≠ .error (.overflow .shiftLeft) ∧
      coercing.rsh (.integer 1) (.long Int64.maxValue) =
        .error (.invalidArgument (.negativeShift 9223372036854775807)) :=
  ⟨rfl, nofun, rfl⟩

end Strategy

end Formula
