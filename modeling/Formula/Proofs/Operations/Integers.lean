import Formula.Operations.Comparison
import Formula.Proofs.Operations.Widths
import Mathlib

/-!
# Arithmetic of integers

Sums, differences, products and opposites are exact or an overflow, and so are quotients cut towards
zero and their remainders, which no divisor but zero refuses. The only quotient of two integers of a
width that the width cannot hold is that of its least integer and minus one, where the remainder is
refused too.
-/

namespace Formula

open Number

namespace Width

variable {w : Width} {m n : Int}

theorem tmod_between (m n : Int) :
    0 ≤ m.tmod n ∧ m.tmod n ≤ m ∨ m ≤ m.tmod n ∧ m.tmod n ≤ 0 := by
  have hsize : (m.tmod n).natAbs ≤ m.natAbs := by
    rw [Int.natAbs_tmod]
    exact Nat.mod_le _ _
  rcases Int.le_total 0 m with hm | hm
  · have hsign := Int.tmod_nonneg n hm
    omega
  · have hsign := Int.tmod_nonneg n (Int.neg_nonneg_of_nonpos hm)
    rw [Int.neg_tmod] at hsign
    omega

theorem fits_tmod (hm : w.Fits m) (n : Int) : w.Fits (m.tmod n) :=
  hm.of_between (tmod_between m n)

theorem fits_tdiv_mul (hm : w.Fits m) (n : Int) : w.Fits (m.tdiv n * n) := by
  have hsum := Int.tdiv_mul_add_tmod m n
  have hrest := tmod_between m n
  exact hm.of_between (by omega)

theorem fits_tdiv_iff (hm : w.Fits m) (hn : n ≠ 0) :
    w.Fits (m.tdiv n) ↔ ¬ (m = w.least ∧ n = -1) := by
  have hleast : w.least < 0 := by cases w <;> decide
  rw [fits_iff] at hm ⊢
  constructor
  · rintro ⟨-, hhigh⟩ ⟨rfl, rfl⟩
    rw [Int.tdiv_neg, Int.tdiv_one] at hhigh
    exact Int.lt_irrefl _ hhigh
  · intro hother
    by_cases hone : n.natAbs = 1
    · rcases Int.natAbs_eq_iff.mp hone with rfl | rfl
      · rw [Nat.cast_one, Int.tdiv_one]
        exact hm
      · rw [Nat.cast_one, Int.tdiv_neg, Int.tdiv_one]
        have hne : m ≠ w.least := fun h => hother ⟨h, rfl⟩
        omega
    · have hhalf : (m.tdiv n).natAbs ≤ m.natAbs / 2 := by
        rw [Int.natAbs_tdiv]
        exact Nat.div_le_div_left (by omega) (by decide)
      omega

/-- What a division of `m` by `n` gives, if it is to give `result`: nothing by zero, and nothing
where the quotient leaves the width. -/
def divided (w : Width) (operation : Operation) (m n result : Int) : Result :=
  if n = 0 then .error .divisionByZero
  else if m = w.least ∧ n = -1 then .error (.overflow operation)
  else .ok (w.value result)

theorem isZeroInteger_value_iff (hn : w.Fits n) : (w.value n).isZeroInteger = true ↔ n = 0 := by
  cases w with
  | short =>
    have hnumber : (Int32.ofInt n).toInt = n := toInt_ofInt_int32 hn
    rw [Width.value, Value.isZeroInteger, beq_iff_eq, ← Int32.toInt_inj, hnumber]
    rfl
  | long =>
    have hnumber : (Int64.ofInt n).toInt = n := toInt_ofInt_int64 hn
    rw [Width.value, Value.isZeroInteger, beq_iff_eq, ← Int64.toInt_inj, hnumber]
    rfl

end Width

namespace NumericRule

variable {w : Width} {m n : Int}

/-- A rule of arithmetic is exact on integers that fit, or overflows. -/
theorem apply_value (r : NumericRule) (hm : w.Fits m) (hn : w.Fits n) :
    r.apply (w.value m) (w.value n) =
      if w.Fits (r.whole m n) ∧ w.Fits (r.bound m n) then .ok (w.value (r.whole m n))
      else .error (.overflow r.operation) := by
  cases w with
  | short =>
    have hleft : (Int32.ofInt m).toInt = m := toInt_ofInt_int32 hm
    have hright : (Int32.ofInt n).toInt = n := toInt_ofInt_int32 hn
    simp only [apply, Width.value, hleft, hright]
    rfl
  | long =>
    have hleft : (Int64.ofInt m).toInt = m := toInt_ofInt_int64 hm
    have hright : (Int64.ofInt n).toInt = n := toInt_ofInt_int64 hn
    simp only [apply, Width.value, hleft, hright]
    rfl

theorem apply_eq_hold (r : NumericRule) (hr : r.bound = r.whole) (hm : w.Fits m) (hn : w.Fits n) :
    r.apply (w.value m) (w.value n) = w.hold (.overflow r.operation) (r.whole m n) := by
  rw [r.apply_value hm hn, hr, Width.hold]
  exact if_congr (and_self_iff) rfl rfl

/-- A rule of division: it works where the quotient fits, and its result fits there. -/
theorem applyNonzero_eq_divided (r : NumericRule) (hr : r.bound = Int.tdiv) (hm : w.Fits m)
    (hn : w.Fits n) (hresult : w.Fits (m.tdiv n) → w.Fits (r.whole m n)) :
    Strategy.applyNonzero r (w.value m) (w.value n) =
      w.divided r.operation m n (r.whole m n) := by
  rw [Strategy.applyNonzero, Width.divided]
  by_cases hzero : n = 0
  · rw [if_pos ((Width.isZeroInteger_value_iff hn).mpr hzero), if_pos hzero]
  · have hquotient := Width.fits_tdiv_iff hm hzero
    rw [if_neg (mt (Width.isZeroInteger_value_iff hn).mp hzero), if_neg hzero,
      r.apply_value hm hn, hr]
    by_cases hleast : m = w.least ∧ n = -1
    · rw [if_neg fun h => hquotient.mp h.2 hleast, if_pos hleast]
    · have hfits := hquotient.mpr hleast
      rw [if_pos ⟨hresult hfits, hfits⟩, if_neg hleast]

end NumericRule

namespace IntegerPair

open Strategy

variable {a b : Value} {w : Width} {m n : Int}

theorem no_times (h : IntegerPair a b w m n) :
    coercing.addTimes? a b = none ∧ coercing.subtractTimes? a b = none := by
  obtain ⟨hleft, hright, -, -⟩ := h
  cases a <;> cases hleft <;> cases b <;> cases hright <;> exact ⟨rfl, rfl⟩

theorem add_eq (h : IntegerPair a b w m n) :
    coercing.add a b = w.hold (.overflow .add) (m + n) :=
  calc coercing.add a b = coercing.arithmetic .additive a b addPair := by
        rw [add, h.isNull, h.no_times.1]
        rfl
    _ = addPair (w.value m) (w.value n) := h.arithmetic _ _
    _ = NumericRule.plus.apply (w.value m) (w.value n) := by cases w <;> rfl
    _ = w.hold (.overflow .add) (m + n) :=
        NumericRule.plus.apply_eq_hold rfl h.fits_left h.fits_right

theorem sub_eq (h : IntegerPair a b w m n) :
    coercing.sub a b = w.hold (.overflow .subtract) (m - n) :=
  calc coercing.sub a b = coercing.arithmetic .arithmetic a b NumericRule.minus.apply := by
        rw [sub, h.isNull, h.no_times.2]
        rfl
    _ = NumericRule.minus.apply (w.value m) (w.value n) := h.arithmetic _ _
    _ = w.hold (.overflow .subtract) (m - n) :=
        NumericRule.minus.apply_eq_hold rfl h.fits_left h.fits_right

theorem mul_eq (h : IntegerPair a b w m n) :
    coercing.mul a b = w.hold (.overflow .multiply) (m * n) := by
  rw [mul, h.arithmetic .arithmetic, NumericRule.times.apply_eq_hold rfl h.fits_left h.fits_right]
  rfl

theorem div_eq (h : IntegerPair a b w m n) :
    coercing.div a b = w.divided .divide m n (m.tdiv n) := by
  rw [div, h.arithmetic .arithmetic,
    NumericRule.quotient.applyNonzero_eq_divided rfl h.fits_left h.fits_right id]
  rfl

theorem mod_eq (h : IntegerPair a b w m n) :
    coercing.mod a b = w.divided .remainder m n (m.tmod n) := by
  rw [mod, h.arithmetic .arithmetic, NumericRule.remainder.applyNonzero_eq_divided rfl h.fits_left
    h.fits_right fun _ => Width.fits_tmod h.fits_left n]
  rfl

/-- Equality sees no difference between two values that count as one integer. -/
theorem equal_self (h : IntegerPair a b w m m) : coercing.equal a b = .ok (.boolean true) := by
  have hsame : (w.value m).same (w.value m) = true := by
    cases w <;> simp [Width.value, Value.same]
  rw [equal, h.isNull, h.coercePair .comparison]
  simp [hsame]

theorem exists_recomposed (h : IntegerPair a b w m n) {q : Value} (hq : coercing.div a b = .ok q) :
    ∃ p r, coercing.mul q b = .ok p ∧ coercing.mod a b = .ok r ∧
      coercing.add p r = .ok (w.value m) ∧
      coercing.equal (w.value m) a = .ok (.boolean true) := by
  rw [h.div_eq, Width.divided] at hq
  split_ifs at hq with hzero hleast
  cases hq
  have hquotient : w.Fits (m.tdiv n) := (Width.fits_tdiv_iff h.fits_left hzero).mpr hleast
  have hproduct : w.Fits (m.tdiv n * n) := Width.fits_tdiv_mul h.fits_left n
  have hrest : w.Fits (m.tmod n) := Width.fits_tmod h.fits_left n
  refine ⟨w.value (m.tdiv n * n), w.value (m.tmod n), ?_, ?_, ?_, ?_⟩
  · rw [(of_value hquotient h.right h.right_join).mul_eq, Width.hold_of_fits hproduct]
  · rw [h.mod_eq, Width.divided, if_neg hzero, if_neg hleast]
  · rw [(values hproduct hrest).add_eq, Int.tdiv_mul_add_tmod, Width.hold_of_fits h.fits_left]
  · exact (of_value h.fits_left h.left h.left_join).equal_self

end IntegerPair

theorem Strategy.negative_whole {v : Value} {n : Int} (s : Strategy) (h : v.whole? = some n)
    (hv : v.kind ≠ .boolean) : s.negative v = v.width.hold (.overflow .subtract) (-n) := by
  cases v with
  | integer m =>
    cases h
    exact (Width.hold_short _ _).symm
  | long m =>
    cases h
    exact (Width.hold_long _ _).symm
  | boolean b => exact absurd rfl hv
  | _ => cases h

namespace Strategy

/-- Integers and truth values, not two truth values, are computed exactly in the width of the wider
operand, and nothing wraps: a sum, a difference, a product or an opposite that does not fit is an
overflow, and a quotient and a remainder are refused only for the divisor zero and for the least
integer by minus one. Wherever there is a quotient, it and the remainder make up the dividend. -/
theorem integer_arithmetic_exact {a b : Value} {w : Width} {m n : Int}
    (h : IntegerPair a b w m n) :
    coercing.add a b = w.hold (.overflow .add) (m + n) ∧
    coercing.sub a b = w.hold (.overflow .subtract) (m - n) ∧
    coercing.mul a b = w.hold (.overflow .multiply) (m * n) ∧
    coercing.div a b = w.divided .divide m n (m.tdiv n) ∧
    coercing.mod a b = w.divided .remainder m n (m.tmod n) ∧
    (n ≠ 0 → ¬ (m = w.least ∧ n = -1) → w.Fits (m.tdiv n) ∧ w.Fits (m.tmod n)) ∧
    (a.kind ≠ .boolean →
      coercing.negative a = a.width.hold (.overflow .subtract) (-m)) ∧
    ∀ q, coercing.div a b = .ok q → ∃ p r,
      coercing.mul q b = .ok p ∧ coercing.mod a b = .ok r ∧ coercing.add p r = .ok (w.value m) ∧
        coercing.equal (w.value m) a = .ok (.boolean true) :=
  ⟨h.add_eq, h.sub_eq, h.mul_eq, h.div_eq, h.mod_eq,
    fun hzero hleast =>
      ⟨(Width.fits_tdiv_iff h.fits_left hzero).mpr hleast, Width.fits_tmod h.fits_left n⟩,
    coercing.negative_whole h.left, fun _ hq => h.exists_recomposed hq⟩

/-- The least integer of 64 bits and minus one of 32 bits, and a quotient of mixed widths that only
the wider one holds. -/
theorem integer_arithmetic_exact_at_ends :
    let least : Value := .long Int64.minValue
    let one : Value := .integer (-1)
    IntegerPair least one .long (-9223372036854775808) (-1) ∧
      coercing.add least one = .error (.overflow .add) ∧
      coercing.div least one = .error (.overflow .divide) ∧
      coercing.mod least one = .error (.overflow .remainder) ∧
      coercing.negative least = .error (.overflow .subtract) ∧
      IntegerPair (.integer Int32.minValue) (.long (-1)) .long (-2147483648) (-1) ∧
      coercing.div (.integer Int32.minValue) (.long (-1)) = .ok (.long 2147483648) := by
  intro least one
  have hends : IntegerPair least one .long (-9223372036854775808) (-1) :=
    ⟨rfl, rfl, rfl, by decide⟩
  have hmixed : IntegerPair (.integer Int32.minValue) (.long (-1)) .long (-2147483648) (-1) :=
    ⟨rfl, rfl, rfl, by decide⟩
  obtain ⟨hadd, -, -, hdiv, hmod, -, hnegative, -⟩ := integer_arithmetic_exact hends
  obtain ⟨-, -, -, hquotient, -⟩ := integer_arithmetic_exact hmixed
  exact ⟨hends, hadd, hdiv, hmod, hnegative (by decide), hmixed, hquotient⟩

end Strategy

end Formula
