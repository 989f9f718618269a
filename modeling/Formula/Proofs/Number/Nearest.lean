import Formula.Proofs.Number.Widening

/-!
# The double nearest to an integer

The unit of the mantissa of a double divides every double that is as large, and the doubles that are
smaller stay below a multiple of it. So the multiple of the unit that is nearest to an integer is the
double nearest to it, and the rule for halves is that for the last bit of the mantissa.
-/

namespace Formula.Number

/-- No double is nearer to the integer, and if another one is as near the last bit is zero. -/
def NearestDouble (x : Float) (n : Int) : Prop :=
  ∃ q, (readDouble x).rational? = some q ∧
    ∀ y r, (readDouble y).rational? = some r →
      |q - n| ≤ |r - n| ∧ (|r - n| = |q - n| → r = q ∨ x.toBits.toNat % 2 = 0)

theorem roundHalfEven_nearest (num : Nat) {den : Nat} (hden : 0 < den) (j : Int) :
    (roundHalfEven num den * den - num : Int).natAbs ≤ (j * den - num).natAbs ∧
      ((j * den - num).natAbs = (roundHalfEven num den * den - num : Int).natAbs →
        j = roundHalfEven num den ∨ roundHalfEven num den % 2 = 0) := by
  have hdivision : (num : Int) = (num / den : Nat) * den + (num % den : Nat) := by
    exact_mod_cast (Nat.div_add_mod' num den).symm
  have hrest : num % den < den := Nat.mod_lt _ hden
  have hbelow (h : j < (num / den : Nat)) : j * den ≤ (num / den : Nat) * den - den := by
    nlinarith
  have habove (h : (num / den : Nat) + 1 < j) : ((num / den : Nat) * den + 2 * den : Int) ≤ j * den := by
    nlinarith
  have hnext : (((num / den + 1 : Nat) : Int) * den) = (num / den : Nat) * den + den := by
    push_cast
    ring
  rw [roundHalfEven]
  rcases lt_trichotomy j (num / den : Nat) with h | rfl | h
  · have := hbelow h
    split_ifs <;> omega
  · split_ifs <;> omega
  · rcases (Int.add_one_le_iff.mpr h).eq_or_lt with h | h
    · have hj : j * den = (num / den : Nat) * den + den := by
        rw [← h]
        ring
      split_ifs <;> omega
    · have := habove h
      split_ifs <;> omega

/-- Among the multiples of a power of two, the rounded one is nearest. -/
theorem nearest_multiple (a i : Nat) (j : Int) :
    |(roundHalfEven a (2 ^ i) : ℚ) * 2 ^ i - a| ≤ |(j : ℚ) * 2 ^ i - a| ∧
      (|(j : ℚ) * 2 ^ i - a| = |(roundHalfEven a (2 ^ i) : ℚ) * 2 ^ i - a| →
        j = roundHalfEven a (2 ^ i) ∨ roundHalfEven a (2 ^ i) % 2 = 0) := by
  have hdistance (m : Int) :
      |(m : ℚ) * 2 ^ i - a| = ((m * (2 ^ i : Nat) - a : Int).natAbs : ℚ) := by
    rw [Nat.cast_natAbs]
    push_cast
    rfl
  have hrounded := hdistance (roundHalfEven a (2 ^ i))
  rw [Int.cast_natCast] at hrounded
  rw [hdistance, hrounded, Nat.cast_le, Nat.cast_inj]
  exact roundHalfEven_nearest a (Nat.two_pow_pos i) j

/-- A double is an integer of at most 53 bits times a power of two. -/
theorem exists_mantissa {y : Float} {r : ℚ} (h : (readDouble y).rational? = some r) :
    ∃ m e : Int, |(m : ℚ)| < 2 ^ 53 ∧ r = m * 2 ^ e := by
  cases hy : readDouble y with
  | nan =>
    rw [hy] at h
    cases h
  | infinite negative =>
    rw [hy] at h
    cases h
  | finite negative m e =>
    have hm : m < 2 ^ 53 := (binary64.bounds_of_read (by decide) hy).1
    have hbound : (m : ℚ) < 2 ^ 53 := by exact_mod_cast hm
    rw [hy, FloatReading.rational?, Option.some.injEq] at h
    subst h
    cases negative with
    | false => exact ⟨m, e, by simpa using hbound, by simp⟩
    | true => exact ⟨-m, e, by simpa using hbound, by simp⟩

/-- A number that is no multiple of the unit of a larger one is smaller than it. -/
theorem abs_lt_of_fine {m e : Int} {i : Nat} (hm : |(m : ℚ)| < 2 ^ 53) (he : e < i) :
    |(m : ℚ) * 2 ^ e| < 2 ^ 52 * 2 ^ i := by
  have hpower : (2 : ℚ) ^ e ≤ 2 ^ ((i : Int) - 1) := zpow_le_zpow_right₀ one_le_two (by omega)
  have hunit : (2 : ℚ) ^ ((i : Int) - 1) * 2 = 2 ^ i := by
    rw [← zpow_add_one₀ two_ne_zero, sub_add_cancel, zpow_natCast]
  have hpositive : (0 : ℚ) < 2 ^ e := by positivity
  calc |(m : ℚ) * 2 ^ e| = |(m : ℚ)| * 2 ^ e := by rw [abs_mul, abs_of_pos hpositive]
    _ < 2 ^ 53 * 2 ^ e := mul_lt_mul_of_pos_right hm hpositive
    _ ≤ 2 ^ 53 * 2 ^ ((i : Int) - 1) := mul_le_mul_of_nonneg_left hpower (by norm_num)
    _ = 2 ^ 52 * (2 ^ ((i : Int) - 1) * 2) := by ring
    _ = 2 ^ 52 * 2 ^ i := by rw [hunit]

/-- Among the numbers with a mantissa of 53 bits, the nearest multiple of the unit is nearest. -/
theorem nearest_mantissa {a i : Nat} (ha : 2 ^ 52 * 2 ^ i ≤ a) {m e : Int}
    (hm : |(m : ℚ)| < 2 ^ 53) :
    |(roundHalfEven a (2 ^ i) : ℚ) * 2 ^ i - a| ≤ |(m : ℚ) * 2 ^ e - a| ∧
      (|(m : ℚ) * 2 ^ e - a| = |(roundHalfEven a (2 ^ i) : ℚ) * 2 ^ i - a| →
        (m : ℚ) * 2 ^ e = roundHalfEven a (2 ^ i) * 2 ^ i ∨ roundHalfEven a (2 ^ i) % 2 = 0) := by
  rcases le_or_gt (i : Int) e with he | he
  · obtain ⟨d, hd⟩ := Int.eq_ofNat_of_zero_le (Int.sub_nonneg.mpr he)
    have hmultiple : (m : ℚ) * 2 ^ e = ((m * 2 ^ d : Int) : ℚ) * 2 ^ i := by
      have hsplit : e = (d : Int) + (i : Int) := by omega
      rw [hsplit, zpow_add₀ two_ne_zero, zpow_natCast, zpow_natCast]
      push_cast
      ring
    obtain ⟨hle, htie⟩ := nearest_multiple a i (m * 2 ^ d)
    rw [hmultiple]
    refine ⟨hle, fun h => (htie h).imp_left fun heq => ?_⟩
    rw [heq, Int.cast_natCast]
  · have hsmall : (m : ℚ) * 2 ^ e < 2 ^ 52 * 2 ^ i := lt_of_abs_lt (abs_lt_of_fine hm he)
    have ha' : (2 ^ 52 * 2 ^ i : ℚ) ≤ a := by exact_mod_cast ha
    have hfull : |((2 ^ 52 : Int) : ℚ) * 2 ^ i - a| = a - 2 ^ 52 * 2 ^ i := by
      rw [Int.cast_pow, Int.cast_ofNat, abs_of_nonpos (sub_nonpos.mpr ha'), neg_sub]
    have hnear : |(roundHalfEven a (2 ^ i) : ℚ) * 2 ^ i - a| < |(m : ℚ) * 2 ^ e - a| :=
      calc |(roundHalfEven a (2 ^ i) : ℚ) * 2 ^ i - a|
          ≤ |((2 ^ 52 : Int) : ℚ) * 2 ^ i - a| := (nearest_multiple a i (2 ^ 52)).1
        _ = a - 2 ^ 52 * 2 ^ i := hfull
        _ < a - m * 2 ^ e := sub_lt_sub_left hsmall _
        _ = |(m : ℚ) * 2 ^ e - a| := by
          rw [abs_of_nonpos (sub_nonpos.mpr (hsmall.le.trans ha')), neg_sub]
    exact ⟨hnear.le, fun h => absurd h hnear.ne'⟩

/-- A natural number in units of the last bit of its mantissa, rounded. -/
def roundedMantissa (a : Nat) : Nat :=
  roundHalfEven (scaleDown a 1 ((a.log2 : Int) - 52)).1 (scaleDown a 1 ((a.log2 : Int) - 52)).2

section

variable {a : Nat} (ha : a ≠ 0) (hlog : a.log2 < 1023)
include ha

theorem roundedMantissa_bounds : 2 ^ 52 ≤ roundedMantissa a ∧ roundedMantissa a ≤ 2 ^ 53 := by
  obtain ⟨hlower, hupper⟩ := scaleDown_div a 52 ha
  have hquotient (num den : Nat) : num / den ≤ roundHalfEven num den := by
    rw [roundHalfEven]
    split_ifs <;> omega
  exact ⟨hlower.trans (hquotient _ _), (roundHalfEven_le _ _).trans hupper⟩

/-- No number with a mantissa of 53 bits is nearer than the rounded one. -/
theorem roundedMantissa_nearest {m e : Int} (hm : |(m : ℚ)| < 2 ^ 53) :
    |(roundedMantissa a : ℚ) * 2 ^ ((a.log2 : Int) - 52) - a| ≤ |(m : ℚ) * 2 ^ e - a| ∧
      (|(m : ℚ) * 2 ^ e - a| = |(roundedMantissa a : ℚ) * 2 ^ ((a.log2 : Int) - 52) - a| →
        (m : ℚ) * 2 ^ e = roundedMantissa a * 2 ^ ((a.log2 : Int) - 52) ∨
          roundedMantissa a % 2 = 0) := by
  rcases le_or_gt 52 a.log2 with hlarge | hsmall
  · obtain ⟨i, hi⟩ := Nat.exists_eq_add_of_le hlarge
    have hunit : (a.log2 : Int) - 52 = i := by omega
    have hrounded : roundedMantissa a = roundHalfEven a (2 ^ i) := by
      rw [roundedMantissa, hunit, scaleDown, if_pos (Int.natCast_nonneg i), Int.toNat_natCast,
        Nat.one_mul, Nat.pow_eq]
    have hfull : 2 ^ 52 * 2 ^ i ≤ a := by
      rw [← Nat.pow_add, ← hi]
      exact Nat.log2_self_le ha
    rw [hrounded, hunit, zpow_natCast]
    exact nearest_mantissa hfull hm
  · obtain ⟨i, hi⟩ := Nat.exists_eq_add_of_lt hsmall
    have hunit : (a.log2 : Int) - 52 = -((i + 1 : Nat) : Int) := by omega
    have hrounded : roundedMantissa a = a * 2 ^ (i + 1) := by
      have hone := roundHalfEven_mul (a * 2 ^ (i + 1)) Nat.one_pos
      rw [Nat.mul_one] at hone
      rw [roundedMantissa, hunit, scaleDown, if_neg (by omega), neg_neg, Int.toNat_natCast,
        Nat.pow_eq, hone]
    have hexact : (roundedMantissa a : ℚ) * 2 ^ ((a.log2 : Int) - 52) = a := by
      rw [hrounded, hunit, zpow_neg, zpow_natCast]
      push_cast
      exact mul_inv_cancel_right₀ (by positivity) _
    rw [hexact, sub_self, abs_zero]
    exact ⟨abs_nonneg _, fun h => .inl (sub_eq_zero.mp (abs_eq_zero.mp h))⟩

include hlog

theorem magnitudeBits_one :
    binary64.magnitudeBits a 1 = (a.log2 + 1022) * 2 ^ 52 + roundedMantissa a := by
  have hleast : binary64.leastExponent = -1074 := rfl
  have hhidden : binary64.hiddenBit = 2 ^ 52 := rfl
  have hinfinity : binary64.infinityBits = 2047 * 2 ^ 52 := rfl
  have hplace : ((a.log2 : Int) - 52 - -1074).toNat = a.log2 + 1022 := by omega
  have hbound := (roundedMantissa_bounds ha).2
  rw [BinaryFormat.magnitudeBits, if_neg ha]
  dsimp only
  rw [unitExponent_eq ha, hleast, hhidden, hinfinity, hplace, ← roundedMantissa]
  exact Nat.min_eq_left (by omega)

/-- The double of an integer is its rounded mantissa in units of its last bit. -/
theorem readDouble_magnitude (negative : Bool) :
    let x := doubleOfBits (binary64.nearestBits negative a 1)
    (readDouble x).rational? = FloatReading.rational?
      (.finite negative (roundedMantissa a) ((a.log2 : Int) - 52)) ∧
      x.toBits.toNat % 2 = roundedMantissa a % 2 := by
  intro x
  have hfinite := finiteBits_add_sign (magnitudeBits_lt hlog) negative
  have hbits : x.toBits.toNat = (a.log2 + 1022) * 2 ^ 52 + roundedMantissa a +
      if negative then binary64.signBit else 0 := by
    rw [← magnitudeBits_one ha hlog]
    exact hfinite.toBits_doubleOfBits
  obtain ⟨hlower, hupper⟩ := roundedMantissa_bounds ha
  constructor
  · rw [readDouble, hbits]
    rcases hupper.lt_or_eq with hk | hk
    · have hexponent : (-1074 + (a.log2 + 1022 : Nat) : Int) = (a.log2 : Int) - 52 := by omega
      rw [read_of_full negative hlower hk (by omega), hexponent]
    · -- The mantissa was rounded up to the next power of two, so the unit is twice as large.
      have hcarry : (a.log2 + 1022) * 2 ^ 52 + roundedMantissa a =
          (a.log2 + 1023) * 2 ^ 52 + 2 ^ 52 := by omega
      have hexponent : (-1074 + (a.log2 + 1023 : Nat) : Int) = (a.log2 : Int) - 52 + 1 := by omega
      have hvalue : ((2 ^ 52 : Nat) : ℚ) * 2 ^ ((a.log2 : Int) - 52 + 1) =
          ((2 ^ 53 : Nat) : ℚ) * 2 ^ ((a.log2 : Int) - 52) := by
        rw [zpow_add_one₀ two_ne_zero]
        push_cast
        ring
      rw [hcarry, read_of_full negative le_rfl (by norm_num) (by omega), hexponent, hk,
        FloatReading.rational?, FloatReading.rational?, hvalue]
  · have hsign : binary64.signBit = 2 ^ 63 := rfl
    rw [hbits, hsign]
    split_ifs <;> omega

end

theorem nearestDouble_zero : NearestDouble (doubleOfInt 0) 0 := by
  have hzero : (readDouble (doubleOfInt 0)).rational? = some 0 := by
    have hread : readDouble (doubleOfInt 0) = .finite false 0 (-1074) := rfl
    rw [hread, FloatReading.rational?]
    simp
  refine ⟨0, hzero, fun y r _ => ?_⟩
  rw [Int.cast_zero, sub_zero, sub_zero, abs_zero]
  exact ⟨abs_nonneg r, fun h => .inl (abs_eq_zero.mp h)⟩

/-- An integer of at most 1023 bits becomes the double nearest to it. -/
theorem nearestDouble_doubleOfInt {n : Int} (hlog : n.natAbs.log2 < 1023) :
    NearestDouble (doubleOfInt n) n := by
  by_cases hn : n.natAbs = 0
  · rw [Int.natAbs_eq_zero.mp hn]
    exact nearestDouble_zero
  · obtain ⟨hvalue, hbits⟩ := readDouble_magnitude hn hlog (n < 0)
    refine ⟨_, hvalue, fun y r hr => ?_⟩
    obtain ⟨m, e, hm, rfl⟩ := exists_mantissa hr
    rw [← doubleOfInt] at hbits
    rw [hbits]
    rcases lt_or_ge n 0 with hnegative | hpositive
    · have hsize : (n : ℚ) = -(n.natAbs : ℚ) := by
        rw [Nat.cast_natAbs, abs_of_neg hnegative, Int.cast_neg, neg_neg]
      have hm' : |((-m : Int) : ℚ)| < 2 ^ 53 := by rwa [Int.cast_neg, abs_neg]
      obtain ⟨hle, htie⟩ := roundedMantissa_nearest hn hm' (e := e)
      have hmirror (v : ℚ) : |-v - n| = |v - n.natAbs| := by
        rw [hsize, neg_sub_neg, abs_sub_comm]
      have hr : |(m : ℚ) * 2 ^ e - n| = |((-m : Int) : ℚ) * 2 ^ e - n.natAbs| := by
        rw [← hmirror, Int.cast_neg, neg_mul, neg_neg]
      rw [if_pos (decide_eq_true hnegative), hmirror, hr]
      refine ⟨hle, fun h => (htie h).imp_left fun heq => ?_⟩
      rw [← heq, Int.cast_neg, neg_mul, neg_neg]
    · have hsize : (n : ℚ) = (n.natAbs : ℚ) := by
        rw [Nat.cast_natAbs, abs_of_nonneg hpositive]
      rw [if_neg (by simpa using hpositive), hsize]
      exact roundedMantissa_nearest hn hm

end Formula.Number
