import Formula.Proofs.Number.Doubles
import Formula.Proofs.Number.Rationals

/-!
# Single precision within double precision

A number of single precision is a number of double precision too: its mantissa is moved to the full
length of the wider format, where nothing is rounded, so both stand for the same rational number.
-/

namespace Formula.Number

theorem roundHalfEven_mul (k : Nat) {den : Nat} (hden : 0 < den) :
    roundHalfEven (k * den) den = k := by
  rw [roundHalfEven, Nat.mul_div_cancel k hden, Nat.mul_mod_left]
  exact if_pos hden

/-- A quotient that is a natural number of units is one after scaling. -/
theorem scaleDown_of_ratio {num den k : Nat} {u : Int} (hden : 0 < den)
    (h : (num : ℚ) / den = k * 2 ^ u) :
    0 < (scaleDown num den u).2 ∧ (scaleDown num den u).1 = k * (scaleDown num den u).2 := by
  have hden' : (den : ℚ) ≠ 0 := Nat.cast_ne_zero.mpr hden.ne'
  rw [div_eq_iff hden'] at h
  rw [scaleDown]
  split_ifs with hu
  · obtain ⟨i, rfl⟩ := Int.eq_ofNat_of_zero_le hu
    rw [zpow_natCast] at h
    refine ⟨Nat.mul_pos hden (Nat.two_pow_pos _), ?_⟩
    have hnum : (num : ℚ) = ((k * (den * 2 ^ i) : ℕ) : ℚ) := by
      rw [h]
      push_cast
      ring
    exact Nat.cast_injective hnum
  · obtain ⟨i, hi⟩ := Int.eq_ofNat_of_zero_le (by omega : 0 ≤ -u)
    refine ⟨hden, ?_⟩
    have hnum : ((num * 2 ^ i : ℕ) : ℚ) = ((k * den : ℕ) : ℚ) := by
      rw [← neg_neg u, hi, zpow_neg, zpow_natCast] at h
      push_cast
      rw [h]
      field_simp
    rw [hi]
    exact Nat.cast_injective hnum

/-- The mantissa filled up to `places` bits behind the leading one. -/
theorem filled_magnitude (m : Nat) (e : Int) {places : Nat} (h : m.log2 ≤ places) :
    (m : ℚ) * 2 ^ e = (m * 2 ^ (places - m.log2) : Nat) * 2 ^ (m.log2 + e - places : Int) := by
  have hexponent : e = ((places - m.log2 : Nat) : Int) + (m.log2 + e - places) := by omega
  have hpower : (2 : ℚ) ^ e = 2 ^ (places - m.log2) * 2 ^ (m.log2 + e - places : Int) := by
    rw [← zpow_natCast, ← zpow_add₀ two_ne_zero, ← hexponent]
  rw [hpower]
  push_cast
  ring

theorem two_pow_le_filled {m places : Nat} (hm : m ≠ 0) (h : m.log2 ≤ places) :
    2 ^ places ≤ m * 2 ^ (places - m.log2) := by
  calc 2 ^ places = 2 ^ m.log2 * 2 ^ (places - m.log2) := by rw [← Nat.pow_add, Nat.add_sub_cancel' h]
    _ ≤ m * 2 ^ (places - m.log2) := Nat.mul_le_mul_right _ (Nat.log2_self_le hm)

theorem filled_lt_two_pow {m places : Nat} (h : m.log2 ≤ places) :
    m * 2 ^ (places - m.log2) < 2 ^ (places + 1) := by
  calc m * 2 ^ (places - m.log2) < 2 ^ (m.log2 + 1) * 2 ^ (places - m.log2) :=
        Nat.mul_lt_mul_of_pos_right Nat.lt_log2_self (Nat.two_pow_pos _)
    _ = 2 ^ (places + 1) := by rw [← Nat.pow_add, Nat.add_right_comm, Nat.add_sub_cancel' h]

section

variable {num den m : Nat} {e : Int} (hden : 0 < den) (hm : m ≠ 0) (hlog : m.log2 ≤ 52)
  (hratio : (num : ℚ) / den = m * 2 ^ e) (hsize : (num.log2 : Int) - den.log2 = m.log2 + e)
  (hlow : -1022 ≤ m.log2 + e)
include hden hm hlog hratio hsize hlow

theorem unitExponent_of_ratio : binary64.unitExponent num den = m.log2 + e - (52 : Nat) := by
  have hprecision : binary64.precision = 53 := rfl
  have hleast : binary64.leastExponent = -1074 := rfl
  have hplaces : m.log2 ≤ 53 := by omega
  obtain ⟨hpos, hscaled⟩ := scaleDown_of_ratio hden (hratio.trans (filled_magnitude m e hplaces))
  have hfull : ¬ (scaleDown num den (m.log2 + e - (53 : Nat))).1 /
      (scaleDown num den (m.log2 + e - (53 : Nat))).2 < Nat.pow 2 53 := by
    rw [hscaled, Nat.mul_div_cancel _ hpos, not_lt]
    exact two_pow_le_filled hm hplaces
  rw [BinaryFormat.unitExponent, hprecision, hleast]
  dsimp only
  rw [hsize, if_neg hfull]
  omega

/-- The bits of a number that needs no rounding: the place of its unit and its full mantissa. -/
theorem magnitudeBits_of_ratio (hhigh : m.log2 + e ≤ 1023) : binary64.magnitudeBits num den =
    (m.log2 + e + 1022).toNat * 2 ^ 52 + m * 2 ^ (52 - m.log2) := by
  have hleast : binary64.leastExponent = -1074 := rfl
  have hhidden : binary64.hiddenBit = 2 ^ 52 := rfl
  have hinfinity : binary64.infinityBits = 2047 * 2 ^ 52 := rfl
  have hnum : num ≠ 0 := by
    rintro rfl
    have hne : (m : ℚ) * 2 ^ e ≠ 0 := mul_ne_zero (Nat.cast_ne_zero.mpr hm) (zpow_ne_zero _ two_ne_zero)
    rw [Nat.cast_zero, zero_div] at hratio
    exact hne hratio.symm
  obtain ⟨hpos, hscaled⟩ := scaleDown_of_ratio hden (hratio.trans (filled_magnitude m e hlog))
  have hfilled := filled_lt_two_pow hlog
  have hplace : (m.log2 + e - (52 : Nat) - -1074 : Int).toNat = (m.log2 + e + 1022).toNat := by omega
  rw [BinaryFormat.magnitudeBits, if_neg hnum]
  dsimp only
  rw [unitExponent_of_ratio hden hm hlog hratio hsize hlow, hleast, hhidden, hinfinity, hplace,
    hscaled, roundHalfEven_mul _ hpos]
  have hbound : (m.log2 + e + 1022).toNat ≤ 2045 := by omega
  refine Nat.min_eq_left ?_
  calc (m.log2 + e + 1022).toNat * 2 ^ 52 + m * 2 ^ (52 - m.log2)
      ≤ 2045 * 2 ^ 52 + 2 ^ (52 + 1) := Nat.add_le_add (Nat.mul_le_mul_right _ hbound) hfilled.le
    _ = 2047 * 2 ^ 52 := by rfl

end

theorem log2_mul_two_pow {m : Nat} (hm : m ≠ 0) (k : Nat) : (m * 2 ^ k).log2 = m.log2 + k := by
  have hne : m * 2 ^ k ≠ 0 := Nat.mul_ne_zero hm (Nat.two_pow_pos k).ne'
  refine (Nat.log2_eq_iff hne).mpr ⟨?_, ?_⟩
  · rw [Nat.pow_add]
    exact Nat.mul_le_mul_right _ (Nat.log2_self_le hm)
  · rw [Nat.add_right_comm, Nat.pow_add]
    exact Nat.mul_lt_mul_of_pos_right Nat.lt_log2_self (Nat.two_pow_pos k)

/-- The bits of a number of another format, if its mantissa is not longer and its size is in range. -/
theorem convertBits_of_fits {m : Nat} {e : Int} (negative : Bool) (hm : m ≠ 0) (hlog : m.log2 ≤ 52)
    (hlow : -1022 ≤ m.log2 + e) (hhigh : m.log2 + e ≤ 1023) :
    binary64.convertBits (.finite negative m e) =
      (m.log2 + e + 1022).toNat * 2 ^ 52 + m * 2 ^ (52 - m.log2) +
        if negative then binary64.signBit else 0 := by
  have hone : (Nat.log2 1 : Int) = 0 := by decide
  rw [BinaryFormat.convertBits]
  by_cases he : 0 ≤ e
  · obtain ⟨k, rfl⟩ := Int.eq_ofNat_of_zero_le he
    have hratio : ((m * 2 ^ k : Nat) : ℚ) / (1 : Nat) = m * 2 ^ (k : Int) := by
      rw [Nat.cast_one, div_one, zpow_natCast]
      push_cast
      rfl
    have hsize : ((m * 2 ^ k).log2 : Int) - Nat.log2 1 = m.log2 + k := by
      rw [log2_mul_two_pow hm, hone]
      omega
    rw [if_pos he, Int.toNat_natCast, Nat.pow_eq, BinaryFormat.nearestBits,
      magnitudeBits_of_ratio Nat.one_pos hm hlog hratio hsize hlow hhigh]
  · obtain ⟨k, hk⟩ := Int.eq_ofNat_of_zero_le (by omega : 0 ≤ -e)
    have hratio : (m : ℚ) / (2 ^ k : Nat) = m * 2 ^ e := by
      rw [← neg_neg e, hk, zpow_neg, zpow_natCast, div_eq_mul_inv]
      push_cast
      rfl
    have hsize : (m.log2 : Int) - (2 ^ k : Nat).log2 = m.log2 + e := by
      rw [Nat.log2_two_pow]
      omega
    rw [if_neg he, hk, Int.toNat_natCast, Nat.pow_eq, BinaryFormat.nearestBits,
      magnitudeBits_of_ratio (Nat.two_pow_pos k) hm hlog hratio hsize hlow hhigh]

theorem read_of_full {place mantissa : Nat} (negative : Bool) (hlow : 2 ^ 52 ≤ mantissa)
    (hhigh : mantissa < 2 ^ 53) (hplace : place < 2046) :
    binary64.read (place * 2 ^ 52 + mantissa + if negative then binary64.signBit else 0) =
      .finite negative mantissa (-1074 + place) := by
  have hsign : binary64.signBit = 2 ^ 63 := rfl
  generalize hbits : place * 2 ^ 52 + mantissa + (if negative then binary64.signBit else 0) = bits
  have hfield : bits / 2 ^ 52 % 2048 = place + 1 := by
    rw [← hbits, hsign]
    cases negative <;> simp <;> omega
  have hfraction : bits % 2 ^ 52 + 2 ^ 52 = mantissa := by
    rw [← hbits, hsign]
    cases negative <;> simp <;> omega
  have hnegative : decide (bits / 2 ^ 63 % 2 = 1) = negative := by
    rw [← hbits, hsign]
    cases negative <;> simp <;> omega
  rw [BinaryFormat.read]
  change (if bits / 2 ^ 52 % 2048 = 2047 then _ else if bits / 2 ^ 52 % 2048 = 0 then _
    else FloatReading.finite (decide (bits / 2 ^ 63 % 2 = 1)) (bits % 2 ^ 52 + 2 ^ 52)
      (-1074 + (bits / 2 ^ 52 % 2048 : Nat) - 1)) = _
  rw [hfield, hfraction, hnegative, if_neg (by omega), if_neg (by omega)]
  congr 1
  omega

theorem rational?_of_fits {m : Nat} {e : Int} (negative : Bool) (hm : m ≠ 0) (hlog : m.log2 ≤ 52)
    (hlow : -1022 ≤ m.log2 + e) (hhigh : m.log2 + e ≤ 1023) :
    (readDouble (doubleOfBits (binary64.convertBits (.finite negative m e)))).rational? =
      FloatReading.rational? (.finite negative m e) := by
  have hlower := two_pow_le_filled hm hlog
  have hupper := filled_lt_two_pow hlog
  have hplace : (m.log2 + e + 1022).toNat < 2046 := by omega
  have hfinite : FiniteBits (binary64.convertBits (.finite negative m e)) := by
    rw [convertBits_of_fits negative hm hlog hlow hhigh]
    refine finiteBits_add_sign ?_ negative
    calc (m.log2 + e + 1022).toNat * 2 ^ 52 + m * 2 ^ (52 - m.log2)
        < 2045 * 2 ^ 52 + 2 ^ (52 + 1) := Nat.add_lt_add_of_le_of_lt (by omega) hupper
      _ = 2047 * 2 ^ 52 := by rfl
  have hexponent : (-1074 + (m.log2 + e + 1022).toNat : Int) = m.log2 + e - (52 : Nat) := by omega
  rw [readDouble, hfinite.toBits_doubleOfBits, convertBits_of_fits negative hm hlog hlow hhigh,
    read_of_full negative hlower hupper hplace, hexponent, FloatReading.rational?,
    FloatReading.rational?, filled_magnitude m e hlog]

theorem rational?_zero (negative : Bool) (e : Int) :
    (readDouble (doubleOfBits (binary64.convertBits (.finite negative 0 e)))).rational? =
      FloatReading.rational? (.finite negative 0 e) := by
  have hmagnitude (den : Nat) : binary64.magnitudeBits 0 den = 0 := if_pos rfl
  have hbits : binary64.convertBits (.finite negative 0 e) =
      if negative then binary64.signBit else 0 := by
    rw [BinaryFormat.convertBits, Nat.zero_mul, BinaryFormat.nearestBits, BinaryFormat.nearestBits,
      hmagnitude, hmagnitude, Nat.zero_add, ite_self]
  have hread : readDouble (doubleOfBits (if negative then binary64.signBit else 0)) =
      .finite negative 0 (-1074) := by
    cases negative <;> rfl
  rw [hbits, hread, FloatReading.rational?, FloatReading.rational?, Nat.cast_zero, zero_mul, zero_mul]

/-- Nothing is lost when a number of single precision becomes one of double precision. -/
theorem rational?_widen (x : Float32) : (readDouble (widen x)).rational? = (readSingle x).rational? := by
  rw [widen]
  cases hx : readSingle x with
  | nan => rfl
  | infinite negative => cases negative <;> rfl
  | finite negative m e =>
    have hprecision : binary32.precision = 24 := rfl
    have hleast : binary32.leastExponent = -149 := rfl
    have hlast : (binary32.lastExponent : Int) = 255 := rfl
    obtain ⟨hmantissa, hlow, hhigh⟩ := binary32.bounds_of_read (by decide) hx
    rw [hprecision] at hmantissa
    rw [hleast] at hlow
    rw [hleast, hlast] at hhigh
    by_cases hm : m = 0
    · subst hm
      exact rational?_zero negative e
    · have hlog : m.log2 < 24 := (Nat.log2_lt hm).mpr hmantissa
      exact rational?_of_fits negative hm (by omega) (by omega) (by omega)

end Formula.Number
