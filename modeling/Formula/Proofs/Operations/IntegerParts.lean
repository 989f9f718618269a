import Formula.Functions.Numeric
import Formula.Proofs.Number.Widening
import Formula.Proofs.Operations.Widths

/-!
# Integer parts of floating point numbers

A floating point number is taken for an integer by cutting off its fraction, both in conversions and in
the function that does nothing else. A conversion is refused where the integer part does not fit, with
one exception: `2 ^ 63`, which is one beyond the integers of 64 bits, becomes the greatest of them. The
function refuses that number too.
-/

namespace Formula

open Number Strategy

namespace Width

/-- The smallest width that holds the integer, if any does. -/
def narrowest (n : Int) : Width := if FitsInt32 n then .short else .long

theorem not_fitsInt32_of_not_fitsInt64 {n : Int} (h : ¬ FitsInt64 n) : ¬ FitsInt32 n :=
  fun hshort => h (Fits.join (w := .short) hshort .long)

theorem hold_narrowest (refusal : EvalError) (n : Int) : (narrowest n).hold refusal n =
    match int64? n with
    | none => .error refusal
    | some w =>
      match int32? w.toInt with
      | some v => .ok (.integer v)
      | none => .ok (.long w) := by
  by_cases hlong : FitsInt64 n
  · have hword : (Int64.ofInt n).toInt = n := toInt_ofInt_int64 hlong
    rw [int64?, if_pos hlong]
    dsimp only
    rw [hword, int32?, narrowest]
    by_cases hshort : FitsInt32 n
    · rw [if_pos hshort, if_pos hshort, hold_of_fits (w := .short) hshort]
      rfl
    · rw [if_neg hshort, if_neg hshort, hold_of_fits (w := .long) hlong]
      rfl
  · have hshort : ¬ FitsInt32 n := not_fitsInt32_of_not_fitsInt64 hlong
    rw [int64?, if_neg hlong, narrowest, if_neg hshort, hold_of_not_fits (w := .long) hlong]

/-- An integer that 64 bits do not hold is not held by 32 bits either. -/
theorem int64?_bind_int32? (n : Int) : ((int64? n).bind fun w => int32? w.toInt) = int32? n := by
  by_cases hlong : FitsInt64 n
  · rw [int64?, if_pos hlong, Option.bind_some, toInt_ofInt_int64 hlong]
  · have hshort : ¬ FitsInt32 n := not_fitsInt32_of_not_fitsInt64 hlong
    rw [int64?, if_neg hlong, Option.bind_none, int32?, if_neg hshort]

end Width

namespace Value

def reading? : Value → Option FloatReading
  | .float x => some (readSingle x)
  | .double x => some (readDouble x)
  | _ => none

variable {v : Value} {r : FloatReading}

theorem mantissa_lt_of_reading? {negative : Bool} {m : Nat} {e : Int}
    (h : v.reading? = some (.finite negative m e)) : m < 2 ^ 53 := by
  cases v with
  | float x =>
    have hbound := (binary32.bounds_of_read (by decide) (Option.some.inj h)).1
    exact hbound.trans (by decide)
  | double x => exact (binary64.bounds_of_read (by decide) (Option.some.inj h)).1
  | _ => cases h

/-- The number that is `2 ^ 63` without its fraction has no fraction. -/
theorem integerPart_eq_iff (h : v.reading? = some r) {q : ℚ} (hq : r.rational? = some q) :
    integerPart q = 9223372036854775808 ↔ q = 2 ^ 63 := by
  constructor
  · intro hpart
    cases r with
    | finite negative m e =>
      rw [FloatReading.eq_of_integerPart (mantissa_lt_of_reading? h) hq (by omega), hpart]
      norm_num
    | _ => cases hq
  · rintro rfl
    have hwhole : (2 : ℚ) ^ 63 = ((9223372036854775808 : Int) : ℚ) := by norm_num
    rw [hwhole, integerPart_of_nonneg (by norm_num), Int.floor_intCast]

theorem exists_toDouble? (h : v.reading? = some r) :
    ∃ x, v.toDouble? = some x ∧ (readDouble x).rational? = r.rational? := by
  cases v with
  | float x =>
    cases h
    exact ⟨widen x, rfl, rational?_widen x⟩
  | double x =>
    cases h
    exact ⟨x, rfl, rfl⟩
  | _ => cases h

end Value

namespace Coercing

variable {v : Value} {r : FloatReading} (h : v.reading? = some r)
include h

theorem toLong_of_reading (target : Kind) : toLong v target =
    match wholePart? r with
    | some n => .ok n
    | none => refuse v target .outOfRange := by
  cases v <;> cases h <;> rfl

theorem wholePart?_eq {q : ℚ} (hq : r.rational? = some q) : wholePart? r =
    if q = 2 ^ 63 then some Int64.maxValue else int64? (integerPart q) := by
  have hedge := Value.integerPart_eq_iff h hq
  rw [wholePart?, r.truncate?_eq, hq, Option.map_some]
  dsimp only
  by_cases hlimit : q = 2 ^ 63
  · rw [if_pos (hedge.mpr hlimit), if_pos hlimit]
    rfl
  · rw [if_neg (mt hedge.mp hlimit), if_neg hlimit]

theorem convert_long_of_reading : convert v .long =
    match wholePart? r with
    | some n => .ok (.long n)
    | none => refuse v .long .outOfRange := by
  have hconvert : convert v .long = (toLong v .long).map .long := by cases v <;> cases h <;> rfl
  rw [hconvert, toLong_of_reading h]
  cases wholePart? r <;> rfl

theorem convert_integer_of_reading : convert v .integer =
    match (wholePart? r).bind fun n => int32? n.toInt with
    | some n => .ok (.integer n)
    | none => refuse v .integer .outOfRange := by
  have hconvert : convert v .integer = toInteger v := by cases v <;> cases h <;> rfl
  rw [hconvert, toInteger, toLong_of_reading h]
  cases wholePart? r with
  | none => rfl
  | some n => cases hn : int32? n.toInt <;> simp [hn]

variable {q : ℚ} (hq : r.rational? = some q)
include hq

theorem convert_long_of_ne (hne : q ≠ 2 ^ 63) : convert v .long =
    Width.long.hold (.conversion v.kind .long .outOfRange) (integerPart q) := by
  rw [convert_long_of_reading h, wholePart?_eq h hq, if_neg hne, Width.hold_long]
  cases int64? (integerPart q) <;> rfl

theorem convert_long_of_eq (heq : q = 2 ^ 63) : convert v .long = .ok (.long Int64.maxValue) := by
  rw [convert_long_of_reading h, wholePart?_eq h hq, if_pos heq]

theorem convert_integer_eq : convert v .integer =
    Width.short.hold (.conversion v.kind .integer .outOfRange) (integerPart q) := by
  have hword : ((wholePart? r).bind fun n => int32? n.toInt) = int32? (integerPart q) := by
    rw [wholePart?_eq h hq]
    split_ifs with hlimit
    · rw [(Value.integerPart_eq_iff h hq).mpr hlimit]
      rfl
    · exact Width.int64?_bind_int32? _
  rw [convert_integer_of_reading h, hword, Width.hold_short]
  cases int32? (integerPart q) <;> rfl

end Coercing

namespace Functions

variable {v : Value} {r : FloatReading} (s : Strategy) (h : v.reading? = some r)
include h

/-- The function reads a number of single precision in double precision, where it is the same. -/
theorem trunc_of_reading : trunc s [v] =
    match r.truncate?.bind int64? with
    | none => .error (.overflow .truncate)
    | some w =>
      match int32? w.toInt with
      | some n => .ok (.integer n)
      | none => .ok (.long w) := by
  obtain ⟨x, hx, hsame⟩ := Value.exists_toDouble? h
  have hargument : Arguments.toDouble? s v = .ok (some x) := by rw [Arguments.toDouble?, hx]
  have hvalue : r.truncate? = (readDouble x).truncate? := by
    rw [r.truncate?_eq, ← hsame, ← FloatReading.truncate?_eq]
  rw [hvalue]
  cases hpart : (readDouble x).truncate?.bind int64? with
  | none => simp only [trunc, Arguments.unary, hargument, hpart]
  | some w =>
    cases hword : int32? w.toInt <;>
      simp only [trunc, Arguments.unary, hargument, hpart, hword]

theorem trunc_eq {q : ℚ} (hq : r.rational? = some q) : trunc s [v] =
    (Width.narrowest (integerPart q)).hold (.overflow .truncate) (integerPart q) := by
  rw [trunc_of_reading s h, r.truncate?_eq, hq, Option.map_some, Option.bind_some,
    Width.hold_narrowest]

end Functions

namespace Strategy

/-- A finite number is converted to the integers of 32 bits by its integer part exactly where that
fits, and the function takes exactly the numbers whose integer part fits 64 bits. So does the
conversion to 64 bits, but for `2 ^ 63`. All three refuse infinities and what is no number. -/
theorem integer_parts_exact {v : Value} {r : FloatReading} (h : v.reading? = some r) (s : Strategy) :
    (r.rational? = none →
      coercing.convert v .long = .error (.conversion v.kind .long .outOfRange) ∧
      coercing.convert v .integer = .error (.conversion v.kind .integer .outOfRange) ∧
      Functions.trunc s [v] = .error (.overflow .truncate)) ∧
    ∀ q, r.rational? = some q →
      coercing.convert v .integer =
        Width.short.hold (.conversion v.kind .integer .outOfRange) (integerPart q) ∧
      Functions.trunc s [v] =
        (Width.narrowest (integerPart q)).hold (.overflow .truncate) (integerPart q) ∧
      (q ≠ 2 ^ 63 → coercing.convert v .long =
        Width.long.hold (.conversion v.kind .long .outOfRange) (integerPart q)) ∧
      (q = 2 ^ 63 → coercing.convert v .long = .ok (.long Int64.maxValue)) := by
  refine ⟨fun hq => ?_, fun q hq => ?_⟩
  · have htruncate : r.truncate? = none := by rw [r.truncate?_eq, hq, Option.map_none]
    have hwhole : Coercing.wholePart? r = none := by rw [Coercing.wholePart?, htruncate]
    refine ⟨?_, ?_, ?_⟩
    · exact (Coercing.convert_long_of_reading h).trans (by rw [hwhole]; rfl)
    · exact (Coercing.convert_integer_of_reading h).trans (by rw [hwhole]; rfl)
    · rw [Functions.trunc_of_reading s h, htruncate]
      rfl
  · exact ⟨Coercing.convert_integer_eq h hq, Functions.trunc_eq s h hq,
      Coercing.convert_long_of_ne h hq, Coercing.convert_long_of_eq h hq⟩

/-- The number just below the integers of 32 bits that still has the least of them as its integer
part, and the greatest double below `2 ^ 63`. -/
theorem integer_parts_exact_at_ends :
    let low : Value := .double (doubleOfBits 0xc1e0000000100000)
    let high : Value := .double (doubleOfBits 0x43dfffffffffffff)
    low.reading? = some (.finite true 4503599628419072 (-21)) ∧
      FloatReading.rational? (.finite true 4503599628419072 (-21)) = some (-2147483648.5) ∧
      coercing.convert low .integer = .ok (.integer Int32.minValue) ∧
      Functions.trunc strict [low] = .ok (.integer Int32.minValue) ∧
      high.reading? = some (.finite false 9007199254740991 10) ∧
      FloatReading.rational? (.finite false 9007199254740991 10) = some 9223372036854774784 ∧
      coercing.convert high .long = .ok (.long 9223372036854774784) ∧
      Functions.trunc strict [high] = .ok (.long 9223372036854774784) := by
  intro low high
  have hlow : low.reading? = some (.finite true 4503599628419072 (-21)) := by
    decide +kernel
  have hhigh : high.reading? = some (.finite false 9007199254740991 10) := by
    decide +kernel
  have hlow' : FloatReading.rational? (.finite true 4503599628419072 (-21)) =
      some (-2147483648.5) := by
    norm_num [FloatReading.rational?]
  have hhigh' : FloatReading.rational? (.finite false 9007199254740991 10) =
      some 9223372036854774784 := by
    norm_num [FloatReading.rational?]
  have hpart : integerPart (-2147483648.5) = -2147483648 := by
    norm_num [integerPart]
  have hpart' : integerPart 9223372036854774784 = 9223372036854774784 := by
    norm_num [integerPart]
  obtain ⟨hinteger, htrunc, -, -⟩ := (integer_parts_exact hlow strict).2 _ hlow'
  obtain ⟨-, htrunc', hlong, -⟩ := (integer_parts_exact hhigh strict).2 _ hhigh'
  rw [hpart] at hinteger htrunc
  rw [hpart'] at hlong htrunc'
  exact ⟨hlow, hlow', hinteger, htrunc, hhigh, hhigh', hlong (by norm_num), htrunc'⟩

/-- The integer part of `2 ^ 63` is beyond the integers of 64 bits. The function says so and the
conversion does not. -/
theorem convert_two_pow_63 :
    let x : Value := .double (doubleOfBits 0x43e0000000000000)
    let y : Value := .float (singleOfBits 0x5f000000)
    x.reading? = some (.finite false 4503599627370496 11) ∧
      FloatReading.rational? (.finite false 4503599627370496 11) = some 9223372036854775808 ∧
      ¬ FitsInt64 9223372036854775808 ∧
      coercing.convert x .long = .ok (.long Int64.maxValue) ∧
      coercing.convert x .long ≠ .error (.conversion .double .long .outOfRange) ∧
      Functions.trunc coercing [x] = .error (.overflow .truncate) ∧
      coercing.convert y .long = .ok (.long Int64.maxValue) ∧
      Functions.trunc coercing [y] = .error (.overflow .truncate) := by
  intro x y
  have hrational : FloatReading.rational? (.finite false 4503599627370496 11) =
      some 9223372036854775808 := by
    norm_num [FloatReading.rational?]
  have hconvert : coercing.convert x .long = .ok (.long Int64.maxValue) := by rfl
  refine ⟨by decide +kernel, hrational, by decide, hconvert, ?_, rfl, rfl, rfl⟩
  intro hrefused
  rw [hconvert] at hrefused
  cases hrefused

end Strategy

end Formula
