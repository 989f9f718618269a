import Formula.Expression.Reading
import Mathlib.Algebra.Group.Nat.Defs

/-!
# Numbers and their decimal digits

The digits of a number denote the number, and the text of an integer the integer. So the text of a
number is read as an integer literal of the narrowest kind that holds it. A number that is short enough
for a width is written in just as many digits, with zeros in front, and these digits denote it again.
-/

namespace Formula.Number

theorem digitsValue_digits (n : Nat) : digitsValue (digits n) = n := by
  rw [digits]
  exact Nat.ofDigitChars_ten_toDigits

theorem digits_ne_nil (n : Nat) : digits n ≠ [] := Nat.toDigits_ne_nil

theorem isDigit_of_mem_digits {n : Nat} {c : Char} (h : c ∈ digits n) : c.isDigit = true :=
  Nat.isDigit_of_mem_toDigits (by decide) (by decide) h

theorem allDigits_eq_true {ds : List Char} (hne : ds ≠ []) (hds : ∀ c ∈ ds, c.isDigit = true) :
    allDigits ds = true := by
  rw [allDigits, Bool.and_eq_true, List.all_eq_true]
  exact ⟨bne_iff_ne.mpr hne, hds⟩

theorem splitSign_of_isDigit {c : Char} (h : c.isDigit = true) (cs : List Char) :
    splitSign (c :: cs) = (false, c :: cs) := by
  rw [splitSign.eq_def]
  split
  · next hc =>
    cases hc
    cases h
  · next hc =>
    cases hc
    cases h
  · rfl

/-- A row of digits without a sign is read as what it denotes, zeros in front or not. -/
theorem integer?_of_isDigit {ds : List Char} (hne : ds ≠ []) (hds : ∀ c ∈ ds, c.isDigit = true) :
    integer? ds = some (digitsValue ds : Int) := by
  have hall := allDigits_eq_true hne hds
  cases ds with
  | nil => exact absurd rfl hne
  | cons c cs =>
    rw [integer?, splitSign_of_isDigit (hds c (.head _))]
    dsimp only
    rw [if_pos hall, if_neg Bool.false_ne_true]

theorem integer?_integerText (n : Int) : integer? (integerText n) = some n := by
  have hds : ∀ c ∈ digits n.natAbs, c.isDigit = true := fun _ => isDigit_of_mem_digits
  rw [integerText]
  by_cases hn : n < 0
  · rw [if_pos hn, integer?, splitSign]
    dsimp only
    rw [if_pos (allDigits_eq_true (digits_ne_nil _) hds), if_pos rfl, digitsValue_digits]
    exact congrArg some (by omega)
  · rw [if_neg hn, integer?_of_isDigit (digits_ne_nil _) hds, digitsValue_digits]
    exact congrArg some (by omega)

end Formula.Number

namespace Formula

open Number

/-- The value of a literal number without a sign that 64 bits can hold. -/
def Value.ofNat (n : Nat) : Value :=
  if n < 2147483648 then .integer (Int32.ofInt n) else .long (Int64.ofInt n)

section

variable {ds : List Char} (hne : ds ≠ []) (hds : ∀ c ∈ ds, c.isDigit = true)
include hne hds

theorem integerLiteral?_of_isDigit (h : digitsValue ds < 9223372036854775808) :
    integerLiteral? ds = some (Value.ofNat (digitsValue ds)) := by
  have hint : ∀ {α : Type} (f : Int → Option α), (integer? ds).bind f = f (digitsValue ds) := by
    intro α f
    rw [integer?_of_isDigit hne hds]
    rfl
  rw [integerLiteral?, hint, hint]
  by_cases hn : digitsValue ds < 2147483648
  · have h32 : FitsInt32 (digitsValue ds : Int) := by
      rw [FitsInt32]
      omega
    rw [int32?, if_pos h32, Value.ofNat, if_pos hn]
  · have h32 : ¬ FitsInt32 (digitsValue ds : Int) := by
      rw [FitsInt32]
      omega
    have h64 : FitsInt64 (digitsValue ds : Int) := by
      rw [FitsInt64]
      omega
    rw [int32?, if_neg h32, int64?, if_pos h64, Value.ofNat, if_neg hn]

theorem integerLiteral?_of_large (h : 9223372036854775808 ≤ digitsValue ds) :
    integerLiteral? ds = realLiteral? ds := by
  have h32 : int32? (digitsValue ds : Int) = none := by
    rw [int32?_eq_none_iff, FitsInt32]
    omega
  have h64 : int64? (digitsValue ds : Int) = none := by
    rw [int64?_eq_none_iff, FitsInt64]
    omega
  rw [integerLiteral?, integer?_of_isDigit hne hds, Option.bind_some, Option.bind_some, h32, h64]

end

theorem integerLiteral?_digits {n : Nat} (h : n < 9223372036854775808) :
    integerLiteral? (digits n) = some (Value.ofNat n) := by
  have hvalue := digitsValue_digits n
  rw [integerLiteral?_of_isDigit (digits_ne_nil n) (fun _ => isDigit_of_mem_digits) (by rwa [hvalue]),
    hvalue]

end Formula

namespace Formula.Number

def fixedDigits : Nat → Nat → List Char
  | 0, _ => []
  | width + 1, n => fixedDigits width (n / 10) ++ [Nat.digitChar (n % 10)]

theorem length_fixedDigits (width n : Nat) : (fixedDigits width n).length = width := by
  induction width generalizing n with
  | zero => rfl
  | succ width ih => simp [fixedDigits, ih]

theorem isDigit_of_mem_fixedDigits {width n : Nat} {c : Char} (h : c ∈ fixedDigits width n) :
    c.isDigit = true := by
  induction width generalizing n with
  | zero => cases h
  | succ width ih =>
    rcases List.mem_append.mp h with h | h
    · exact ih h
    · rw [List.mem_singleton.mp h, Nat.isDigit_digitChar, decide_eq_true_eq]
      exact Nat.mod_lt n (by decide)

theorem exists_cons_fixedDigits (width n : Nat) :
    ∃ c cs, fixedDigits (width + 1) n = c :: cs ∧ c.isDigit = true := by
  have hfirst : fixedDigits (width + 1) n ≠ [] := by simp [fixedDigits]
  obtain ⟨c, cs, hcons⟩ := List.exists_cons_of_ne_nil hfirst
  have hmem : c ∈ fixedDigits (width + 1) n := by
    rw [hcons]
    exact .head cs
  exact ⟨c, cs, hcons, isDigit_of_mem_fixedDigits hmem⟩

theorem fixedDigits_append_ne_cons {c : Char} (hc : c.isDigit = false) {width n : Nat}
    {cs r : List Char} : fixedDigits (width + 1) n ++ cs ≠ c :: r := by
  obtain ⟨d, ds, hcons, hd⟩ := exists_cons_fixedDigits width n
  rw [hcons]
  rintro ⟨⟩
  rw [hd] at hc
  exact Bool.noConfusion hc

theorem digitValue_digitChar : ∀ d < 10, digitValue (Nat.digitChar d) = d := by decide

theorem digitsValue_fixedDigits {width n : Nat} (h : n < 10 ^ width) :
    digitsValue (fixedDigits width n) = n := by
  induction width generalizing n with
  | zero =>
    obtain rfl : n = 0 := by simpa using h
    rfl
  | succ width ih =>
    rw [Nat.pow_succ] at h
    rw [fixedDigits, digitsValue_append_singleton, ih (Nat.div_lt_of_lt_mul (by omega)),
      digitValue_digitChar _ (Nat.mod_lt n (by decide))]
    exact Nat.div_add_mod n 10

/-- The last digit of a number stands behind the digits of the rest. -/
theorem padded_succ (width n : Nat) :
    padded (width + 2) n = padded (width + 1) (n / 10) ++ [Nat.digitChar (n % 10)] := by
  unfold padded digitCount digits
  by_cases hn : n < 10
  · rw [Nat.toDigits_of_lt_base hn, Nat.div_eq_of_lt hn, Nat.mod_eq_of_lt hn]
    simp [List.replicate_succ']
  · rw [Nat.toDigits_of_base_le (by decide) (Nat.le_of_not_lt hn)]
    simp

/-- A number that is short enough gets as many zeros as it lacks digits. -/
theorem padded_eq_fixedDigits {width n : Nat} (h : n < 10 ^ (width + 1)) :
    padded (width + 1) n = fixedDigits (width + 1) n := by
  induction width generalizing n with
  | zero =>
    have hn : n < 10 := h
    unfold padded digitCount digits
    rw [Nat.toDigits_of_lt_base hn]
    simp [fixedDigits, Nat.mod_eq_of_lt hn]
  | succ width ih =>
    rw [Nat.pow_succ] at h
    rw [padded_succ, ih (Nat.div_lt_of_lt_mul (by omega))]
    rfl

end Formula.Number
