/-!
# Integers

The value of a string of decimal digits, the digits of a number, and integers of fixed width: an integer is
taken into a word only if the word can hold it; nothing wraps unless an operation is meant to.
-/

namespace Formula.Number

def digitValue (c : Char) : Nat := c.toNat - '0'.toNat

def digitsValue (cs : List Char) : Nat :=
  cs.foldl (fun n c => 10 * n + digitValue c) 0

def digits (n : Nat) : List Char := Nat.toDigits 10 n

def digitCount (n : Nat) : Nat := (digits n).length

/-- The decimal text of an integer, with a sign only when it is negative. -/
def integerText (n : Int) : List Char :=
  if n < 0 then '-' :: digits n.natAbs else digits n.natAbs

/-- The digits of `n`, with zeros in front up to a width. -/
def padded (width n : Nat) : List Char :=
  List.replicate (width - digitCount n) '0' ++ digits n

@[simp] theorem digitsValue_nil : digitsValue [] = 0 := rfl

theorem digitsValue_append_singleton (cs : List Char) (c : Char) :
    digitsValue (cs ++ [c]) = 10 * digitsValue cs + digitValue c := by
  simp [digitsValue]

def FitsInt32 (n : Int) : Prop := -2147483648 ≤ n ∧ n < 2147483648

def FitsInt64 (n : Int) : Prop := -9223372036854775808 ≤ n ∧ n < 9223372036854775808

instance (n : Int) : Decidable (FitsInt32 n) := inferInstanceAs (Decidable (_ ∧ _))

instance (n : Int) : Decidable (FitsInt64 n) := inferInstanceAs (Decidable (_ ∧ _))

def int32? (n : Int) : Option Int32 := if FitsInt32 n then some (Int32.ofInt n) else none

def int64? (n : Int) : Option Int64 := if FitsInt64 n then some (Int64.ofInt n) else none

theorem fitsInt32_toInt (n : Int32) : FitsInt32 n.toInt :=
  ⟨Int32.le_toInt n, Int32.toInt_lt n⟩

theorem fitsInt64_toInt (n : Int64) : FitsInt64 n.toInt :=
  ⟨Int64.le_toInt n, Int64.toInt_lt n⟩

theorem toInt_ofInt_int32 {n : Int} (h : FitsInt32 n) : (Int32.ofInt n).toInt = n :=
  Int32.toInt_ofInt_of_le h.1 h.2

theorem toInt_ofInt_int64 {n : Int} (h : FitsInt64 n) : (Int64.ofInt n).toInt = n :=
  Int64.toInt_ofInt_of_le h.1 h.2

theorem int32?_toInt (n : Int32) : int32? n.toInt = some n := by
  simp [int32?, fitsInt32_toInt]

theorem int64?_toInt (n : Int64) : int64? n.toInt = some n := by
  simp [int64?, fitsInt64_toInt]

theorem int32?_eq_some_iff {n : Int} {w : Int32} : int32? n = some w ↔ n = w.toInt := by
  constructor
  · intro h
    by_cases hn : FitsInt32 n
    · simp only [int32?, hn, if_true, Option.some.injEq] at h
      rw [← h, toInt_ofInt_int32 hn]
    · simp [int32?, hn] at h
  · rintro rfl
    exact int32?_toInt w

theorem int64?_eq_some_iff {n : Int} {w : Int64} : int64? n = some w ↔ n = w.toInt := by
  constructor
  · intro h
    by_cases hn : FitsInt64 n
    · simp only [int64?, hn, if_true, Option.some.injEq] at h
      rw [← h, toInt_ofInt_int64 hn]
    · simp [int64?, hn] at h
  · rintro rfl
    exact int64?_toInt w

theorem int32?_eq_none_iff {n : Int} : int32? n = none ↔ ¬ FitsInt32 n := by
  simp [int32?]

theorem int64?_eq_none_iff {n : Int} : int64? n = none ↔ ¬ FitsInt64 n := by
  simp [int64?]

/-- The power with a natural exponent, when it is smaller than `2 ^ width` in size. A base
of size two or more outgrows the bound before its exponent exceeds the width, so no larger
number is ever computed. -/
def boundedPower? (width : Nat) (base : Int) (exponent : Nat) : Option Int :=
  if base.natAbs ≤ 1 then
    some (if exponent = 0 then 1 else if exponent % 2 = 0 then base * base else base)
  else if exponent ≤ width then some (Int.pow base exponent)
  else none

end Formula.Number
