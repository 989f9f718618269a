import Formula.Operations.Arithmetic

/-!
# Integers of two widths

Integers and truth values are computed as integers, in 64 bits if an operand has them and in 32 bits
if not. Coercion brings both operands to that width without changing what they denote, so an operation
on such operands is one on integers that fit.
-/

namespace Formula

open Number

inductive Width
  | short
  | long
  deriving DecidableEq, Repr

namespace Width

def bits : Width → Nat
  | .short => 32
  | .long => 64

def kind : Width → Kind
  | .short => .integer
  | .long => .long

/-- The least integer of this width. -/
def least : Width → Int
  | .short => -2147483648
  | .long => -9223372036854775808

def Fits : Width → Int → Prop
  | .short, n => FitsInt32 n
  | .long, n => FitsInt64 n

instance (w : Width) (n : Int) : Decidable (w.Fits n) :=
  match w with
  | .short => inferInstanceAs (Decidable (FitsInt32 n))
  | .long => inferInstanceAs (Decidable (FitsInt64 n))

/-- The value of this width that is congruent to `n`: `n` itself where it fits. -/
def value (w : Width) (n : Int) : Value :=
  match w with
  | .short => .integer (Int32.ofInt n)
  | .long => .long (Int64.ofInt n)

/-- The integer as a value of this width, refused where it does not fit. -/
def hold (w : Width) (refusal : EvalError) (n : Int) : Result :=
  if w.Fits n then .ok (w.value n) else .error refusal

def join : Width → Width → Width
  | .short, .short => .short
  | _, _ => .long

variable {w : Width} {n : Int}

theorem fits_iff : w.Fits n ↔ w.least ≤ n ∧ n < -w.least := by
  cases w <;> exact Iff.rfl

theorem join_comm (v w : Width) : v.join w = w.join v := by
  cases v <;> cases w <;> rfl

theorem join_self (w : Width) : w.join w = w := by
  cases w <;> rfl

theorem Fits.join (h : w.Fits n) (v : Width) : (w.join v).Fits n := by
  cases w with
  | short =>
    cases v with
    | short => exact h
    | long => exact ⟨Int.le_trans (by decide) h.1, Int.lt_trans h.2 (by decide)⟩
  | long => cases v <;> exact h

theorem Fits.of_between {m : Int} (hm : w.Fits m) (h : 0 ≤ n ∧ n ≤ m ∨ m ≤ n ∧ n ≤ 0) :
    w.Fits n := by
  have hleast : w.least < 0 := by cases w <;> decide
  rw [fits_iff] at hm ⊢
  omega

theorem kind_value (w : Width) (n : Int) : (w.value n).kind = w.kind := by
  cases w <;> rfl

theorem hold_of_fits {refusal : EvalError} (h : w.Fits n) : w.hold refusal n = .ok (w.value n) :=
  if_pos h

theorem hold_of_not_fits {refusal : EvalError} (h : ¬ w.Fits n) :
    w.hold refusal n = .error refusal :=
  if_neg h

theorem hold_short (refusal : EvalError) (n : Int) : hold .short refusal n =
    match int32? n with
    | some v => .ok (.integer v)
    | none => .error refusal := by
  by_cases h : FitsInt32 n
  · rw [hold_of_fits (w := .short) h, int32?, if_pos h]
    rfl
  · rw [hold_of_not_fits (w := .short) h, int32?, if_neg h]

theorem hold_long (refusal : EvalError) (n : Int) : hold .long refusal n =
    match int64? n with
    | some v => .ok (.long v)
    | none => .error refusal := by
  by_cases h : FitsInt64 n
  · rw [hold_of_fits (w := .long) h, int64?, if_pos h]
    rfl
  · rw [hold_of_not_fits (w := .long) h, int64?, if_neg h]

end Width

namespace Value

/-- The integer that a value counts as; a truth value is one or zero. -/
def whole? : Value → Option Int
  | .integer n => some n.toInt
  | .long n => some n.toInt
  | .boolean b => some (if b then 1 else 0)
  | _ => none

/-- The width that an integer or truth value is computed in by itself. -/
def width (v : Value) : Width := if v.kind = .long then .long else .short

variable {v : Value} {w : Width} {n : Int}

theorem whole?_value (h : w.Fits n) : (w.value n).whole? = some n := by
  cases w with
  | short => exact congrArg some (toInt_ofInt_int32 h)
  | long => exact congrArg some (toInt_ofInt_int64 h)

theorem width_value (w : Width) (n : Int) : (w.value n).width = w := by
  cases w <;> rfl

theorem fits_whole? (h : v.whole? = some n) : v.width.Fits n := by
  cases v with
  | integer m =>
    cases h
    exact fitsInt32_toInt m
  | long m =>
    cases h
    exact fitsInt64_toInt m
  | boolean b =>
    cases h
    cases b <;> decide
  | _ => cases h

end Value

/-- What counts as an integer is coerced to that integer in any width that is not smaller. -/
theorem Coercing.convert_whole {v : Value} {w : Width} {n : Int} (h : v.whole? = some n)
    (hw : v.width.join w = w) : Coercing.convert v w.kind = .ok (w.value n) := by
  cases v with
  | integer m =>
    cases h
    cases w with
    | short => exact congrArg (fun k => Except.ok (Value.integer k)) (Int32.ofInt_toInt m).symm
    | long => rfl
  | long m =>
    cases h
    cases w with
    | short => cases hw
    | long => exact congrArg (fun k => Except.ok (Value.long k)) (Int64.ofInt_toInt m).symm
  | boolean b =>
    cases h
    cases w <;> cases b <;> rfl
  | _ => cases h

/-- Two integers or truth values, at least one of them an integer, that are computed as the integers
`m` and `n` of width `w`. -/
structure IntegerPair (a b : Value) (w : Width) (m n : Int) : Prop where
  left : a.whole? = some m
  right : b.whole? = some n
  width : a.width.join b.width = w
  number : ¬ (a.kind = .boolean ∧ b.kind = .boolean)

namespace IntegerPair

variable {a b : Value} {w : Width} {m n : Int}

theorem left_join (h : IntegerPair a b w m n) : a.width.join w = w := by
  rw [← h.width]
  cases a.width <;> cases b.width <;> rfl

theorem right_join (h : IntegerPair a b w m n) : b.width.join w = w := by
  rw [← h.width]
  cases a.width <;> cases b.width <;> rfl

theorem fits_left (h : IntegerPair a b w m n) : w.Fits m :=
  h.left_join ▸ (Value.fits_whole? h.left).join w

theorem fits_right (h : IntegerPair a b w m n) : w.Fits n :=
  h.right_join ▸ (Value.fits_whole? h.right).join w

theorem of_value (hm : w.Fits m) (hn : b.whole? = some n) (hw : b.width.join w = w) :
    IntegerPair (w.value m) b w m n where
  left := Value.whole?_value hm
  right := hn
  width := by rw [Value.width_value, Width.join_comm, hw]
  number h := by
    rw [w.kind_value] at h
    cases w <;> cases h.1

theorem values (hm : w.Fits m) (hn : w.Fits n) : IntegerPair (w.value m) (w.value n) w m n :=
  of_value hm (Value.whole?_value hn) (by rw [Value.width_value, Width.join_self])

theorem common_kind (h : IntegerPair a b w m n) (mode : OperandMode) :
    Kind.common mode a.kind b.kind = w.kind := by
  obtain ⟨hleft, hright, rfl, hnumber⟩ := h
  cases a <;> cases hleft <;> cases b <;> cases hright <;> first
    | rfl
    | exact absurd ⟨rfl, rfl⟩ hnumber

theorem coercePair (h : IntegerPair a b w m n) (mode : OperandMode) :
    Strategy.coercing.coercePair mode a b = .ok (w.value m, w.value n) := by
  have hleft : Strategy.coercing.convert a w.kind = .ok (w.value m) :=
    Coercing.convert_whole h.left h.left_join
  have hright : Strategy.coercing.convert b w.kind = .ok (w.value n) :=
    Coercing.convert_whole h.right h.right_join
  rw [Strategy.coercePair, h.common_kind mode]
  rw [hleft, hright]
  rfl

theorem isNull (h : IntegerPair a b w m n) : (a.isNull || b.isNull) = false := by
  obtain ⟨hleft, hright, -, -⟩ := h
  cases a <;> cases hleft <;> cases b <;> cases hright <;> rfl

theorem arithmetic (h : IntegerPair a b w m n) (mode : OperandMode) (f : Value → Value → Result) :
    Strategy.coercing.arithmetic mode a b f = f (w.value m) (w.value n) := by
  rw [Strategy.arithmetic, h.isNull, h.coercePair mode]
  rfl

end IntegerPair

end Formula
