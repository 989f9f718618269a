import Formula.Number.Binary
import Formula.Number.Integers

/-!
# Fixed point decimals of 96 bits

A fixed point decimal is a sign, a coefficient below `2 ^ 96` and a count of places, at
most 28. Numbers are rounded to some places by going through such a decimal: the double is
taken over with as many places as fit, rounded with halves away from zero, and read back
as a double.
-/

namespace Formula.Number

structure FixedPoint where
  negative : Bool
  coefficient : Nat
  places : Nat
  deriving DecidableEq, Repr

namespace FixedPoint

def limit : Nat := Nat.pow 2 96

def mostPlaces : Nat := 28

/-- Turns `n / 2 ^ k` into a coefficient with as many places as halvings were left over:
each step either halves an even coefficient or multiplies by five, and drops a bit when
the product no longer fits. -/
def expand (coefficient places : Nat) : Nat → Nat × Nat
  | 0 => (coefficient, places)
  | k + 1 =>
    if coefficient % 2 = 0 then expand (coefficient / 2) (places - 1) k
    else if coefficient * 5 < limit then expand (coefficient * 5) places k
    else expand (coefficient / 2) (places - 1) k

/-- The last place dropped, a half going up. -/
def dropPlace (coefficient : Nat) : Nat :=
  coefficient / 10 + if 5 ≤ coefficient % 10 then 1 else 0

/-- Places dropped until at most 28 are left. The last digit of a coefficient vanishes. -/
def clipPlaces (coefficient places : Nat) : Nat × Nat :=
  if mostPlaces < places then
    if coefficient < 10 then (0, 0) else clipPlaces (dropPlace coefficient) (places - 1)
  else (coefficient, places)
termination_by places

/-- Places dropped while the coefficient has more bits than a double carries. -/
def clipBits (coefficient : Nat) : Nat → Nat × Nat
  | 0 => (coefficient, 0)
  | k + 1 =>
    if Nat.pow 2 52 ≤ coefficient then clipBits (dropPlace coefficient) k
    else (coefficient, k + 1)

def dropZeros (coefficient : Nat) : Nat → Nat × Nat
  | 0 => (coefficient, 0)
  | k + 1 =>
    if coefficient % 10 = 0 then dropZeros (coefficient / 10) k else (coefficient, k + 1)

/-- The decimal of a finite double, unless it is a whole number that is too large. -/
def ofDouble? (x : Float) : Option FixedPoint :=
  match readDouble x with
  | .finite negative m e =>
    if m = 0 then some ⟨negative, 0, 0⟩
    else if 0 ≤ e then
      let n := m * Nat.pow 2 e.toNat
      if n < limit then some ⟨negative, n, 0⟩ else none
    else
      let (c, k) := expand m (-e).toNat (-e).toNat
      let (c, k) := clipPlaces c k
      let (c, k) := clipBits c k
      let (c, k) := dropZeros c k
      some ⟨negative, c, k⟩
  | _ => none

/-- At most `n` places, a half going away from zero; a number rounded to zero has no sign. -/
def round (x : FixedPoint) (n : Nat) : FixedPoint :=
  if x.places ≤ n then x
  else
    let d := Nat.pow 10 (x.places - n)
    let q := x.coefficient / d + if d ≤ 2 * (x.coefficient % d) then 1 else 0
    { negative := x.negative && q != 0, coefficient := q, places := n }

def doubleOfNat (n : Nat) : Float := doubleOfInt n

/-- The double of a decimal. The whole part and the fraction are added as doubles, and the
sum is set back to the places of the decimal. -/
def toDouble (x : FixedPoint) : Float :=
  if x.places = 0 then
    doubleOfInt (if x.negative then -x.coefficient else x.coefficient)
  else
    let scale := Nat.pow 10 x.places
    let whole := doubleOfNat (x.coefficient / scale)
    let fraction := doubleOfNat (x.coefficient % scale) / doubleOfNat scale
    let value :=
      if x.coefficient % scale = 0 then whole
      else roundWhole .nearest ((whole + fraction) * doubleOfNat scale) / doubleOfNat scale
    if x.negative then -value else value

end FixedPoint

/-- A double rounded to `n` places in decimal. -/
def roundPlaces? (x : Float) (n : Nat) : Option Float :=
  (FixedPoint.ofDouble? x).map fun d => (d.round n).toDouble

end Formula.Number
