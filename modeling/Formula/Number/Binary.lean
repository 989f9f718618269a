/-!
# Binary floating point formats

A finite number of a format is a sign, a natural mantissa and a power of two. Reading
takes the bits of a number apart, and `magnitudeBits` gives the bits of the number
nearest to a quotient of naturals, ties going to the even neighbour. All that is exact
about floating point numbers elsewhere is computed on these integers.

A rule that rounds to a whole number looks at the sign and at what is left beyond the whole part of the
magnitude and either keeps the whole part or takes the next larger one. The sign stays, so a negative number
that rounds to nothing becomes negative zero.
-/

namespace Formula.Number

/-- A format: the bits of a full mantissa, the bits of the exponent field, and the
exponent of the least positive number. -/
structure BinaryFormat where
  precision : Nat
  exponentBits : Nat
  leastExponent : Int
  deriving DecidableEq, Repr

def binary32 : BinaryFormat := ⟨24, 8, -149⟩

def binary64 : BinaryFormat := ⟨53, 11, -1074⟩

/-- What the bits of a number stand for: `finite` is `mantissa * 2 ^ exponent`. -/
inductive FloatReading
  | nan
  | infinite (negative : Bool)
  | finite (negative : Bool) (mantissa : Nat) (exponent : Int)
  deriving DecidableEq, Repr

namespace BinaryFormat

/-- The leading bit of a full mantissa, which is not stored. -/
def hiddenBit (f : BinaryFormat) : Nat := Nat.pow 2 (f.precision - 1)

/-- The exponent field of infinities and of what is no number. -/
def lastExponent (f : BinaryFormat) : Nat := Nat.pow 2 f.exponentBits - 1

/-- The bits of positive infinity; the bits of smaller numbers are below. -/
def infinityBits (f : BinaryFormat) : Nat := f.lastExponent * f.hiddenBit

def signBit (f : BinaryFormat) : Nat := Nat.pow 2 (f.exponentBits + f.precision - 1)

def read (f : BinaryFormat) (bits : Nat) : FloatReading :=
  let negative := decide (bits / f.signBit % 2 = 1)
  let fraction := bits % f.hiddenBit
  let exponent := bits / f.hiddenBit % (f.lastExponent + 1)
  if exponent = f.lastExponent then
    if fraction = 0 then .infinite negative else .nan
  else if exponent = 0 then .finite negative fraction f.leastExponent
  else .finite negative (fraction + f.hiddenBit) (f.leastExponent + exponent - 1)

/-- The place of a number in the order of its format, both zeros in the same place. -/
def rank? (f : BinaryFormat) (bits : Nat) : Option Int :=
  let magnitude := bits % f.signBit
  if magnitude ≤ f.infinityBits then
    some (if bits / f.signBit % 2 = 1 then -magnitude else magnitude)
  else none

end BinaryFormat

/-- The quotient rounded to the nearest natural, a half to the even one. -/
def roundHalfEven (num den : Nat) : Nat :=
  let q := num / den
  let r := num % den
  if 2 * r < den then q
  else if den < 2 * r then q + 1
  else if q % 2 = 0 then q else q + 1

/-- Numerator and denominator of `num / den` divided by `2 ^ exponent`. -/
def scaleDown (num den : Nat) (exponent : Int) : Nat × Nat :=
  if 0 ≤ exponent then (num, den * Nat.pow 2 exponent.toNat)
  else (num * Nat.pow 2 (-exponent).toNat, den)

namespace BinaryFormat

/-- The exponent of the last mantissa bit for a positive quotient. -/
def unitExponent (f : BinaryFormat) (num den : Nat) : Int :=
  let e : Int := (num.log2 : Int) - den.log2 - f.precision
  let (n, d) := scaleDown num den e
  let e := if n / d < Nat.pow 2 f.precision then e else e + 1
  max e f.leastExponent

/-- The bits of the nearest number of the format, infinity when it is out of range. -/
def magnitudeBits (f : BinaryFormat) (num den : Nat) : Nat :=
  if num = 0 then 0
  else
    let e := f.unitExponent num den
    let (n, d) := scaleDown num den e
    let bits := (e - f.leastExponent).toNat * f.hiddenBit + roundHalfEven n d
    min bits f.infinityBits

def nearestBits (f : BinaryFormat) (negative : Bool) (num den : Nat) : Nat :=
  f.magnitudeBits num den + if negative then f.signBit else 0

def nanBits (f : BinaryFormat) : Nat := f.infinityBits + Nat.pow 2 (f.precision - 2)

/-- The bits of the number of this format nearest to a reading of another. -/
def convertBits (f : BinaryFormat) : FloatReading → Nat
  | .nan => f.nanBits
  | .infinite negative => f.infinityBits + if negative then f.signBit else 0
  | .finite negative m e =>
    if 0 ≤ e then f.nearestBits negative (m * Nat.pow 2 e.toNat) 1
    else f.nearestBits negative m (Nat.pow 2 (-e).toNat)

end BinaryFormat

/-- The integer part of a finite reading, fractions dropped. -/
def FloatReading.truncate? : FloatReading → Option Int
  | .finite negative m e =>
    let n : Nat := if 0 ≤ e then m * Nat.pow 2 e.toNat else m / Nat.pow 2 (-e).toNat
    some (if negative then -n else n)
  | _ => none

def readDouble (x : Float) : FloatReading := binary64.read x.toBits.toNat

def readSingle (x : Float32) : FloatReading := binary32.read x.toBits.toNat

def doubleOfBits (bits : Nat) : Float := Float.ofBits (UInt64.ofNat bits)

def singleOfBits (bits : Nat) : Float32 := Float32.ofBits (UInt32.ofNat bits)

/-- A number of single precision, exactly, in double precision. -/
def widen (x : Float32) : Float := doubleOfBits (binary64.convertBits (readSingle x))

/-- The number of single precision nearest to one of double precision. -/
def narrow (x : Float) : Float32 := singleOfBits (binary32.convertBits (readDouble x))

def doubleOfInt (n : Int) : Float :=
  doubleOfBits (binary64.nearestBits (n < 0) n.natAbs 1)

def rankDouble? (x : Float) : Option Int := binary64.rank? x.toBits.toNat

def rankSingle? (x : Float32) : Option Int := binary32.rank? x.toBits.toNat

/-- The order of two numbers through their ranks; none if one of them has none. -/
def compareRanks? (a b : Option Int) : Option Ordering :=
  match a, b with
  | some x, some y => some (compare x y)
  | _, _ => none

def doubleIsFinite (x : Float) : Bool :=
  match readDouble x with
  | .finite .. => true
  | _ => false

def singleIsFinite (x : Float32) : Bool :=
  match readSingle x with
  | .finite .. => true
  | _ => false

/-- The remainder of a division whose quotient is cut to an integer, with the sign of the
dividend. It is always a number of the format. -/
def remainderBits (f : BinaryFormat) (dividend divisor : Nat) : Nat :=
  match f.read dividend, f.read divisor with
  | .finite negative m e, .finite _ n k =>
    if n = 0 then f.nanBits
    else
      let low := min e k
      let r := m * Nat.pow 2 (e - low).toNat % (n * Nat.pow 2 (k - low).toNat)
      f.convertBits (.finite negative r low)
  | .finite .., .infinite _ => dividend
  | _, _ => f.nanBits

def remainderDouble (a b : Float) : Float :=
  doubleOfBits (remainderBits binary64 a.toBits.toNat b.toBits.toNat)

def remainderSingle (a b : Float32) : Float32 :=
  singleOfBits (remainderBits binary32 a.toBits.toNat b.toBits.toNat)

/-- Whether to step away from zero, from the sign, the remainder and the divisor. -/
abbrev WholeRule := Bool → Nat → Nat → Bool

def WholeRule.floor : WholeRule := fun negative r _ => negative && r != 0

def WholeRule.ceiling : WholeRule := fun negative r _ => !negative && r != 0

/-- Halves go away from zero. -/
def WholeRule.nearest : WholeRule := fun _ r d => decide (d ≤ 2 * r)

def roundWhole (rule : WholeRule) (x : Float) : Float :=
  match readDouble x with
  | .finite negative m e =>
    if 0 ≤ e then x
    else
      let d := Nat.pow 2 (-e).toNat
      let q := if rule negative (m % d) d then m / d + 1 else m / d
      doubleOfBits (binary64.nearestBits negative q 1)
  | _ => x

end Formula.Number
