import Formula.Number.Binary
import Formula.Number.Integers

/-!
# Numbers written as text

An integer is an optional sign and digits. A real number is an optional sign followed by
digits with an optional point among or around them and an optional exponent, or by one of
the words for infinity and for no number in any case. Nothing may stand before or after.

A floating point number is written as the shortest decimal that is read back as it. Among the decimals that
lie closer to a given number than to any other of its format, or as close while the mantissa is even, the
shortest are those with the fewest digits, and of these the one nearest to the number is taken. For a growing
count of digits the two decimals of that many digits around the number are tried; the first count with a hit
wins.
-/

namespace Formula.Number

def splitSign : List Char → Bool × List Char
  | '-' :: cs => (true, cs)
  | '+' :: cs => (false, cs)
  | cs => (false, cs)

def allDigits (cs : List Char) : Bool := cs != [] && cs.all Char.isDigit

def integer? (cs : List Char) : Option Int :=
  let (negative, ds) := splitSign cs
  if allDigits ds then
    some (if negative then -(digitsValue ds : Int) else digitsValue ds)
  else none

/-- What a text of a real number denotes; `decimal` is `coefficient * 10 ^ exponent`. -/
inductive Numeral
  | nan
  | infinite (negative : Bool)
  | decimal (negative : Bool) (coefficient : Nat) (exponent : Int)
  deriving DecidableEq, Repr

def exponent? : List Char → Option Int
  | [] => some 0
  | c :: cs => if c = 'e' ∨ c = 'E' then integer? cs else none

def unsignedDecimal? (cs : List Char) : Option (Nat × Int) :=
  let whole := cs.takeWhile Char.isDigit
  let rest := cs.dropWhile Char.isDigit
  let (fraction, rest) :=
    match rest with
    | '.' :: r => (r.takeWhile Char.isDigit, r.dropWhile Char.isDigit)
    | r => ([], r)
  if whole = [] ∧ fraction = [] then none
  else (exponent? rest).map fun e => (digitsValue (whole ++ fraction), e - fraction.length)

def numeral? (cs : List Char) : Option Numeral :=
  let (negative, body) := splitSign cs
  let word := body.map Char.toLower
  if word = ['n', 'a', 'n'] then some .nan
  else if word = ['i', 'n', 'f'] ∨ word = ['i', 'n', 'f', 'i', 'n', 'i', 't', 'y'] then
    some (.infinite negative)
  else (unsignedDecimal? body).map fun (c, e) => .decimal negative c e

/-- The bits of the number of the format nearest to a numeral. A decimal whose first digit
stands far outside the format is decided by its size alone. -/
def Numeral.toBits (f : BinaryFormat) : Numeral → Nat
  | .nan => f.nanBits
  | .infinite negative => f.convertBits (.infinite negative)
  | .decimal negative c e =>
    let size := (digitCount c : Int) + e
    if c = 0 ∨ size < -400 then f.nearestBits negative 0 1
    else if 400 < size then f.convertBits (.infinite negative)
    else if 0 ≤ e then f.nearestBits negative (c * Nat.pow 10 e.toNat) 1
    else f.nearestBits negative c (Nat.pow 10 (-e).toNat)

/-- The double nearest to the number that a text denotes. -/
def double? (cs : List Char) : Option Float :=
  (numeral? cs).map fun n => doubleOfBits (n.toBits binary64)

/-- The decimal `coefficient * 10 ^ exponent`. -/
structure Decimal where
  coefficient : Nat
  exponent : Int
  deriving DecidableEq, Repr

/-- Which of two equally near decimals is taken. -/
inductive TieRule
  | upward
  | toEven
  deriving DecidableEq, Repr

/-- The reals that are read as one number: a fraction with its two bounds over one
denominator, the bounds themselves included or not. -/
structure RoundingInterval where
  value : Nat
  low : Nat
  high : Nat
  den : Nat
  closed : Bool

namespace RoundingInterval

/-- The interval of `m * 2 ^ e`. Just above a power of two the numbers below lie twice as
dense, so the interval reaches half as far down. -/
def ofFinite (f : BinaryFormat) (m : Nat) (e : Int) : RoundingInterval :=
  let below := if m = f.hiddenBit ∧ f.leastExponent < e then 1 else 2
  let up := Nat.pow 2 (e - 2).toNat
  { value := 4 * m * up
    low := (4 * m - below) * up
    high := (4 * m + 2) * up
    den := Nat.pow 2 (2 - e).toNat
    closed := m % 2 = 0 }

/-- The least power of ten, by its exponent, that exceeds the value. -/
def decimalPoint (i : RoundingInterval) : Int :=
  if i.den ≤ i.value then digitCount (i.value / i.den)
  else 1 - (digitCount ((i.den - 1) / i.value) : Int)

def Contains (i : RoundingInterval) (num den : Nat) : Prop :=
  if i.closed then i.low * den ≤ num * i.den ∧ num * i.den ≤ i.high * den
  else i.low * den < num * i.den ∧ num * i.den < i.high * den

instance (i : RoundingInterval) (num den : Nat) : Decidable (i.Contains num den) := by
  unfold Contains
  infer_instance

/-- The decimal of the interval nearest to its value among the multiples of `10 ^ unit`. -/
def nearestMultiple? (i : RoundingInterval) (tie : TieRule) (unit : Int) : Option Decimal :=
  let up := Nat.pow 10 unit.toNat
  let down := Nat.pow 10 (-unit).toNat
  let d := i.den * up
  let q := i.value * down / d
  let r := i.value * down % d
  let lower := decide (i.Contains (q * up) down)
  let upper := decide (i.Contains ((q + 1) * up) down)
  let preferUpper := d < 2 * r || (d = 2 * r && (tie = .upward || q % 2 = 1))
  if lower && !(upper && preferUpper) then some ⟨q, unit⟩
  else if upper then some ⟨q + 1, unit⟩
  else none

end RoundingInterval

/-- Zeros at the end of the coefficient moved into the exponent, at most `n` of them. -/
def Decimal.dropZeros (x : Decimal) : Nat → Decimal
  | 0 => x
  | n + 1 =>
    if x.coefficient % 10 = 0 ∧ x.coefficient ≠ 0 then
      Decimal.dropZeros ⟨x.coefficient / 10, x.exponent + 1⟩ n
    else x

/-- The shortest decimal of a positive number of the format. Seventeen digits always
suffice for the formats in use. -/
def shortestDecimal (f : BinaryFormat) (tie : TieRule) (m : Nat) (e : Int) : Decimal :=
  let i := RoundingInterval.ofFinite f m e
  let point := i.decimalPoint
  let found := (List.range 17).findSome? fun (n : Nat) => i.nearestMultiple? tie (point - (n + 1))
  let x := found.getD ⟨i.value / i.den, 0⟩
  x.dropZeros (digitCount x.coefficient)

/-- Positional notation of a decimal, with a point only if there are digits behind it. -/
def Decimal.positional (x : Decimal) : List Char :=
  let ds := digits x.coefficient
  if 0 ≤ x.exponent then ds ++ List.replicate x.exponent.toNat '0'
  else
    let places := (-x.exponent).toNat
    let ds := List.replicate (places + 1 - ds.length) '0' ++ ds
    ds.take (ds.length - places) ++ '.' :: ds.drop (ds.length - places)

/-- The text of a number: the shortest digits, never an exponent, and whole numbers
without a point. -/
def FloatReading.text (f : BinaryFormat) : FloatReading → List Char
  | .nan => ['N', 'a', 'N']
  | .infinite negative => if negative then ['-', 'i', 'n', 'f'] else ['i', 'n', 'f']
  | .finite negative m e =>
    let body := if m = 0 then ['0'] else (shortestDecimal f .upward m e).positional
    if negative then '-' :: body else body

def doubleText (x : Float) : String := String.ofList ((readDouble x).text binary64)

end Formula.Number
