import Formula.EvalError
import Formula.Json.Parser
import Formula.Number.Numeral
import Formula.Time.Reading

/-!
# Strategies of conversion

A strategy says how values become values of another kind; all operators are built on that
one rule. The coercing strategy turns scalars into one another, and the strict one leaves
every value as it is and refuses other kinds. Under both a value of the wanted kind and
null stay as they are.

Before an operator works, both operands are converted to one kind. Truth values, integers
and floating point numbers form a ladder, and the higher one wins. Next to a string a
number or a date keeps its kind, except that an addition makes text. Where nothing else is
said the kind of the left operand decides.
-/

namespace Formula

open Number Time

abbrev Result := Except EvalError Value

structure Strategy where
  convert : Value → Kind → Result

/-- A value of some kind has no form of the wanted kind. -/
def refuse {α : Type} (v : Value) (target : Kind) (fault : ConversionFault) : Except EvalError α :=
  .error (.conversion v.kind target fault)

namespace Strict

def convert (v : Value) (target : Kind) : Result :=
  if v.kind = target ∨ v.isNull then .ok v
  else if target = .null then .ok .null
  else refuse v target .disabled

end Strict

namespace Coercing

/-- The integer part of a number if 64 bits hold it; one beyond, `2 ^ 63`, becomes the
greatest integer. -/
def wholePart? (r : FloatReading) : Option Int64 :=
  match r.truncate? with
  | some n => int64? (if n = 9223372036854775808 then 9223372036854775807 else n)
  | none => none

/-- The integer in a text, or the integer part of the number in it. -/
def wholeText? (cs : List Char) : Option Int64 :=
  match (integer? cs).bind int64? with
  | some n => some n
  | none => (double? cs).bind fun x => wholePart? (readDouble x)

/-- The value as an integer, for the sake of a value of the kind `target`. Moments and
spans count their milliseconds. -/
def toLong (v : Value) (target : Kind) : Except EvalError Int64 :=
  let orElse (n : Option Int64) (fault : ConversionFault) : Except EvalError Int64 :=
    match n with
    | some n => .ok n
    | none => refuse v target fault
  match v with
  | .integer n => .ok (Int64.ofInt n.toInt)
  | .long n => .ok n
  | .boolean b => .ok (if b then 1 else 0)
  | .float x => orElse (wholePart? (readSingle x)) .outOfRange
  | .double x => orElse (wholePart? (readDouble x)) .outOfRange
  | .string s =>
    let cs := Text.trim s.toList
    orElse (wholeText? cs) (.notNumber (String.ofList cs))
  | .dateTime m => .ok (Int64.ofInt m.millis)
  | .timeSpan s => .ok (Int64.ofInt s.millis)
  | _ => refuse v target .noConversion

def toDouble (v : Value) (target : Kind) : Except EvalError Float :=
  match v with
  | .boolean b => .ok (doubleOfInt (if b then 1 else 0))
  | .string s =>
    match double? (Text.trim s.toList) with
    | some x => .ok x
    | none => refuse v target (.notNumber s)
  | .dateTime m => .ok (doubleOfInt m.millis)
  | .timeSpan s => .ok (doubleOfInt s.millis)
  | v =>
    match v.toDouble? with
    | some x => .ok x
    | none => refuse v target .noConversion

def truthWord? (cs : List Char) : Option Bool :=
  let word := String.ofList (cs.map Char.toLower)
  if word = "true" ∨ word = "1" then some true
  else if word = "false" ∨ word = "0" then some false
  else none

/-- Numbers other than zero are true, what is no number among them. -/
def toBoolean (v : Value) : Except EvalError Bool :=
  match v with
  | .integer n => .ok (n != 0)
  | .long n => .ok (n != 0)
  | .float x => .ok (rankSingle? x != some 0)
  | .double x => .ok (rankDouble? x != some 0)
  | .string s =>
    match truthWord? (Text.trim s.toList) with
    | some b => .ok b
    | none => refuse v .boolean (.notBoolean s)
  | _ => refuse v .boolean .noConversion

def toInteger (v : Value) : Result :=
  match toLong v .integer with
  | .error e => .error e
  | .ok n =>
    match int32? n.toInt with
    | some w => .ok (.integer w)
    | none => refuse v .integer .outOfRange

/-- Numbers are milliseconds since the start of 1970. -/
def toMoment (v : Value) : Result :=
  let ofMillis : Result :=
    match toLong v .long with
    | .error e => .error e
    | .ok n =>
      match Moment.ofMillis? n.toInt with
      | some m => .ok (.dateTime m)
      | none => refuse v .dateTime .outOfRange
  match v with
  | .string s =>
    match Moment.ofText? s.toList with
    | some m => .ok (.dateTime m)
    | none => refuse v .dateTime (.notDate s)
  | .integer _ => ofMillis
  | .long _ => ofMillis
  | .float _ => ofMillis
  | .double _ => ofMillis
  | _ => refuse v .dateTime .noConversion

def toSpan (v : Value) : Result :=
  let ofMillis : Result :=
    match toLong v .long with
    | .error e => .error e
    | .ok n =>
      match Span.ofMillis? n.toInt with
      | some s => .ok (.timeSpan s)
      | none => refuse v .timeSpan .outOfRange
  match v with
  | .string _ => ofMillis
  | .integer _ => ofMillis
  | .long _ => ofMillis
  | .float _ => ofMillis
  | .double _ => ofMillis
  | _ => refuse v .timeSpan .noConversion

def toText (v : Value) : Result :=
  match v with
  | .array _ => refuse v .string .arrayWithoutText
  | v => .ok (.string v.text)

def toObject (v : Value) : Result :=
  match v with
  | .string s =>
    match Json.parse? s with
    | some j => .ok (.object j)
    | none => refuse v .object .notJson
  | _ => refuse v .object .noConversion

def convert (v : Value) (target : Kind) : Result :=
  if v.kind = target ∨ v.isNull then .ok v
  else
    match target with
    | .null => .ok .null
    | .integer => toInteger v
    | .long => (toLong v .long).map .long
    | .float => (toDouble v .float).map fun x => .float (narrow x)
    | .double => (toDouble v .double).map .double
    | .boolean => (toBoolean v).map .boolean
    | .string => toText v
    | .dateTime => toMoment v
    | .timeSpan => toSpan v
    | .object => toObject v
    | .array => refuse v .array .noConversion

end Coercing

namespace Strategy

/-- Values become values of other kinds wherever there is a way. -/
def coercing : Strategy := ⟨Coercing.convert⟩

/-- Values keep their kind. -/
def strict : Strategy := ⟨Strict.convert⟩

/-- A value of the wanted kind and null convert to themselves. -/
structure Lawful (s : Strategy) : Prop where
  convert_self (v : Value) : s.convert v v.kind = .ok v
  convert_null (k : Kind) : s.convert .null k = .ok .null

theorem lawful_coercing : coercing.Lawful where
  convert_self v := by simp [coercing, Coercing.convert]
  convert_null k := by simp [coercing, Coercing.convert, Value.isNull]

theorem lawful_strict : strict.Lawful where
  convert_self v := by simp [strict, Strict.convert]
  convert_null k := by simp [strict, Strict.convert, Value.isNull]

end Strategy

inductive OperandMode
  /-- Addition: text absorbs everything. -/
  | additive
  /-- Other arithmetic: two texts are read as numbers. -/
  | arithmetic
  /-- Comparison and logic. -/
  | comparison
  deriving DecidableEq, Repr

namespace Kind

/-- The rung of a kind on the ladder of numbers. -/
def rung? : Kind → Option Nat
  | .boolean => some 0
  | .integer => some 1
  | .long => some 2
  | .float => some 3
  | .double => some 4
  | _ => none

def common (mode : OperandMode) (left right : Kind) : Kind :=
  if left = right then
    if left = .string ∧ mode = .arithmetic then .double else left
  else
    match left.rung?, right.rung? with
    | some m, some n => if n ≤ m then left else right
    | _, _ =>
      if mode = .additive ∧ (left = .string ∨ right = .string) then .string
      else if left = .string ∧ right ≠ .object ∧ right ≠ .array then right
      else left

end Kind

namespace Strategy

/-- Both operands as values of their common kind, the left one first. -/
def coercePair (s : Strategy) (mode : OperandMode) (a b : Value) :
    Except EvalError (Value × Value) := do
  let target := Kind.common mode a.kind b.kind
  let a ← s.convert a target
  let b ← s.convert b target
  return (a, b)

end Strategy

end Formula
