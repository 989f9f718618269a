import Formula.Operations.Strategy

/-!
# Arithmetic

Integers are computed exactly, and a result that its kind cannot hold is an overflow;
floating point numbers follow the rules of their format. Moments and spans can be added and
subtracted, where a number on either side counts milliseconds. With null the result is null.
-/

namespace Formula

open Number Time

/-- The four ways to compute one operation. Besides the result, `bound` has to be within
the range of the integers. -/
structure NumericRule where
  operation : Operation
  whole : Int → Int → Int
  bound : Int → Int → Int := whole
  single : Float32 → Float32 → Float32
  double : Float → Float → Float

namespace NumericRule

def plus : NumericRule where
  operation := .add
  whole a b := a + b
  single a b := a + b
  double a b := a + b

def minus : NumericRule where
  operation := .subtract
  whole a b := a - b
  single a b := a - b
  double a b := a - b

def times : NumericRule where
  operation := .multiply
  whole a b := a * b
  single a b := a * b
  double a b := a * b

/-- Quotients of integers are cut towards zero. -/
def quotient : NumericRule where
  operation := .divide
  whole a b := a.tdiv b
  single a b := a / b
  double a b := a / b

/-- Remainders have the sign of the dividend, and exist where the quotient does. -/
def remainder : NumericRule where
  operation := .remainder
  whole a b := a.tmod b
  bound a b := a.tdiv b
  single a b := remainderSingle a b
  double a b := remainderDouble a b

def apply (r : NumericRule) (a b : Value) : Result :=
  match a, b with
  | .integer x, .integer y =>
    let n := r.whole x.toInt y.toInt
    if FitsInt32 n ∧ FitsInt32 (r.bound x.toInt y.toInt) then .ok (.integer (Int32.ofInt n))
    else .error (.overflow r.operation)
  | .long x, .long y =>
    let n := r.whole x.toInt y.toInt
    if FitsInt64 n ∧ FitsInt64 (r.bound x.toInt y.toInt) then .ok (.long (Int64.ofInt n))
    else .error (.overflow r.operation)
  | .float x, .float y => .ok (.float (r.single x y))
  | .double x, .double y => .ok (.double (r.double x y))
  | a, _ => .error (.unsupported r.operation a.kind)

end NumericRule

namespace Value

/-- Spans, and numbers as spans of milliseconds. -/
def isSpanLike : Value → Bool
  | .timeSpan _ => true
  | .integer _ => true
  | .long _ => true
  | .float _ => true
  | .double _ => true
  | _ => false

def isZeroInteger : Value → Bool
  | .integer n => n == 0
  | .long n => n == 0
  | _ => false

end Value

namespace Strategy

variable (s : Strategy)

def toSpan (operation : Operation) (v : Value) : Except EvalError Span :=
  match v with
  | .timeSpan x => .ok x
  | v =>
    match s.convert v .timeSpan with
    | .ok (.timeSpan x) => .ok x
    | .ok _ => .error (.unsupported operation v.kind)
    | .error e => .error e

/-- A moment moved by a span-like value. -/
def moveMoment (operation : Operation) (move : Moment → Span → Option Moment) (m : Moment)
    (v : Value) : Result :=
  match s.toSpan operation v with
  | .error e => .error e
  | .ok x =>
    match move m x with
    | some n => .ok (.dateTime n)
    | none => .error (.overflow operation)

/-- Two span-like values joined. -/
def joinSpans (operation : Operation) (join : Span → Span → Option Span) (a b : Value) : Result :=
  match s.toSpan operation a with
  | .error e => .error e
  | .ok x =>
    match s.toSpan operation b with
    | .error e => .error e
    | .ok y =>
      match join x y with
      | some z => .ok (.timeSpan z)
      | none => .error (.overflow operation)

/-- The sum of values of which one is a moment or a span; none if it has no meaning. -/
def addTimes? (a b : Value) : Option Result :=
  match a, b with
  | .dateTime m, v => if v.isSpanLike then some (s.moveMoment .add Moment.add? m v) else none
  | v, .dateTime m => if v.isSpanLike then some (s.moveMoment .add Moment.add? m v) else none
  | .timeSpan x, v =>
    if v.isSpanLike then some (s.joinSpans .add Span.add? (.timeSpan x) v) else none
  | v, .timeSpan y =>
    if v.isSpanLike then some (s.joinSpans .add Span.add? v (.timeSpan y)) else none
  | _, _ => none

/-- The difference of a moment or a span and something else; none if it has no meaning. -/
def subtractTimes? (a b : Value) : Option Result :=
  match a, b with
  | .dateTime m, .dateTime n => some (.ok (.timeSpan (m.since n)))
  | .dateTime m, v =>
    if v.isSpanLike then some (s.moveMoment .subtract Moment.sub? m v) else none
  | .timeSpan x, v =>
    if v.isSpanLike then some (s.joinSpans .subtract Span.sub? (.timeSpan x) v) else none
  | _, _ => none

/-- Coerces two operands for arithmetic and hands them on, unless one is null. -/
def arithmetic (mode : OperandMode) (a b : Value) (f : Value → Value → Result) : Result :=
  if a.isNull || b.isNull then .ok .null
  else
    match s.coercePair mode a b with
    | .ok (x, y) => f x y
    | .error e => .error e

def addPair (a b : Value) : Result :=
  match a, b with
  | .string x, .string y => .ok (.string (x ++ y))
  | a, b => NumericRule.plus.apply a b

def add (a b : Value) : Result :=
  if a.isNull || b.isNull then .ok .null
  else
    match s.addTimes? a b with
    | some r => r
    | none => s.arithmetic .additive a b addPair

def sub (a b : Value) : Result :=
  if a.isNull || b.isNull then .ok .null
  else
    match s.subtractTimes? a b with
    | some r => r
    | none => s.arithmetic .arithmetic a b NumericRule.minus.apply

def mul (a b : Value) : Result := s.arithmetic .arithmetic a b NumericRule.times.apply

/-- Applies a rule that an integer zero on the right makes impossible. -/
def applyNonzero (r : NumericRule) (a b : Value) : Result :=
  if b.isZeroInteger then .error .divisionByZero else r.apply a b

def div (a b : Value) : Result := s.arithmetic .arithmetic a b (applyNonzero .quotient)

def mod (a b : Value) : Result := s.arithmetic .arithmetic a b (applyNonzero .remainder)

/-- Powers of integers with an exponent that is not negative are exact; an exponent of more
than 32 bits counts as an overflow. All others are computed in floating point. -/
def powerPair (a b : Value) : Result :=
  let real (a b : Value) : Result :=
    match a.toDouble?, b.toDouble? with
    | some x, some y => .ok (.double (x.pow y))
    | _, _ => .error (.unsupported .power a.kind)
  match a, b with
  | .integer x, .integer y =>
    if 0 ≤ y.toInt then
      match (boundedPower? 32 x.toInt y.toInt.toNat).bind int32? with
      | some n => .ok (.integer n)
      | none => .error (.overflow .power)
    else real a b
  | .long x, .long y =>
    if 0 ≤ y.toInt then
      if y.toInt < 4294967296 then
        match (boundedPower? 64 x.toInt y.toInt.toNat).bind int64? with
        | some n => .ok (.long n)
        | none => .error (.overflow .power)
      else .error (.overflow .power)
    else real a b
  | .float x, .float y => .ok (.float (x.pow y))
  | a, b => real a b

def pow (a b : Value) : Result := s.arithmetic .arithmetic a b powerPair

inductive ShiftSide
  | left
  | right
  deriving DecidableEq, Repr

def ShiftSide.operation : ShiftSide → Operation
  | .left => .shiftLeft
  | .right => .shiftRight

/-- A shift to the left multiplies and lets high bits go, one to the right divides and
rounds down. -/
def ShiftSide.move (side : ShiftSide) (n : Int) (amount : Nat) : Int :=
  match side with
  | .left => n * Nat.pow 2 amount
  | .right => n / Nat.pow 2 amount

def shiftBy (side : ShiftSide) (a : Value) (amount : Int) : Result :=
  if amount < 0 ∨ 4294967296 ≤ amount then .error (.invalidArgument (.negativeShift amount))
  else
    match a with
    | .integer n =>
      if amount < 32 then .ok (.integer (Int32.ofInt (side.move n.toInt amount.toNat)))
      else .error (.overflow side.operation)
    | .long n =>
      if amount < 64 then .ok (.long (Int64.ofInt (side.move n.toInt amount.toNat)))
      else .error (.overflow side.operation)
    | v => .error (.unsupported side.operation v.kind)

def shiftPair (side : ShiftSide) (a b : Value) : Result :=
  match b with
  | .integer n => shiftBy side a n.toInt
  | .long n => shiftBy side a n.toInt
  | v => .error (.unsupported side.operation v.kind)

def lsh (a b : Value) : Result := s.arithmetic .arithmetic a b (shiftPair .left)

def rsh (a b : Value) : Result := s.arithmetic .arithmetic a b (shiftPair .right)

def negative (v : Value) : Result :=
  match v with
  | .null => .ok .null
  | .integer n =>
    match int32? (-n.toInt) with
    | some m => .ok (.integer m)
    | none => .error (.overflow .subtract)
  | .long n =>
    match int64? (-n.toInt) with
    | some m => .ok (.long m)
    | none => .error (.overflow .subtract)
  | .float x => .ok (.float (-x))
  | .double x => .ok (.double (-x))
  | .timeSpan x => .ok (.timeSpan x.neg)
  | v =>
    match s.convert v .double with
    | .ok (.double x) => .ok (.double (-x))
    | .ok _ => .error (.unsupported .subtract v.kind)
    | .error e => .error e

end Strategy

end Formula
