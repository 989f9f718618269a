import Formula.Number.Binary
import Formula.Number.FixedPoint
import Formula.Operations.Arithmetic
import Formula.Operations.Comparison
import Formula.Registry

/-!
# Functions of their arguments

How the functions of the library count their arguments and read them as numbers and dates.
Values of the wanted kinds are taken as they are, under every strategy; others are
converted. A conversion that leaves no number makes the result null. Then the functions on numbers, and those
that choose among their arguments or join them.
-/

namespace Formula

open Number Time

namespace Arguments

def expectCount (n : Nat) (args : List Value) (result : Result) : Result :=
  if args.length = n then result else .error (.wrongParameterCount (.exactly n) args.length)

def expectAtLeast (n : Nat) (args : List Value) (result : Result) : Result :=
  if n ≤ args.length then result else .error (.wrongParameterCount (.atLeast n) args.length)

def unary (f : Value → Result) (args : List Value) : Result :=
  match args with
  | [v] => f v
  | _ => .error (.wrongParameterCount (.exactly 1) args.length)

def toDouble? (s : Strategy) (v : Value) : Except EvalError (Option Float) :=
  match v.toDouble? with
  | some x => .ok (some x)
  | none => (s.convert v .double).map Value.asDouble?

def toLong (s : Strategy) (v : Value) : Except EvalError Int :=
  match v with
  | .integer n => .ok n.toInt
  | .long n => .ok n.toInt
  | v =>
    match s.convert v .long with
    | .ok (.long n) => .ok n.toInt
    | .ok _ => .error (.invalidArgument (.notNumber v.text))
    | .error e => .error e

/-- A moment; integers are milliseconds since the start of 1970. -/
def toMoment? (s : Strategy) (v : Value) : Except EvalError (Option Moment) :=
  let ofMillis (n : Int) : Except EvalError (Option Moment) :=
    match Moment.ofMillis? n with
    | some m => .ok (some m)
    | none => .error (.invalidArgument (.outsideDates n))
  match v with
  | .integer n => ofMillis n.toInt
  | .long n => ofMillis n.toInt
  | v => (s.convert v .dateTime).map Value.asDateTime?

def orNull {α : Type} (f : α → Value) : Option α → Value
  | some x => f x
  | none => .null

end Arguments

open Number

namespace Functions

def real (f : Float → Float) (s : Strategy) : List Value → Result :=
  Arguments.unary fun v =>
    (Arguments.toDouble? s v).map (Arguments.orNull fun x => .double (f x))

def constant (x : Float) (args : List Value) : Result :=
  Arguments.expectCount 0 args (.ok (.double x))

def e : Float := doubleOfBits 0x4005bf0a8b145769

def pi : Float := doubleOfBits 0x400921fb54442d18

def abs (s : Strategy) : List Value → Result :=
  Arguments.unary fun v =>
    match v with
    | .null => .ok .null
    | .integer n =>
      match int32? n.toInt.natAbs with
      | some m => .ok (.integer m)
      | none => .error (.overflow .absolute)
    | .long n =>
      match int64? n.toInt.natAbs with
      | some m => .ok (.long m)
      | none => .error (.overflow .absolute)
    | .float x => .ok (.float x.abs)
    | v => (Arguments.toDouble? s v).map (Arguments.orNull fun x => .double x.abs)

def roundTo (s : Strategy) (v : Value) (digits : Option Int) : Result :=
  match Arguments.toDouble? s v with
  | .error e => .error e
  | .ok none => .ok .null
  | .ok (some x) =>
    match digits with
    | none => .ok (.double (roundWhole .nearest x))
    | some n =>
      if n < 0 ∨ 4294967296 ≤ n then .error (.invalidArgument (.negativeDigits n))
      else
        match roundPlaces? x n.toNat with
        | some y => .ok (.double y)
        | none => .error (.invalidArgument (.notRoundable (doubleText x)))

/-- To a whole number, or to some decimal places; halves go away from zero. -/
def round (s : Strategy) (args : List Value) : Result :=
  match args with
  | [v] => roundTo s v none
  | [v, digits] =>
    match Arguments.toLong s digits with
    | .error e => .error e
    | .ok n => roundTo s v (some n)
  | _ => .error (.wrongParameterCount (.oneOf "1 or 2") args.length)

/-- The integer part, of the narrowest integer kind. -/
def trunc (s : Strategy) : List Value → Result :=
  Arguments.unary fun v =>
    match Arguments.toDouble? s v with
    | .error e => .error e
    | .ok none => .ok .null
    | .ok (some x) =>
      match (readDouble x).truncate?.bind int64? with
      | none => .error (.overflow .truncate)
      | some n =>
        match int32? n.toInt with
        | some m => .ok (.integer m)
        | none => .ok (.long n)

end Functions

namespace Functions

/-- The last of the values that each beat the best one so far. -/
def best (beats : Value → Value → Result) (first : Value) : List Value → Result
  | [] => .ok first
  | v :: vs =>
    match beats first v with
    | .error e => .error e
    | .ok (.boolean true) => best beats v vs
    | .ok _ => best beats first vs

/-- Hands the first of at least two arguments on with the others. -/
def atLeastTwo (f : Value → List Value → Result) (args : List Value) : Result :=
  match args with
  | v :: w :: vs => f v (w :: vs)
  | _ => .error (.wrongParameterCount (.atLeast 2) args.length)

def min (s : Strategy) : List Value → Result := atLeastTwo (best s.more)

def max (s : Strategy) : List Value → Result := atLeastTwo (best s.less)

def sumFrom (s : Strategy) (total : Value) : List Value → Result
  | [] => .ok total
  | v :: vs =>
    match s.add total v with
    | .error e => .error e
    | .ok total => sumFrom s total vs

def sum (s : Strategy) : List Value → Result := atLeastTwo (sumFrom s)

/-- The second or the third argument; a condition without a truth value counts as false. -/
def choice (s : Strategy) (args : List Value) : Result :=
  match args with
  | [condition, yes, no] =>
    match s.convert condition .boolean with
    | .error e => .error e
    | .ok (.boolean true) => .ok yes
    | .ok _ => .ok no
  | _ => .error (.wrongParameterCount (.exactly 3) args.length)

/-- The argument at a place after the first one, which gives the place. -/
def choose (s : Strategy) (args : List Value) : Result :=
  Arguments.expectAtLeast 3 args <|
    match args with
    | [] => .ok .null
    | index :: _ =>
      match Arguments.toLong s index with
      | .error e => .error e
      | .ok n =>
        if n < 1 then .error (.invalidArgument (.choiceBelowOne n))
        else
          match args[n.toNat]? with
          | some v => .ok v
          | none =>
            .error (.wrongParameterCount (.atLeast (Min.min (n + 1) 9223372036854775807).toNat) args.length)

def isEmpty : List Value → Result :=
  Arguments.unary fun v => .ok (.boolean v.isEmpty)

def null (args : List Value) : Result := Arguments.expectCount 0 args (.ok .null)

def occursIn (needle : List Char) : List Char → Bool
  | [] => needle.isEmpty
  | c :: cs => needle.isPrefixOf (c :: cs) || occursIn needle cs

/-- Whether a text contains another; an empty text or none contains nothing. -/
def contains (s : Strategy) (args : List Value) : Result :=
  match args with
  | [haystack, needle] =>
    match s.convert haystack .string with
    | .error e => .error e
    | .ok h =>
      match s.convert needle .string with
      | .error e => .error e
      | .ok n =>
        match h, n with
        | .string h, .string n => .ok (.boolean (!h.isEmpty && occursIn n.toList h.toList))
        | _, _ => .ok (.boolean false)
  | _ => .error (.wrongParameterCount (.exactly 2) args.length)

def array (args : List Value) : Result := .ok (.array args)

end Functions

end Formula
