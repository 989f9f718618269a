import Formula.Json.Printer
import Formula.Number.Integers
import Formula.Time.Moment

/-!
# Values

What a formula computes with. Every value has one of eleven kinds. Two values are the same
when they have the same kind and content, where floating point numbers are compared as
numbers: both zeros are one, and what is no number is not even itself.
-/

namespace Formula

open Number Time

inductive Kind
  | null | integer | long | boolean | float | double | string | dateTime | timeSpan | object | array
  deriving DecidableEq, Repr

def Kind.name : Kind → String
  | .null => "Null"
  | .integer => "Integer"
  | .long => "Long"
  | .boolean => "Boolean"
  | .float => "Float"
  | .double => "Double"
  | .string => "String"
  | .dateTime => "DateTime"
  | .timeSpan => "TimeSpan"
  | .object => "Object"
  | .array => "Array"

/-- Every kind once, in the order of their declaration. -/
def Kind.all : List Kind :=
  [.null, .integer, .long, .boolean, .float, .double, .string, .dateTime, .timeSpan, .object,
    .array]

theorem Kind.mem_all (k : Kind) : k ∈ Kind.all := by
  cases k <;> decide

inductive Value
  | null
  | integer (n : Int32)
  | long (n : Int64)
  | boolean (b : Bool)
  | float (x : Float32)
  | double (x : Float)
  | string (s : String)
  | dateTime (m : Moment)
  | timeSpan (s : Span)
  | object (j : Json)
  | array (items : List Value)

namespace Value

instance : Inhabited Value := ⟨.null⟩

def kind : Value → Kind
  | .null => .null
  | .integer _ => .integer
  | .long _ => .long
  | .boolean _ => .boolean
  | .float _ => .float
  | .double _ => .double
  | .string _ => .string
  | .dateTime _ => .dateTime
  | .timeSpan _ => .timeSpan
  | .object _ => .object
  | .array _ => .array

def isNull : Value → Bool
  | .null => true
  | _ => false

def isEmpty : Value → Bool
  | .null => true
  | .string s => s.isEmpty
  | .array items => items.isEmpty
  | _ => false

theorem isNull_iff {v : Value} : v.isNull = true ↔ v = .null := by
  cases v <;> simp [isNull]

theorem kind_eq_null_iff {v : Value} : v.kind = .null ↔ v = .null := by
  cases v <;> simp [kind]

def asInteger? : Value → Option Int32
  | .integer n => some n
  | _ => none

def asLong? : Value → Option Int64
  | .long n => some n
  | _ => none

def asBoolean? : Value → Option Bool
  | .boolean b => some b
  | _ => none

def asFloat? : Value → Option Float32
  | .float x => some x
  | _ => none

def asDouble? : Value → Option Float
  | .double x => some x
  | _ => none

def asString? : Value → Option String
  | .string s => some s
  | _ => none

def asDateTime? : Value → Option Moment
  | .dateTime m => some m
  | _ => none

def asTimeSpan? : Value → Option Span
  | .timeSpan s => some s
  | _ => none

def asObject? : Value → Option Json
  | .object j => some j
  | _ => none

def asArray? : Value → Option (List Value)
  | .array items => some items
  | _ => none

/-- The number in a value of a numeric kind, in double precision. -/
def toDouble? : Value → Option Float
  | .integer n => some (doubleOfInt n.toInt)
  | .long n => some (doubleOfInt n.toInt)
  | .float x => some (widen x)
  | .double x => some x
  | _ => none

/-- The items of an array or the characters of a string; other values have none. -/
def length : Value → Nat
  | .array items => items.length
  | .string s => s.toList.length
  | _ => 0

def get? (v : Value) (i : Nat) : Option Value :=
  v.asArray?.bind (·[i]?)

/-- The items with `v` at place `i`, after as many nulls as are missing before it. -/
def setItem (v : Value) (i : Nat) (items : List Value) : List Value :=
  (items ++ List.replicate (i + 1 - items.length) Value.null).set i v

/-- The value as an array with a new item; what is no array counts as an empty one. -/
def set (v : Value) (i : Nat) (item : Value) : Value :=
  .array (setItem item i (v.asArray?.getD []))

mutual

def same : Value → Value → Bool
  | .null, .null => true
  | .integer m, .integer n => m == n
  | .long m, .long n => m == n
  | .boolean a, .boolean b => a == b
  | .float x, .float y => compareRanks? (rankSingle? x) (rankSingle? y) == some .eq
  | .double x, .double y => compareRanks? (rankDouble? x) (rankDouble? y) == some .eq
  | .string s, .string t => s == t
  | .dateTime a, .dateTime b => a == b
  | .timeSpan a, .timeSpan b => a == b
  | .object a, .object b => a.same b
  | .array a, .array b => sameItems a b
  | _, _ => false

def sameItems : List Value → List Value → Bool
  | [], [] => true
  | a :: as, b :: bs => same a b && sameItems as bs
  | _, _ => false

end

mutual

/-- The text of a value. The items of an array are separated by commas, without brackets,
and a span is written as its milliseconds. -/
def chars : Value → List Char
  | .null => ['n', 'u', 'l', 'l']
  | .integer n => integerText n.toInt
  | .long n => integerText n.toInt
  | .boolean b => Json.wordChars b
  | .float x => (readSingle x).text binary32
  | .double x => (readDouble x).text binary64
  | .string s => s.toList
  | .dateTime m => m.text
  | .timeSpan s => integerText s.millis
  | .object j => j.compactChars
  | .array [] => []
  | .array (v :: vs) => chars v ++ moreChars vs

def moreChars : List Value → List Char
  | [] => []
  | v :: vs => ',' :: chars v ++ moreChars vs

end

def text (v : Value) : String := String.ofList v.chars

end Value

end Formula
