import Formula.Value.Basic
import Formula.Number.Numeral

/-!
# Values and JSON

An integer from JSON takes the narrowest kind that holds it, one beyond 64 signed bits
becomes a double, and objects are kept whole. Towards JSON, dates become text, spans their
milliseconds, and numbers without a JSON form null. A number of single precision goes
through its shortest decimal, so that its digits stay as they were.
-/

namespace Formula

open Number

def Value.ofInt (n : Int) : Value :=
  match int32? n with
  | some w => .integer w
  | none =>
    match int64? n with
    | some w => .long w
    | none => .double (doubleOfInt n)

mutual

def Json.toValue : Json → Value
  | .null => .null
  | .bool b => .boolean b
  | .number (.whole n _) => .ofInt n
  | .number (.real x _) => .double x
  | .string s => .string s
  | .array items => .array (Json.toValues items)
  | .object members => .object (.object members)

def Json.toValues : List Json → List Value
  | [] => []
  | j :: js => j.toValue :: Json.toValues js

end

def Json.ofDouble (x : Float) : Json :=
  match JsonNumber.ofDouble? x with
  | some n => .number n
  | none => .null

def Json.ofInt (n : Int) : Json :=
  match JsonNumber.ofInt? n with
  | some n => .number n
  | none => .null

/-- The double with the same shortest digits as a number of single precision. -/
def Json.ofSingle (x : Float32) : Json :=
  match double? ((readSingle x).text binary32) with
  | some y => .ofDouble y
  | none => .null

mutual

def Value.toJson : Value → Json
  | .null => .null
  | .boolean b => .bool b
  | .integer n => .ofInt n.toInt
  | .long n => .ofInt n.toInt
  | .float x => .ofSingle x
  | .double x => .ofDouble x
  | .string s => .string s
  | .dateTime m => .string (String.ofList m.text)
  | .timeSpan s => .ofInt s.millis
  | .object j => j
  | .array items => .array (Value.toJsons items)

def Value.toJsons : List Value → List Json
  | [] => []
  | v :: vs => v.toJson :: Value.toJsons vs

end

end Formula
