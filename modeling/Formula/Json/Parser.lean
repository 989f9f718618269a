import Formula.Json.Basic
import Formula.Number.Integers

/-!
# Reading JSON

The whole text must be one value, with blanks around it. Values nest at most 127 deep.

A number without fraction and exponent is an integer if 64 bits hold it, save that minus
zero is a double. Any other number is scaled: as many of its digits as 64 bits hold make an
integer, which is then multiplied or divided by a power of ten in floating point. The
result may miss the nearest double by the last bit. A number too large for a double is
refused.
-/

namespace Formula.Json

open Number

def mostNested : Nat := 127

def isJsonBlank (c : Char) : Bool := c = ' ' || c = '\n' || c = '\t' || c = '\r'

def skipBlanks (cs : List Char) : List Char := cs.dropWhile isJsonBlank

/-- The greatest significand. -/
def greatestSignificand : Nat := 18446744073709551615

/-- Digits appended to a significand while it stays in range, with their count. -/
def absorb (significand : Nat) : List Char → Nat × Nat
  | [] => (significand, 0)
  | c :: cs =>
    let next := 10 * significand + digitValue c
    if next ≤ greatestSignificand then
      let (s, n) := absorb next cs
      (s, n + 1)
    else (significand, 0)

def powerOfTen (n : Nat) : Float := doubleOfBits (binary64.nearestBits false (Nat.pow 10 n) 1)

/-- `x * 10 ^ e`, with one operation for each 308 powers; none if it is out of range. -/
def scaled? (x : Float) (e : Int) : Option Float :=
  if e.natAbs ≤ 308 then
    if 0 ≤ e then
      let y := x * powerOfTen e.natAbs
      if doubleIsFinite y then some y else none
    else some (x / powerOfTen e.natAbs)
  else if rankDouble? x = some 0 then some x
  else if 0 ≤ e then none
  else scaled? (x / powerOfTen 308) (e + 308)
termination_by (-e).toNat

/-- The exponents that are followed out exactly; greater ones decide by their sign. -/
def greatestExponent : Nat := 2147483647

def signed (negative : Bool) (x : Float) : Float := if negative then -x else x

/-- The double of a number in parts: digits before and behind the point, and the exponent. -/
def scaledNumber? (negative : Bool) (whole fraction : List Char) (negativeExponent : Bool)
    (exponent : Nat) : Option JsonNumber := do
  let (s, kept) := absorb 0 whole
  let (s, behind) := absorb s fraction
  if greatestExponent < exponent then
    if s ≠ 0 ∧ ¬ negativeExponent then none
    else JsonNumber.ofDouble? (signed negative 0)
  else
    let e : Int := if negativeExponent then -exponent else exponent
    let x ← scaled? (doubleOfInt s) (e + (whole.length - kept : Nat) - behind)
    JsonNumber.ofDouble? (signed negative x)

def wholeNumber? (negative : Bool) (whole : List Char) : Option JsonNumber :=
  let n := digitsValue whole
  if greatestSignificand < n then scaledNumber? negative whole [] false 0
  else if negative then
    if 0 < n ∧ n ≤ 9223372036854775808 then JsonNumber.ofInt? (-n)
    else JsonNumber.ofDouble? (-(doubleOfInt n))
  else JsonNumber.ofInt? n

/-- Digits before the point: zero alone, or any that do not start with zero. -/
def wholeDigits? (cs : List Char) : Option (List Char × List Char) :=
  let ds := cs.takeWhile Char.isDigit
  if ds = [] ∨ (ds.head? = some '0' ∧ ds.length ≠ 1) then none
  else some (ds, cs.dropWhile Char.isDigit)

def someDigits? (cs : List Char) : Option (List Char × List Char) :=
  let ds := cs.takeWhile Char.isDigit
  if ds = [] then none else some (ds, cs.dropWhile Char.isDigit)

/-- The exponent behind a mark: its sign, its digits and the rest. -/
def exponentPart? : List Char → Option (Bool × Nat × List Char)
  | '-' :: cs => (someDigits? cs).map fun (ds, cs) => (true, digitsValue ds, cs)
  | '+' :: cs => (someDigits? cs).map fun (ds, cs) => (false, digitsValue ds, cs)
  | cs => (someDigits? cs).map fun (ds, cs) => (false, digitsValue ds, cs)

def isExponentMark (c : Char) : Bool := c = 'e' || c = 'E'

def unsignedNumber? (negative : Bool) (cs : List Char) : Option (JsonNumber × List Char) := do
  let (whole, cs) ← wholeDigits? cs
  match cs with
  | '.' :: cs =>
    let (fraction, cs) ← someDigits? cs
    match cs with
    | c :: more =>
      if isExponentMark c then
        let (negativeExponent, exponent, cs) ← exponentPart? more
        let n ← scaledNumber? negative whole fraction negativeExponent exponent
        some (n, cs)
      else
        let n ← scaledNumber? negative whole fraction false 0
        some (n, c :: more)
    | [] =>
      let n ← scaledNumber? negative whole fraction false 0
      some (n, [])
  | c :: more =>
    if isExponentMark c then
      let (negativeExponent, exponent, cs) ← exponentPart? more
      let n ← scaledNumber? negative whole [] negativeExponent exponent
      some (n, cs)
    else
      let n ← wholeNumber? negative whole
      some (n, c :: more)
  | [] =>
    let n ← wholeNumber? negative whole
    some (n, [])

def number? : List Char → Option (JsonNumber × List Char)
  | '-' :: cs => unsignedNumber? true cs
  | cs => unsignedNumber? false cs

def hexValue? (c : Char) : Option Nat :=
  if c.isDigit then some (c.toNat - '0'.toNat)
  else if 'a' ≤ c ∧ c ≤ 'f' then some (c.toNat - 'a'.toNat + 10)
  else if 'A' ≤ c ∧ c ≤ 'F' then some (c.toNat - 'A'.toNat + 10)
  else none

def hexUnit? : List Char → Option (Nat × List Char)
  | a :: b :: c :: d :: cs => do
    let a ← hexValue? a
    let b ← hexValue? b
    let c ← hexValue? c
    let d ← hexValue? d
    some (4096 * a + 256 * b + 16 * c + d, cs)
  | _ => none

/-- The character of an escape after its `u`; the halves of a pair come together. -/
def escapedCode? (cs : List Char) : Option (Char × List Char) := do
  let (unit, cs) ← hexUnit? cs
  if 0xdc00 ≤ unit ∧ unit ≤ 0xdfff then none
  else if 0xd800 ≤ unit ∧ unit ≤ 0xdbff then
    match cs with
    | '\\' :: 'u' :: cs => do
      let (low, cs) ← hexUnit? cs
      if 0xdc00 ≤ low ∧ low ≤ 0xdfff then
        some (Char.ofNat (0x10000 + 0x400 * (unit - 0xd800) + (low - 0xdc00)), cs)
      else none
    | _ => none
  else some (Char.ofNat unit, cs)

def stringChar? : List Char → Option (Char × List Char)
  | '\\' :: '"' :: cs => some ('"', cs)
  | '\\' :: '\\' :: cs => some ('\\', cs)
  | '\\' :: '/' :: cs => some ('/', cs)
  | '\\' :: 'b' :: cs => some ('\x08', cs)
  | '\\' :: 'f' :: cs => some ('\x0c', cs)
  | '\\' :: 'n' :: cs => some ('\n', cs)
  | '\\' :: 'r' :: cs => some ('\r', cs)
  | '\\' :: 't' :: cs => some ('\t', cs)
  | '\\' :: 'u' :: cs => escapedCode? cs
  | '\\' :: _ => none
  | c :: cs => if c.toNat < 0x20 then none else some (c, cs)
  | [] => none

/-- The rest of a string after its opening quote, in at most `fuel` characters. -/
def stringRest? : Nat → List Char → Option (List Char × List Char)
  | _, '"' :: cs => some ([], cs)
  | 0, _ => none
  | fuel + 1, cs => do
    let (c, cs) ← stringChar? cs
    let (body, cs) ← stringRest? fuel cs
    some (c :: body, cs)

def string? : List Char → Option (String × List Char)
  | '"' :: cs => (stringRest? cs.length cs).map fun (body, cs) => (String.ofList body, cs)
  | _ => none

/-- A member up to and with its colon: the name and what follows. -/
def memberName? (cs : List Char) : Option (String × List Char) := do
  let (name, cs) ← string? cs
  match skipBlanks cs with
  | ':' :: cs => some (name, cs)
  | _ => none

mutual

/-- One value, after blanks, with `depth` levels of nesting left. Every second call at the
latest takes a character off the text, which bounds the fuel. -/
def value? (depth : Nat) : Nat → List Char → Option (Json × List Char)
  | 0, _ => none
  | fuel + 1, cs =>
    match skipBlanks cs with
    | 'n' :: 'u' :: 'l' :: 'l' :: cs => some (.null, cs)
    | 't' :: 'r' :: 'u' :: 'e' :: cs => some (.bool true, cs)
    | 'f' :: 'a' :: 'l' :: 's' :: 'e' :: cs => some (.bool false, cs)
    | '"' :: cs => (string? ('"' :: cs)).map fun (s, cs) => (.string s, cs)
    | '[' :: cs =>
      if depth = 0 then none
      else
        match skipBlanks cs with
        | ']' :: cs => some (.array [], cs)
        | cs => (items? (depth - 1) fuel cs).map fun (xs, cs) => (.array xs, cs)
    | '\x7b' :: cs =>
      if depth = 0 then none
      else
        match skipBlanks cs with
        | '\x7d' :: cs => some (.object [], cs)
        | cs => (members? (depth - 1) fuel cs).map fun (ms, cs) => (.ofMembers ms, cs)
    | cs => (number? cs).map fun (n, cs) => (.number n, cs)

def items? (depth : Nat) : Nat → List Char → Option (List Json × List Char)
  | 0, _ => none
  | fuel + 1, cs => do
    let (x, cs) ← value? depth fuel cs
    match skipBlanks cs with
    | ',' :: cs =>
      let (xs, cs) ← items? depth fuel cs
      some (x :: xs, cs)
    | ']' :: cs => some ([x], cs)
    | _ => none

def members? (depth : Nat) : Nat → List Char → Option (List (String × Json) × List Char)
  | 0, _ => none
  | fuel + 1, cs => do
    let (name, cs) ← memberName? (skipBlanks cs)
    let (v, cs) ← value? depth fuel cs
    match skipBlanks cs with
    | ',' :: cs =>
      let (ms, cs) ← members? depth fuel cs
      some ((name, v) :: ms, cs)
    | '\x7d' :: cs => some ([(name, v)], cs)
    | _ => none

end

def parse? (text : String) : Option Json :=
  let cs := text.toList
  match value? mostNested (2 * cs.length + 2) cs with
  | some (j, rest) => if skipBlanks rest = [] then some j else none
  | none => none

end Formula.Json
