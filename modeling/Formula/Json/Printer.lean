import Formula.Json.Basic
import Formula.Number.Numeral

/-!
# JSON as text

Doubles are written with the fewest digits that read back: with a point and at least one
decimal from `1e-5` up to `1e16`, and with one digit before the point and a signed exponent
outside. In strings the quote, the backslash and the controls below space are escaped. The
compact form has no blanks; the indented form has one member or item to a line and two
spaces for each level.
-/

namespace Formula.Json

open Number

/-- Positional notation with a point and a decimal in any case. -/
def pointed (x : Decimal) : List Char :=
  if 0 ≤ x.exponent then x.positional ++ ['.', '0'] else x.positional

def scientific (x : Decimal) : List Char :=
  let ds := digits x.coefficient
  let e := x.exponent + (ds.length - 1 : Nat)
  let mantissa :=
    match ds with
    | d :: [] => [d]
    | d :: more => d :: '.' :: more
    | [] => []
  mantissa ++ 'e' :: (if e < 0 then '-' else '+') :: digits e.natAbs

def magnitudeText (m : Nat) (e : Int) : List Char :=
  if m = 0 then ['0', '.', '0']
  else
    let x := shortestDecimal binary64 .toEven m e
    let leading := x.exponent + (digitCount x.coefficient - 1 : Nat)
    if -5 ≤ leading ∧ leading < 16 then pointed x else scientific x

def doubleChars (x : Float) : List Char :=
  match readDouble x with
  | .finite negative m e => if negative then '-' :: magnitudeText m e else magnitudeText m e
  | _ => ['n', 'u', 'l', 'l']

def numberChars : JsonNumber → List Char
  | .whole n _ => integerText n
  | .real x _ => doubleChars x

def hexDigit (n : Nat) : Char := Nat.digitChar n

def escapeChar (c : Char) : List Char :=
  match c with
  | '"' => ['\\', '"']
  | '\\' => ['\\', '\\']
  | '\x08' => ['\\', 'b']
  | '\t' => ['\\', 't']
  | '\n' => ['\\', 'n']
  | '\x0c' => ['\\', 'f']
  | '\r' => ['\\', 'r']
  | c =>
    if c.toNat < 0x20 then
      ['\\', 'u', '0', '0', hexDigit (c.toNat / 16), hexDigit (c.toNat % 16)]
    else [c]

def stringChars (s : String) : List Char :=
  '"' :: s.toList.flatMap escapeChar ++ ['"']

def wordChars : Bool → List Char
  | true => ['t', 'r', 'u', 'e']
  | false => ['f', 'a', 'l', 's', 'e']

mutual

def compactChars : Json → List Char
  | .null => ['n', 'u', 'l', 'l']
  | .bool b => wordChars b
  | .number n => numberChars n
  | .string s => stringChars s
  | .array [] => ['[', ']']
  | .array (x :: xs) => '[' :: compactChars x ++ compactItems xs
  | .object [] => ['\x7b', '\x7d']
  | .object ((k, v) :: ms) => '\x7b' :: stringChars k ++ ':' :: compactChars v ++ compactMembers ms

def compactItems : List Json → List Char
  | [] => [']']
  | x :: xs => ',' :: compactChars x ++ compactItems xs

def compactMembers : List (String × Json) → List Char
  | [] => ['\x7d']
  | (k, v) :: ms => ',' :: stringChars k ++ ':' :: compactChars v ++ compactMembers ms

end

def lineBreak (level : Nat) : List Char := '\n' :: List.replicate (2 * level) ' '

mutual

def indentedChars (level : Nat) : Json → List Char
  | .null => ['n', 'u', 'l', 'l']
  | .bool b => wordChars b
  | .number n => numberChars n
  | .string s => stringChars s
  | .array [] => ['[', ']']
  | .array (x :: xs) =>
    '[' :: lineBreak (level + 1) ++ indentedChars (level + 1) x ++ indentedItems level xs
  | .object [] => ['\x7b', '\x7d']
  | .object ((k, v) :: ms) =>
    '\x7b' :: lineBreak (level + 1) ++ stringChars k ++ ':' :: ' ' :: indentedChars (level + 1) v ++
      indentedMembers level ms

def indentedItems (level : Nat) : List Json → List Char
  | [] => lineBreak level ++ [']']
  | x :: xs =>
    ',' :: lineBreak (level + 1) ++ indentedChars (level + 1) x ++ indentedItems level xs

def indentedMembers (level : Nat) : List (String × Json) → List Char
  | [] => lineBreak level ++ ['\x7d']
  | (k, v) :: ms =>
    ',' :: lineBreak (level + 1) ++ stringChars k ++ ':' :: ' ' :: indentedChars (level + 1) v ++
      indentedMembers level ms

end

def compact (j : Json) : String := String.ofList (compactChars j)

def indented (j : Json) : String := String.ofList (indentedChars 0 j)

end Formula.Json
