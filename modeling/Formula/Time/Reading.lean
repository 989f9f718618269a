import Formula.Time.Moment
import Formula.Text.Characters
import Formula.Number.Integers

/-!
# Reading moments

Two families of texts denote moments. The strict form has fields of fixed width, a `T` or
a space between date and time, and an offset from universal time. The loose forms have no
offset, fields of one or two digits, years of up to four digits or of any length after a
sign, blanks before any number, and the time may be left out.
-/

namespace Formula.Time

open Text Number

def expect? (c : Char) : List Char → Option (List Char)
  | d :: cs => if d = c then some cs else none
  | [] => none

/-- A number of `least` to `most` digits, as many as there are. -/
def number? (least most : Nat) (cs : List Char) : Option (Nat × List Char) :=
  let ds := (cs.take most).takeWhile Char.isDigit
  if least ≤ ds.length then some (digitsValue ds, cs.drop ds.length) else none

/-- Digits behind a decimal point as nanoseconds; those after the ninth are skipped. -/
def nanos? (cs : List Char) : Option (Nat × List Char) :=
  let ds := cs.takeWhile Char.isDigit
  let kept := ds.take 9
  if ds = [] then none
  else some (digitsValue kept * Nat.pow 10 (9 - kept.length), cs.drop ds.length)

def fraction? : List Char → Option (Nat × List Char)
  | '.' :: cs => nanos? cs
  | cs => some (0, cs)

/-- The offset from universal time in minutes. -/
def offset? : List Char → Option (Int × List Char)
  | 'Z' :: cs => some (0, cs)
  | 'z' :: cs => some (0, cs)
  | c :: cs => do
    let negative ← if c = '+' then some false else if c = '-' ∨ c = '−' then some true else none
    let (hours, cs) ← number? 2 2 cs
    let cs ← expect? ':' cs
    let (minutes, cs) ← number? 2 2 cs
    if hours < 24 ∧ minutes < 60 then
      let n : Int := 60 * hours + minutes
      some (if negative then -n else n, cs)
    else none
  | [] => none

def strictMoment? (cs : List Char) : Option Moment := do
  let (year, cs) ← number? 4 4 cs
  let cs ← expect? '-' cs
  let (month, cs) ← number? 2 2 cs
  let cs ← expect? '-' cs
  let (day, cs) ← number? 2 2 cs
  let cs ←
    match cs with
    | c :: cs => if c = 'T' ∨ c = 't' ∨ c = ' ' then some cs else none
    | [] => none
  let (hour, cs) ← number? 2 2 cs
  let cs ← expect? ':' cs
  let (minute, cs) ← number? 2 2 cs
  let cs ← expect? ':' cs
  let (second, cs) ← number? 2 2 cs
  let (nanos, cs) ← fraction? cs
  let (offset, cs) ← offset? cs
  if cs = [] then
    let m ← Moment.ofFields? ⟨year, month, day⟩ hour minute second nanos
    Moment.ofParts? (m.seconds - 60 * offset) m.nanos
  else none

/-- A year of the loose forms, with any number of digits after a sign. -/
def looseYear? (cs : List Char) : Option (Int × List Char) :=
  match trimStart cs with
  | '-' :: cs => (number? 1 cs.length cs).map fun (n, cs) => (-(n : Int), cs)
  | '+' :: cs => (number? 1 cs.length cs).map fun (n, cs) => ((n : Int), cs)
  | cs => (number? 1 4 cs).map fun (n, cs) => ((n : Int), cs)

def looseField? (cs : List Char) : Option (Nat × List Char) := number? 1 2 (trimStart cs)

def looseDate? (cs : List Char) : Option (Date × List Char) := do
  let (year, cs) ← looseYear? cs
  let cs ← expect? '-' cs
  let (month, cs) ← looseField? cs
  let cs ← expect? '-' cs
  let (day, cs) ← looseField? cs
  some (⟨year, month, day⟩, cs)

/-- A loose time of day after a date, to the end of the text. -/
def looseTime? (d : Date) (cs : List Char) : Option Moment := do
  let (hour, cs) ← looseField? cs
  let cs ← expect? ':' cs
  let (minute, cs) ← looseField? cs
  let cs ← expect? ':' cs
  let (second, cs) ← looseField? cs
  let (nanos, cs) ← fraction? cs
  if cs = [] then Moment.ofFields? d hour minute second nanos else none

/-- A date with a time after blanks or after a `T`, or a date alone for its first moment. -/
def looseMoment? (cs : List Char) : Option Moment := do
  let (d, cs) ← looseDate? cs
  match looseTime? d (trimStart cs) with
  | some m => some m
  | none =>
    match (expect? 'T' cs).bind (looseTime? d) with
    | some m => some m
    | none => if cs = [] then Moment.ofFields? d 0 0 0 0 else none

/-- The moment that a text denotes, blanks at its ends aside. -/
def Moment.ofText? (cs : List Char) : Option Moment :=
  let cs := trim cs
  (strictMoment? cs).or (looseMoment? cs)

end Formula.Time
