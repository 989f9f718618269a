import Formula.Functions.Numeric

/-!
# The library of functions

Every formula can call these functions. The present moment and chance come from the
surroundings, which are fixed while the library is in use. The functions on dates and spans are here, too.
-/

namespace Formula

open Number Time

namespace Functions

/-- Milliseconds since the start of 1970, of a date or of the present moment. -/
def ticks (now : Moment) (s : Strategy) (args : List Value) : Result :=
  let ofMoment (m : Moment) : Value := .long (Int64.ofInt m.millis)
  match args with
  | [] => .ok (ofMoment now)
  | [v] => (Arguments.toMoment? s v).map (Arguments.orNull ofMoment)
  | _ => .error (.wrongParameterCount (.oneOf "0 or 1") args.length)

/-- The moment of a date, a time of day and milliseconds of any number and sign. -/
def momentOf? (year month day hour minute second millis : Int) : Option Moment :=
  if 0 ≤ month ∧ 0 ≤ day ∧ 0 ≤ hour ∧ 0 ≤ minute ∧ 0 ≤ second ∧ second < 60 then do
    let m ← Moment.ofFields? ⟨year, month.toNat, day.toNat⟩ hour.toNat minute.toNat second.toNat 0
    let x ← Span.ofMillis? millis
    m.add? x
  else none

/-- A date from a text, a number or its parts, of which the year, the month and the day
have to be given. -/
def date (s : Strategy) (args : List Value) : Result :=
  match args with
  | [v] => (Arguments.toMoment? s v).map (Arguments.orNull .dateTime)
  | _ =>
    if 3 ≤ args.length ∧ args.length ≤ 7 then
      match args.mapM (Arguments.toLong s) with
      | .error e => .error e
      | .ok parts =>
        let part (i : Nat) : Int := parts.getD i 0
        match momentOf? (part 0) (part 1) (part 2) (part 3) (part 4) (part 5) (part 6) with
        | some m => .ok (.dateTime m)
        | none => .error (.invalidArgument (.invalidDate (part 0) (part 1) (part 2)))
    else .error (.wrongParameterCount (.oneOf "1 or 3 to 7") args.length)

/-- Milliseconds of days, hours, minutes, seconds and milliseconds, while every step of the
sum fits 64 bits. -/
def millisOf? (days hours minutes seconds millis : Int) : Option Int := do
  let fits (n : Int) : Option Int := if FitsInt64 n then some n else none
  let n ← fits (days * 24)
  let n ← fits (n + hours)
  let n ← fits (n * 60)
  let n ← fits (n + minutes)
  let n ← fits (n * 60)
  let n ← fits (n + seconds)
  let n ← fits (n * 1000)
  fits (n + millis)

def spanOf (days hours minutes seconds millis : Int) : Result :=
  match (millisOf? days hours minutes seconds millis).bind Span.ofMillis? with
  | some x => .ok (.timeSpan x)
  | none => .error (.overflow .makeSpan)

/-- A span from milliseconds, from hours to seconds, or from days to seconds or
milliseconds. -/
def timeSpan (s : Strategy) (args : List Value) : Result :=
  match args.mapM (Arguments.toLong s) with
  | .error e => .error e
  | .ok [millis] => spanOf 0 0 0 0 millis
  | .ok [h, m, sec] => spanOf 0 h m sec 0
  | .ok [d, h, m, sec] => spanOf d h m sec 0
  | .ok [d, h, m, sec, millis] => spanOf d h m sec millis
  | .ok _ => .error (.wrongParameterCount (.oneOf "1, 3, 4 or 5") args.length)

def dayOfWeek (s : Strategy) : List Value → Result :=
  Arguments.unary fun v =>
    (Arguments.toMoment? s v).map
      (Arguments.orNull fun m => .integer (Int32.ofInt m.weekday))

end Functions

structure Surroundings where
  now : Time.Moment
  /-- A number from 0 up to 1. -/
  chance : Float

namespace Functions

open Number

def presentMoment (around : Surroundings) (args : List Value) : Result :=
  Arguments.expectCount 0 args (.ok (.dateTime around.now))

/-- The functions in their usual order; some have two names. -/
def libraryList (around : Surroundings) : List Function :=
  [⟨"Now", fun _ => presentMoment around⟩,
    ⟨"Time", fun _ => presentMoment around⟩,
    ⟨"Ticks", ticks around.now⟩,
    ⟨"Date", date⟩,
    ⟨"TimeSpan", timeSpan⟩,
    ⟨"DayOfWeek", dayOfWeek⟩,
    ⟨"Min", min⟩,
    ⟨"Max", max⟩,
    ⟨"Sum", sum⟩,
    ⟨"If", choice⟩,
    ⟨"Choose", choose⟩,
    ⟨"E", fun _ => constant e⟩,
    ⟨"Pi", fun _ => constant pi⟩,
    ⟨"Rnd", fun _ => constant around.chance⟩,
    ⟨"Random", fun _ => constant around.chance⟩,
    ⟨"Abs", abs⟩,
    ⟨"Acos", real Float.acos⟩,
    ⟨"Asin", real Float.asin⟩,
    ⟨"Atan", real Float.atan⟩,
    ⟨"Exp", real Float.exp⟩,
    ⟨"Log", real Float.log⟩,
    ⟨"Ln", real Float.log⟩,
    ⟨"Log10", real Float.log10⟩,
    ⟨"Ceil", real (roundWhole .ceiling)⟩,
    ⟨"Ceiling", real (roundWhole .ceiling)⟩,
    ⟨"Floor", real (roundWhole .floor)⟩,
    ⟨"Round", round⟩,
    ⟨"Trunc", trunc⟩,
    ⟨"Truncate", trunc⟩,
    ⟨"Cos", real Float.cos⟩,
    ⟨"Sin", real Float.sin⟩,
    ⟨"Tan", real Float.tan⟩,
    ⟨"Sqr", real Float.sqrt⟩,
    ⟨"Sqrt", real Float.sqrt⟩,
    ⟨"Empty", fun _ => isEmpty⟩,
    ⟨"Null", fun _ => null⟩,
    ⟨"Contains", contains⟩,
    ⟨"Array", fun _ => array⟩]

def library (around : Surroundings) : Functions := addAll {} (libraryList around)

end Functions

end Formula
