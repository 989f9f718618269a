import Formula.Number.Integers

/-!
# Moments and spans of time

The Gregorian calendar is extended over all years, with a year zero and negative years before it. Days are
numbered from 1 January 1970. A year is counted from March, so that the leap day comes last and the lengths
of the months before it follow one linear rule. A span is a signed count of nanoseconds that is at most
`2 ^ 63 - 1` milliseconds long. A moment is a count of seconds since the start of 1970 in coordinated
universal time and the nanoseconds within the second. A leap second is counted as part of the second before
it, whose nanoseconds then go up to two thousand million. Moments range over the years -262143 to 262142.

A moment is written as date, time and `Z`, with as many groups of three decimals as its fraction needs, at
most three. Years outside 0 to 9999 carry a sign.
-/

namespace Formula.Time

structure Date where
  year : Int
  month : Nat
  day : Nat
  deriving DecidableEq, Repr

namespace Date

def IsLeapYear (year : Int) : Prop := year % 4 = 0 ∧ (year % 100 ≠ 0 ∨ year % 400 = 0)

instance (year : Int) : Decidable (IsLeapYear year) := inferInstanceAs (Decidable (_ ∧ _))

def daysInMonth (year : Int) (month : Nat) : Nat :=
  if month = 2 then if IsLeapYear year then 29 else 28
  else if month = 4 ∨ month = 6 ∨ month = 9 ∨ month = 11 then 30
  else 31

def IsValid (d : Date) : Prop :=
  1 ≤ d.month ∧ d.month ≤ 12 ∧ 1 ≤ d.day ∧ d.day ≤ daysInMonth d.year d.month

instance (d : Date) : Decidable d.IsValid := inferInstanceAs (Decidable (_ ∧ _ ∧ _ ∧ _))

/-- Days from 1 March of year zero to 1 January 1970. -/
def epochDay : Int := 719468

def dayNumber (d : Date) : Int :=
  let year := if d.month ≤ 2 then d.year - 1 else d.year
  let month : Int := if d.month ≤ 2 then d.month + 9 else d.month - 3
  365 * year + year / 4 - year / 100 + year / 400 + (153 * month + 2) / 5 + (d.day - 1) - epochDay

/-- The date with a given number. Four hundred years have 146097 days. -/
def ofDayNumber (n : Int) : Date :=
  let days := n + epochDay
  let era := days / 146097
  let dayOfEra := days % 146097
  let yearOfEra :=
    (dayOfEra - dayOfEra / 1460 + dayOfEra / 36524 - dayOfEra / 146096) / 365
  let dayOfYear := dayOfEra - (365 * yearOfEra + yearOfEra / 4 - yearOfEra / 100)
  let month := (5 * dayOfYear + 2) / 153
  let day := dayOfYear - (153 * month + 2) / 5 + 1
  let year := yearOfEra + 400 * era
  { year := if month < 10 then year else year + 1
    month := (if month < 10 then month + 3 else month - 9).toNat
    day := day.toNat }

/-- The day of the week, 0 for Sunday; 1 January 1970 was a Thursday. -/
def weekday (n : Int) : Nat := ((n + 4) % 7).toNat

end Date

/-- The longest span, in nanoseconds. -/
def longestSpan : Int := 9223372036854775807 * 1000000

structure Span where
  nanos : Int
  ge_least : -longestSpan ≤ nanos
  le_greatest : nanos ≤ longestSpan
  deriving DecidableEq

namespace Span

def ofNanos? (n : Int) : Option Span :=
  if h : -longestSpan ≤ n ∧ n ≤ longestSpan then some ⟨n, h.1, h.2⟩ else none

def ofMillis? (n : Int) : Option Span := ofNanos? (n * 1000000)

def millis (s : Span) : Int := s.nanos.tdiv 1000000

def neg (s : Span) : Span :=
  ⟨-s.nanos, by have := s.le_greatest; omega, by have := s.ge_least; omega⟩

def add? (a b : Span) : Option Span := ofNanos? (a.nanos + b.nanos)

def sub? (a b : Span) : Option Span := ofNanos? (a.nanos - b.nanos)

theorem ofNanos?_nanos (s : Span) : ofNanos? s.nanos = some s := by
  simp [ofNanos?, s.ge_least, s.le_greatest]

theorem nanos_of_ofNanos? {n : Int} {s : Span} (h : ofNanos? n = some s) : s.nanos = n := by
  unfold ofNanos? at h
  split at h
  · cases h
    rfl
  · cases h

end Span

def nanosPerSecond : Nat := 1000000000

def secondsPerDay : Nat := 86400

def firstSecond : Int := -8334601228800

def lastSecond : Int := 8210266876799

structure Moment where
  seconds : Int
  nanos : Nat
  ge_first : firstSecond ≤ seconds
  le_last : seconds ≤ lastSecond
  nanos_lt : nanos < 2 * nanosPerSecond
  deriving DecidableEq

namespace Moment

def ofParts? (seconds : Int) (nanos : Nat) : Option Moment :=
  if h : firstSecond ≤ seconds ∧ seconds ≤ lastSecond ∧ nanos < 2 * nanosPerSecond then
    some ⟨seconds, nanos, h.1, h.2.1, h.2.2⟩
  else none

def ofNanos? (n : Int) : Option Moment :=
  ofParts? (n / nanosPerSecond) (n % nanosPerSecond).toNat

def ofMillis? (n : Int) : Option Moment :=
  ofParts? (n / 1000) ((n % 1000).toNat * 1000000)

/-- All nanoseconds since the start of 1970, those of a leap second on top of its second. -/
def totalNanos (m : Moment) : Int := m.seconds * nanosPerSecond + m.nanos

def millis (m : Moment) : Int := m.totalNanos / 1000000

def dayNumber (m : Moment) : Int := m.seconds / secondsPerDay

def secondOfDay (m : Moment) : Nat := (m.seconds % secondsPerDay).toNat

def date (m : Moment) : Date := .ofDayNumber m.dayNumber

def weekday (m : Moment) : Nat := Date.weekday m.dayNumber

def InLeapSecond (m : Moment) : Prop := nanosPerSecond ≤ m.nanos

instance (m : Moment) : Decidable m.InLeapSecond := inferInstanceAs (Decidable (_ ≤ _))

/-- The moment at a second of a valid date; `second` 60 is a leap second. -/
def ofFields? (d : Date) (hour minute second nanos : Nat) : Option Moment :=
  if d.IsValid ∧ hour < 24 ∧ minute < 60 ∧ second ≤ 60 ∧ nanos < nanosPerSecond then
    let leap := second / 60
    ofParts? (d.dayNumber * secondsPerDay + (3600 * hour + 60 * minute + (second - leap) : Nat))
      (nanos + leap * nanosPerSecond)
  else none

/-- The moment a span later. A moment inside a leap second stays in it if the span does not
lead out of it; otherwise the leap second is left towards the side the span points to. -/
def add? (m : Moment) (s : Span) : Option Moment :=
  let seconds := s.nanos.tdiv nanosPerSecond
  let nanos := s.nanos.tmod nanosPerSecond
  let move (from_ : Int) (n : Int) : Option Moment :=
    ofParts? (from_ + seconds + (n + nanos) / nanosPerSecond) ((n + nanos) % nanosPerSecond).toNat
  if m.InLeapSecond then
    if 0 < seconds ∨ (0 < nanos ∧ 2 * nanosPerSecond - nanos ≤ m.nanos) then
      move m.seconds (m.nanos - nanosPerSecond)
    else if seconds < 0 then move (m.seconds + 1) (m.nanos - nanosPerSecond)
    else ofParts? m.seconds (m.nanos + nanos).toNat
  else move m.seconds m.nanos

def sub? (m : Moment) (s : Span) : Option Moment := m.add? s.neg

/-- A leap second counts when it lies between the two times of day. -/
def leapBetween (a b : Moment) : Int :=
  if b.secondOfDay < a.secondOfDay ∧ b.InLeapSecond then 1
  else if a.secondOfDay < b.secondOfDay ∧ a.InLeapSecond then -1
  else 0

theorem leapBetween_bounds (a b : Moment) : -1 ≤ leapBetween a b ∧ leapBetween a b ≤ 1 := by
  unfold leapBetween
  split
  · decide
  · split <;> decide

def since (a b : Moment) : Span where
  nanos := (a.seconds - b.seconds + leapBetween a b) * nanosPerSecond + (a.nanos - b.nanos)
  ge_least := by
    have := leapBetween_bounds a b
    have := a.ge_first; have := a.le_last; have := b.ge_first; have := b.le_last
    have := a.nanos_lt; have := b.nanos_lt
    simp only [longestSpan, firstSecond, lastSecond, nanosPerSecond] at *
    omega
  le_greatest := by
    have := leapBetween_bounds a b
    have := a.ge_first; have := a.le_last; have := b.ge_first; have := b.le_last
    have := a.nanos_lt; have := b.nanos_lt
    simp only [longestSpan, firstSecond, lastSecond, nanosPerSecond] at *
    omega

/-- Moments are ordered by their seconds and then by the nanoseconds. -/
def compare (a b : Moment) : Ordering :=
  (Ord.compare a.seconds b.seconds).then (Ord.compare a.nanos b.nanos)

theorem ofParts?_parts (m : Moment) : ofParts? m.seconds m.nanos = some m := by
  simp [ofParts?, m.ge_first, m.le_last, m.nanos_lt]

end Moment

open Number

def yearText (year : Int) : List Char :=
  if 0 ≤ year ∧ year ≤ 9999 then padded 4 year.toNat
  else (if year < 0 then '-' else '+') :: padded 4 year.natAbs

def fractionText (nanos : Nat) : List Char :=
  if nanos = 0 then []
  else if nanos % 1000000 = 0 then '.' :: padded 3 (nanos / 1000000)
  else if nanos % 1000 = 0 then '.' :: padded 6 (nanos / 1000)
  else '.' :: padded 9 nanos

def Date.text (d : Date) : List Char :=
  yearText d.year ++ '-' :: padded 2 d.month ++ '-' :: padded 2 d.day

def Moment.text (m : Moment) : List Char :=
  let s := m.secondOfDay
  let leap := m.nanos / nanosPerSecond
  m.date.text ++ 'T' :: padded 2 (s / 3600) ++ ':' :: padded 2 (s / 60 % 60) ++
    ':' :: padded 2 (s % 60 + leap) ++ fractionText (m.nanos % nanosPerSecond) ++ ['Z']

end Formula.Time
