import Formula.Proofs.Number.Decimal
import Formula.Proofs.Operations.Conversions
import Formula.Proofs.Time.Calendar
import Formula.Time.Reading
import Formula.Time.Moment

/-!
# Moments by their parts

A date and a time of day are a moment if they are parts of the calendar and of a day. The moment is
written with each part in its place and as many digits as the place has, and it is read from that text,
and from one without the letters in it. Moments come in the order of their parts.
-/

namespace Formula.Time

open Number Text

theorem bind_of_eq_some {α β : Type} {o : Option α} {x : α} (h : o = some x) (f : α → Option β) :
    (o >>= f) = f x := by
  subst h
  rfl

/-- A date and a time of day, by parts of any size. -/
structure Parts where
  year : Int
  month : Int
  day : Int
  hour : Int
  minute : Int
  second : Int
  deriving DecidableEq

namespace Parts

def toList (p : Parts) : List Int := [p.year, p.month, p.day, p.hour, p.minute, p.second]

/-- A day of the calendar and a second of that day. -/
def IsValid (p : Parts) : Prop :=
  (1 ≤ p.month ∧ p.month ≤ 12) ∧
  (1 ≤ p.day ∧ p.day ≤ Date.daysInMonth p.year p.month.toNat) ∧
  (0 ≤ p.hour ∧ p.hour < 24) ∧ (0 ≤ p.minute ∧ p.minute < 60) ∧ 0 ≤ p.second ∧ p.second < 60

instance (p : Parts) : Decidable p.IsValid :=
  inferInstanceAs (Decidable ((_ ∧ _) ∧ (_ ∧ _) ∧ (_ ∧ _) ∧ (_ ∧ _) ∧ _ ∧ _))

def HasShortYear (p : Parts) : Prop := 0 ≤ p.year ∧ p.year ≤ 9999

instance (p : Parts) : Decidable p.HasShortYear := inferInstanceAs (Decidable (_ ∧ _))

def date (p : Parts) : Date := ⟨p.year, p.month.toNat, p.day.toNat⟩

def seconds (p : Parts) : Int :=
  p.date.dayNumber * 86400 + (3600 * p.hour + 60 * p.minute + p.second)

/-- Every part with all its digits, date and time being parted by a character. -/
def written (p : Parts) (separator : Char) : List Char :=
  fixedDigits 4 p.year.toNat ++ '-' :: fixedDigits 2 p.month.toNat ++
    '-' :: fixedDigits 2 p.day.toNat ++ separator :: fixedDigits 2 p.hour.toNat ++
    ':' :: fixedDigits 2 p.minute.toNat ++ ':' :: fixedDigits 2 p.second.toNat

variable {p q : Parts}

theorem IsValid.date (h : p.IsValid) : p.date.IsValid := by
  obtain ⟨⟨hmonth, hmonths⟩, ⟨hday, hdays⟩, -⟩ := h
  unfold Date.IsValid Parts.date
  dsimp only
  omega

theorem IsValid.day_le (h : p.IsValid) : p.day ≤ 31 := by
  have hlong := h.date.day_le.1
  unfold Parts.date at hlong
  dsimp only at hlong
  omega

theorem HasShortYear.seconds_bounds (hyear : p.HasShortYear) (h : p.IsValid) :
    firstSecond ≤ p.seconds ∧ p.seconds ≤ lastSecond := by
  obtain ⟨-, -, hfirst, hlast⟩ := h.date.dayOfYear_bounds
  have hlength := (Date.yearLength_bounds p.date.marchYear).2
  have hmarch : -1 ≤ p.date.marchYear ∧ p.date.marchYear ≤ 9999 := by
    obtain ⟨hlow, hhigh⟩ := hyear
    unfold Date.marchYear Parts.date
    dsimp only
    split_ifs <;> omega
  have hlow := Date.daysBefore_le hmarch.1
  have hhigh := Date.daysBefore_le hmarch.2
  rw [show Date.daysBefore (-1) = -366 from rfl] at hlow
  rw [show Date.daysBefore 9999 = 3652059 from rfl] at hhigh
  obtain ⟨-, -, hhour, hminute, hsecond⟩ := h
  unfold seconds firstSecond lastSecond
  rw [Date.dayNumber_eq, Date.epochDay]
  omega

theorem zero_lt_two_mul_nanosPerSecond : 0 < 2 * nanosPerSecond := by decide

def moment (p : Parts) (hyear : p.HasShortYear) (h : p.IsValid) : Moment where
  seconds := p.seconds
  nanos := 0
  ge_first := (hyear.seconds_bounds h).1
  le_last := (hyear.seconds_bounds h).2
  nanos_lt := zero_lt_two_mul_nanosPerSecond

section

variable (hyear : p.HasShortYear) (h : p.IsValid)
include hyear h

theorem ofFields?_eq_some :
    Moment.ofFields? p.date p.hour.toNat p.minute.toNat p.second.toNat 0 =
      some (p.moment hyear h) := by
  have hdate := h.date
  obtain ⟨-, -, hhour, hminute, hsecond⟩ := h
  have hall : p.date.IsValid ∧ p.hour.toNat < 24 ∧ p.minute.toNat < 60 ∧ p.second.toNat ≤ 60 ∧
      0 < nanosPerSecond := ⟨hdate, by omega, by omega, by omega, by decide⟩
  have hleap : p.second.toNat / 60 = 0 := by omega
  unfold Moment.ofFields?
  rw [if_pos hall]
  dsimp only
  rw [hleap, Moment.ofParts?_eq_some_iff]
  refine ⟨?_, rfl⟩
  change p.seconds = _
  unfold seconds secondsPerDay
  omega

end

theorem ofFields?_eq_none (h : ¬ p.IsValid) (hday : 0 ≤ p.month ∧ 0 ≤ p.day)
    (htime : 0 ≤ p.hour ∧ 0 ≤ p.minute ∧ 0 ≤ p.second ∧ p.second < 60) :
    Moment.ofFields? p.date p.hour.toNat p.minute.toNat p.second.toNat 0 = none := by
  refine if_neg ?_
  rintro ⟨⟨hmonth, hmonths, hfirst, hlength⟩, hhour, hminute, -⟩
  unfold Parts.date at hmonth hmonths hfirst hlength
  dsimp only at hmonth hmonths hfirst hlength
  refine h ⟨?_, ?_, ?_, ?_, ?_⟩ <;> omega

section

variable (hyear : p.HasShortYear) (h : p.IsValid)

theorem date_moment : (p.moment hyear h).date = p.date := by
  have hdate := Date.ofDayNumber_dayNumber h.date
  have hday : (p.moment hyear h).dayNumber = p.date.dayNumber := by
    obtain ⟨-, -, hhour, hminute, hsecond⟩ := h
    change p.seconds / (86400 : Int) = _
    unfold seconds
    omega
  rw [Moment.date, hday, hdate]

theorem secondOfDay_moment : (p.moment hyear h).secondOfDay =
    3600 * p.hour.toNat + 60 * p.minute.toNat + p.second.toNat := by
  obtain ⟨-, -, hhour, hminute, hsecond⟩ := h
  change (p.seconds % (86400 : Int)).toNat = _
  unfold seconds
  omega

theorem clock_eq (hour : Nat) {minute second : Nat} (hminute : minute < 60) (hsecond : second < 60) :
    (3600 * hour + 60 * minute + second) / 3600 = hour ∧
    (3600 * hour + 60 * minute + second) / 60 % 60 = minute ∧
    (3600 * hour + 60 * minute + second) % 60 = second := by
  omega

theorem text_moment : (p.moment hyear h).text = p.written 'T' ++ ['Z'] := by
  have hnanos : (p.moment hyear h).nanos = 0 := rfl
  unfold Moment.text
  dsimp only
  rw [date_moment, secondOfDay_moment, hnanos, Nat.zero_div, Nat.add_zero]
  have hday := h.day_le
  obtain ⟨hmonth, ⟨hfirst, -⟩, hhour, hminute, hsecond⟩ := h
  obtain ⟨hlow, hhigh⟩ := hyear
  obtain ⟨hhours, hminutes, hseconds⟩ := clock_eq p.hour.toNat
    (show p.minute.toNat < 60 by omega) (show p.second.toNat < 60 by omega)
  have hquad : padded 4 p.year.toNat = fixedDigits 4 p.year.toNat := padded_eq_fixedDigits (by omega)
  have hpair {n : Int} (hn : n < 100) : padded 2 n.toNat = fixedDigits 2 n.toNat :=
    padded_eq_fixedDigits (by omega)
  rw [hhours, hminutes, hseconds]
  unfold Date.text yearText date written
  dsimp only
  rw [if_pos ⟨hlow, hhigh⟩, hquad, hpair (by omega), hpair (by omega), hpair (by omega),
    hpair (by omega), hpair (by omega)]
  simp [fractionText]

example : (⟨2000, 2, 29, 23, 59, 0⟩ : Parts).written 'T' = "2000-02-29T23:59:00".toList := by decide

end

theorem number?_fixedDigits {least width n : Nat} (hleast : least ≤ width) (hn : n < 10 ^ width)
    (cs : List Char) : number? least width (fixedDigits width n ++ cs) = some (n, cs) := by
  have hdigits : ((fixedDigits width n ++ cs).take width).takeWhile Char.isDigit =
      fixedDigits width n := by
    rw [List.take_left' (length_fixedDigits width n)]
    have hall : ∀ c ∈ fixedDigits width n, c.isDigit = true := fun _ => isDigit_of_mem_fixedDigits
    have hself : (fixedDigits width n ++ []).takeWhile Char.isDigit = fixedDigits width n ++ [] :=
      List.takeWhile_append_of_pos hall
    rwa [List.append_nil] at hself
  unfold number?
  dsimp only
  rw [hdigits, length_fixedDigits, if_pos hleast, digitsValue_fixedDigits hn,
    List.drop_left' (length_fixedDigits width n)]

theorem expect?_cons (c : Char) (cs : List Char) : expect? c (c :: cs) = some cs := by
  simp [expect?]

section

variable (hyear : p.HasShortYear) (h : p.IsValid)
include hyear h

theorem number?_parts (cs : List Char) :
    (∀ least ≤ 4, number? least 4 (fixedDigits 4 p.year.toNat ++ cs) = some (p.year.toNat, cs)) ∧
    ∀ n ∈ [p.month, p.day, p.hour, p.minute, p.second], ∀ least ≤ 2,
      number? least 2 (fixedDigits 2 n.toNat ++ cs) = some (n.toNat, cs) := by
  have hday := h.day_le
  obtain ⟨hmonth, ⟨hfirst, -⟩, hhour, hminute, hsecond⟩ := h
  obtain ⟨hlow, hhigh⟩ := hyear
  refine ⟨fun least hleast => number?_fixedDigits hleast (by omega) cs, fun n hn least hleast => ?_⟩
  refine number?_fixedDigits hleast ?_ cs
  simp only [List.mem_cons, List.not_mem_nil, or_false] at hn
  omega

theorem strictMoment?_written {separator : Char} (hseparator : separator = 'T' ∨ separator = ' ')
    (rest : List Char) : strictMoment? (p.written separator ++ rest) =
      (fraction? rest).bind fun (nanos, cs) => (offset? cs).bind fun (offset, cs) =>
        if cs = [] then
          (Moment.ofFields? p.date p.hour.toNat p.minute.toNat p.second.toNat nanos).bind fun m =>
            Moment.ofParts? (m.seconds - 60 * offset) m.nanos
        else none := by
  have hnumber := number?_parts hyear h
  have hpair : ∀ n ∈ [p.month, p.day, p.hour, p.minute, p.second], ∀ cs,
      number? 2 2 (fixedDigits 2 n.toNat ++ cs) = some (n.toNat, cs) :=
    fun n hn cs => (hnumber cs).2 n hn 2 (Nat.le_refl 2)
  simp only [List.forall_mem_cons] at hpair
  obtain ⟨hm, hd, hh, hmi, hs, -⟩ := hpair
  have hy := fun cs => (hnumber cs).1 4 (Nat.le_refl 4)
  have hdate : (⟨p.year.toNat, p.month.toNat, p.day.toNat⟩ : Date) = p.date := by
    unfold date
    rw [Int.toNat_of_nonneg hyear.1]
  unfold written strictMoment?
  simp only [List.append_assoc, List.cons_append]
  refine (bind_of_eq_some (hy _) _).trans ?_
  refine (bind_of_eq_some (expect?_cons _ _) _).trans ?_
  refine (bind_of_eq_some (hm _) _).trans ?_
  refine (bind_of_eq_some (expect?_cons _ _) _).trans ?_
  refine (bind_of_eq_some (hd _) _).trans ?_
  refine (if_pos (hseparator.imp_right .inr)).trans ?_
  refine (bind_of_eq_some rfl _).trans ?_
  refine (bind_of_eq_some (hh _) _).trans ?_
  refine (bind_of_eq_some (expect?_cons _ _) _).trans ?_
  refine (bind_of_eq_some (hmi _) _).trans ?_
  refine (bind_of_eq_some (expect?_cons _ _) _).trans ?_
  refine (bind_of_eq_some (hs _) _).trans ?_
  rw [← hdate]
  rfl

theorem strictMoment?_text : strictMoment? (p.written 'T' ++ ['Z']) = some (p.moment hyear h) := by
  rw [strictMoment?_written hyear h (.inl rfl)]
  have hfraction : fraction? ['Z'] = some (0, ['Z']) := rfl
  have hoffset : offset? ['Z'] = some (0, []) := rfl
  have hfields := ofFields?_eq_some hyear h
  have hparts := (p.moment hyear h).ofParts?_parts
  simp [hfraction, hoffset, hfields, hparts]

theorem strictMoment?_spaced : strictMoment? (p.written ' ') = none := by
  have hwritten := strictMoment?_written hyear h (.inr rfl) []
  rw [List.append_nil] at hwritten
  rw [hwritten]
  rfl

end

theorem trimStart_fixedDigits (width n : Nat) (cs : List Char) :
    trimStart (fixedDigits (width + 1) n ++ cs) = fixedDigits (width + 1) n ++ cs := by
  obtain ⟨c, r, hcons, hdigit⟩ := exists_cons_fixedDigits width n
  rw [hcons, List.cons_append, trimStart]
  exact List.dropWhile_cons_of_neg (Bool.eq_false_iff.mp (not_isBlank_of_isDigit hdigit))

theorem looseYear?_year (hyear : p.HasShortYear) (cs : List Char) :
    looseYear? (fixedDigits 4 p.year.toNat ++ cs) = some (p.year, cs) := by
  have hnumber : number? 1 4 (fixedDigits 4 p.year.toNat ++ cs) = some (p.year.toNat, cs) := by
    obtain ⟨hlow, hhigh⟩ := hyear
    exact number?_fixedDigits (by decide) (by omega) cs
  unfold looseYear?
  rw [trimStart_fixedDigits]
  split
  case h_1 heq => exact absurd heq (fixedDigits_append_ne_cons rfl)
  case h_2 heq => exact absurd heq (fixedDigits_append_ne_cons rfl)
  case h_3 =>
    rw [hnumber, Option.map_some]
    dsimp only
    rw [Int.toNat_of_nonneg hyear.1]

section

variable (hyear : p.HasShortYear) (h : p.IsValid)
include hyear h

theorem looseField?_parts : ∀ n ∈ [p.month, p.day, p.hour, p.minute, p.second], ∀ cs,
    looseField? (fixedDigits 2 n.toNat ++ cs) = some (n.toNat, cs) := by
  intro n hn cs
  rw [looseField?, trimStart_fixedDigits]
  exact (number?_parts hyear h cs).2 n hn 1 (by decide)

theorem looseDate?_parts (cs : List Char) : looseDate? (fixedDigits 4 p.year.toNat ++ '-' ::
    (fixedDigits 2 p.month.toNat ++ '-' :: (fixedDigits 2 p.day.toNat ++ cs))) =
      some (p.date, cs) := by
  have hfield := looseField?_parts hyear h
  simp only [List.forall_mem_cons] at hfield
  obtain ⟨hm, hd, -⟩ := hfield
  refine (bind_of_eq_some (looseYear?_year hyear _) _).trans ?_
  refine (bind_of_eq_some (expect?_cons _ _) _).trans ?_
  refine (bind_of_eq_some (hm _) _).trans ?_
  refine (bind_of_eq_some (expect?_cons _ _) _).trans ?_
  exact (bind_of_eq_some (hd _) _).trans rfl

theorem looseTime?_parts : looseTime? p.date (fixedDigits 2 p.hour.toNat ++ ':' ::
    (fixedDigits 2 p.minute.toNat ++ ':' :: (fixedDigits 2 p.second.toNat ++ []))) =
      some (p.moment hyear h) := by
  have hfield := looseField?_parts hyear h
  simp only [List.forall_mem_cons] at hfield
  obtain ⟨-, -, hh, hmi, hs, -⟩ := hfield
  refine (bind_of_eq_some (hh _) _).trans ?_
  refine (bind_of_eq_some (expect?_cons _ _) _).trans ?_
  refine (bind_of_eq_some (hmi _) _).trans ?_
  refine (bind_of_eq_some (expect?_cons _ _) _).trans ?_
  refine (bind_of_eq_some (hs _) _).trans ?_
  exact ofFields?_eq_some hyear h

theorem looseMoment?_spaced : looseMoment? (p.written ' ') = some (p.moment hyear h) := by
  have hblank (cs : List Char) : trimStart (' ' :: cs) = trimStart cs := rfl
  unfold written looseMoment?
  simp only [List.append_assoc, List.cons_append]
  rw [← List.append_nil (fixedDigits 2 p.second.toNat)]
  refine (bind_of_eq_some (looseDate?_parts hyear h _) _).trans ?_
  dsimp only
  rw [hblank, trimStart_fixedDigits, looseTime?_parts hyear h]

end

theorem exists_cons_written (p : Parts) (separator : Char) :
    ∃ c cs, p.written separator = c :: cs ∧ isBlank c = false := by
  obtain ⟨c, cs, hcons, hdigit⟩ := exists_cons_fixedDigits 3 p.year.toNat
  rw [written, hcons]
  exact ⟨c, _, rfl, not_isBlank_of_isDigit hdigit⟩

theorem exists_concat_written (p : Parts) (separator : Char) :
    ∃ cs c, p.written separator = cs ++ [c] ∧ isBlank c = false := by
  have hmem : Nat.digitChar (p.second.toNat % 10) ∈ fixedDigits 1 p.second.toNat := .head []
  have happend (cs : List Char) := List.append_assoc cs (':' :: fixedDigits 1 (p.second.toNat / 10))
  exact ⟨_, _, (happend _ _).symm, not_isBlank_of_isDigit (isDigit_of_mem_fixedDigits hmem)⟩

section

variable (hyear : p.HasShortYear) (h : p.IsValid)
include hyear h

theorem ofText?_text : Moment.ofText? (p.written 'T' ++ ['Z']) = some (p.moment hyear h) := by
  obtain ⟨c, cs, hcons, hc⟩ := p.exists_cons_written 'T'
  have htrim : trim (p.written 'T' ++ ['Z']) = p.written 'T' ++ ['Z'] :=
    trim_eq_self_of_ends hc (d := 'Z') rfl (congrArg (· ++ ['Z']) hcons) rfl
  rw [Moment.ofText?, htrim, strictMoment?_text hyear h, Option.some_or]

theorem ofText?_spaced : Moment.ofText? (p.written ' ') = some (p.moment hyear h) := by
  obtain ⟨c, cs, hcons, hc⟩ := p.exists_cons_written ' '
  obtain ⟨ds, d, hconcat, hd⟩ := p.exists_concat_written ' '
  rw [Moment.ofText?, trim_eq_self_of_ends hc hd hcons hconcat, strictMoment?_spaced hyear h,
    Option.none_or, looseMoment?_spaced hyear h]

end

theorem seconds_lt (hp : p.IsValid) (hq : q.IsValid) (h : p.toList < q.toList) :
    p.seconds < q.seconds := by
  have hdays (hbefore : p.date.Before q.date) : p.date.dayNumber < q.date.dayNumber :=
    Date.dayNumber_lt hp.date hq.date hbefore
  obtain ⟨hmonth, ⟨hday, -⟩, hhour, hminute, hsecond⟩ := hp
  obtain ⟨hmonth', ⟨hday', -⟩, hhour', hminute', hsecond'⟩ := hq
  simp only [toList, List.cons_lt_cons_iff, List.lt_irrefl, and_false, or_false] at h
  have hcases : p.date.Before q.date ∨ p.date = q.date ∧ (p.hour < q.hour ∨ p.hour = q.hour ∧
      (p.minute < q.minute ∨ p.minute = q.minute ∧ p.second < q.second)) := by
    unfold Date.Before date
    rw [Date.mk.injEq]
    dsimp only
    omega
  unfold seconds
  rcases hcases with hbefore | ⟨hsame, htime⟩
  · have hlater := hdays hbefore
    omega
  · rw [hsame]
    omega

end Parts

end Formula.Time
