import Formula.Time.Moment
import Mathlib.Data.Int.Init
import Mathlib.Tactic.IntervalCases
import Mathlib.Tactic.SplitIfs

/-!
# Dates and their numbers

The dates of the calendar are numbered without gaps: a valid date comes back from its number, every
number is that of a valid date, and a later date has a greater number.
-/

namespace Formula.Time.Date

/-- The days from March of year zero to March of a year. -/
def daysBefore (year : Int) : Int := 365 * year + year / 4 - year / 100 + year / 400

/-- A year that begins in March ends with the February of the next one. -/
def yearLength (year : Int) : Int := if IsLeapYear (year + 1) then 366 else 365

theorem daysBefore_succ (year : Int) : daysBefore (year + 1) = daysBefore year + yearLength year := by
  unfold daysBefore yearLength IsLeapYear
  split_ifs with hleap <;> omega

theorem yearLength_bounds (year : Int) : 365 ≤ yearLength year ∧ yearLength year ≤ 366 := by
  unfold yearLength
  split_ifs <;> decide

theorem daysBefore_le {a b : Int} (h : a ≤ b) : daysBefore a ≤ daysBefore b := by
  unfold daysBefore
  rcases Int.lt_or_eq_of_le h with hlt | rfl
  · omega
  · exact Int.le_refl _

theorem yearOfEra_eq {year day n : Int} (hyear : 0 ≤ year ∧ year < 400)
    (hday : 0 ≤ day ∧ day < yearLength year) (hn : n = daysBefore year + day) :
    (n - n / 1460 + n / 36524 - n / 146096) / 365 = year := by
  -- centuries, leap cycles within the century, and years within the cycle
  obtain ⟨c, q, r, rfl, hc, hq, hr⟩ : ∃ c q r, year = 100 * c + 4 * q + r ∧
      (0 ≤ c ∧ c < 4) ∧ (0 ≤ q ∧ q < 25) ∧ 0 ≤ r ∧ r < 4 :=
    ⟨year / 100, year % 100 / 4, year % 4, by omega, by omega, by omega, by omega⟩
  have hlast : day = 365 → r = 3 ∧ (q = 24 → c = 3) := by
    rintro rfl
    unfold yearLength IsLeapYear at hday
    split_ifs at hday <;> omega
  have hsmall : day ≤ 365 := by
    have hlength := (yearLength_bounds (100 * c + 4 * q + r)).2
    omega
  replace hn : n = 36524 * c + 1461 * q + 365 * r + day := by
    unfold daysBefore at hn
    omega
  clear hyear
  by_cases hend : n = 146096
  · subst hend
    omega
  · have hera : n / 146096 = 0 := by omega
    have hcentury : n / 36524 = c := by omega
    by_cases hcycle : 1460 ≤ 24 * c + q + 365 * r + day
    · have hfour : n / 1460 = 25 * c + q + 1 := by omega
      omega
    · have hfour : n / 1460 = 25 * c + q := by omega
      omega

theorem exists_year (n : Int) : ∃ year day, n = daysBefore year + day ∧ 0 ≤ day ∧
    day < yearLength year := by
  induction n using Int.induction_on with
  | zero => exact ⟨0, 0, rfl, by decide, by decide⟩
  | succ n ih =>
    obtain ⟨year, day, hn, hfirst, hlast⟩ := ih
    by_cases hnext : day + 1 < yearLength year
    · exact ⟨year, day + 1, by omega, by omega, hnext⟩
    · have hsucc := daysBefore_succ year
      have hlength := yearLength_bounds (year + 1)
      exact ⟨year + 1, 0, by omega, by omega, by omega⟩
  | pred n ih =>
    obtain ⟨year, day, hn, hfirst, hlast⟩ := ih
    by_cases hbefore : 0 < day
    · exact ⟨year, day - 1, by omega, by omega, by omega⟩
    · have hsucc := daysBefore_succ (year - 1)
      rw [Int.sub_add_cancel] at hsucc
      have hlength := yearLength_bounds (year - 1)
      exact ⟨year - 1, yearLength (year - 1) - 1, by omega, by omega, by omega⟩

/-- The days of a year that begins in March before a month, March being month zero. -/
def daysBeforeMonth (month : Int) : Int := (153 * month + 2) / 5

theorem month_eq_iff {day month : Int} : (5 * day + 2) / 153 = month ↔
    daysBeforeMonth month ≤ day ∧ day < daysBeforeMonth (month + 1) := by
  unfold daysBeforeMonth
  omega

def marchYear (d : Date) : Int := if d.month ≤ 2 then d.year - 1 else d.year

def marchMonth (d : Date) : Int := if d.month ≤ 2 then d.month + 9 else d.month - 3

def dayOfYear (d : Date) : Int := daysBeforeMonth d.marchMonth + (d.day - 1)

theorem dayNumber_eq (d : Date) :
    d.dayNumber = daysBefore d.marchYear + d.dayOfYear - epochDay := by
  unfold dayNumber daysBefore dayOfYear daysBeforeMonth marchYear marchMonth
  dsimp only
  omega

/-- The date of a day of a year that begins in March. -/
def ofDayOfYear (year day : Int) : Date :=
  let month := (5 * day + 2) / 153
  { year := if month < 10 then year else year + 1
    month := (if month < 10 then month + 3 else month - 9).toNat
    day := (day - daysBeforeMonth month + 1).toNat }

section

variable {d e : Date} {year day : Int}

theorem ofDayNumber_eq {n : Int} (hday : 0 ≤ day ∧ day < yearLength year)
    (hn : n + epochDay = daysBefore year + day) : ofDayNumber n = ofDayOfYear year day := by
  have hlength : yearLength (year % 400) = yearLength year := by
    unfold yearLength IsLeapYear
    split_ifs <;> omega
  have hdays : n + epochDay = 146097 * (year / 400) + (daysBefore (year % 400) + day) := by
    rw [hn]
    unfold daysBefore
    omega
  have hera : 0 ≤ daysBefore (year % 400) + day ∧ daysBefore (year % 400) + day < 146097 := by
    have hfirst := daysBefore_le (show 0 ≤ year % 400 by omega)
    have hnext := daysBefore_le (show year % 400 + 1 ≤ 400 by omega)
    rw [daysBefore_succ, hlength] at hnext
    have hzero : daysBefore 0 = 0 := rfl
    have hlast : daysBefore 400 = 146097 := rfl
    omega
  have hquotient : (n + epochDay) / 146097 = year / 400 := by omega
  have hrest : (n + epochDay) % 146097 = daysBefore (year % 400) + day := by omega
  have hyear := yearOfEra_eq (show 0 ≤ year % 400 ∧ year % 400 < 400 by omega) (by rwa [hlength]) hrest
  have hdayOfYear : daysBefore (year % 400) + day -
      (365 * (year % 400) + year % 400 / 4 - year % 400 / 100) = day := by
    unfold daysBefore
    omega
  unfold ofDayNumber ofDayOfYear daysBeforeMonth
  dsimp only
  rw [hyear, hrest, hquotient, hdayOfYear, show year % 400 + 400 * (year / 400) = year by omega]

theorem IsValid.day_le (h : d.IsValid) : d.day ≤ 31 ∧
    (d.month = 4 ∨ d.month = 6 ∨ d.month = 9 ∨ d.month = 11 → d.day ≤ 30) ∧
    (d.month = 2 → d.day ≤ 28 ∨ d.day = 29 ∧ IsLeapYear d.year) := by
  have hlength := h.2.2.2
  unfold daysInMonth at hlength
  split_ifs at hlength with hfebruary hleap hshort
  · have hlast : d.day ≤ 28 ∨ d.day = 29 ∧ IsLeapYear d.year :=
      (Nat.lt_or_eq_of_le hlength).imp Nat.le_of_lt_succ (⟨·, hleap⟩)
    exact ⟨by omega, by omega, fun _ => hlast⟩
  · exact ⟨by omega, by omega, fun _ => .inl hlength⟩
  · exact ⟨by omega, fun _ => hlength, fun h => absurd h hfebruary⟩
  · exact ⟨hlength, fun h => absurd h hshort, fun h => absurd h hfebruary⟩

theorem IsValid.dayOfYear_bounds (h : d.IsValid) :
    daysBeforeMonth d.marchMonth ≤ d.dayOfYear ∧
    d.dayOfYear < daysBeforeMonth (d.marchMonth + 1) ∧
    0 ≤ d.dayOfYear ∧ d.dayOfYear < yearLength d.marchYear := by
  obtain ⟨hlong, hshort, hfebruary⟩ := h.day_le
  obtain ⟨hfirst, hlast, hday, -⟩ := h
  obtain ⟨year, month, day⟩ := d
  unfold dayOfYear marchMonth marchYear yearLength daysBeforeMonth
  unfold IsLeapYear at *
  dsimp only at *
  interval_cases month
  all_goals
    simp only [Nat.reduceLeDiff, if_true, if_false]
    split_ifs <;> omega

theorem ofDayOfYear_dayOfYear (h : d.IsValid) : ofDayOfYear d.marchYear d.dayOfYear = d := by
  obtain ⟨hmonth, hnext, -⟩ := h.dayOfYear_bounds
  obtain ⟨hfirst, hlast, hday, -⟩ := h
  unfold ofDayOfYear
  rw [month_eq_iff.mpr ⟨hmonth, hnext⟩]
  unfold dayOfYear marchMonth marchYear
  obtain ⟨year, month, day⟩ := d
  dsimp only at *
  split_ifs <;> simp <;> omega

theorem month_bounds (hday : 0 ≤ day ∧ day < yearLength year) :
    0 ≤ (5 * day + 2) / 153 ∧ (5 * day + 2) / 153 < 12 := by
  have hlength := (yearLength_bounds year).2
  omega

theorem isValid_ofDayOfYear (hday : 0 ≤ day ∧ day < yearLength year) :
    (ofDayOfYear year day).IsValid := by
  obtain ⟨hlow, hhigh⟩ := month_bounds hday
  obtain ⟨hmonth, hnext⟩ := month_eq_iff.mp (Eq.refl ((5 * day + 2) / 153))
  unfold yearLength IsLeapYear at hday
  unfold ofDayOfYear IsValid daysInMonth IsLeapYear
  generalize (5 * day + 2) / 153 = month at *
  unfold daysBeforeMonth at *
  dsimp only
  interval_cases month
  all_goals
    simp
    split_ifs at * <;> omega

theorem dayOfYear_ofDayOfYear (hday : 0 ≤ day ∧ day < yearLength year) :
    (ofDayOfYear year day).marchYear = year ∧ (ofDayOfYear year day).dayOfYear = day := by
  obtain ⟨hlow, hhigh⟩ := month_bounds hday
  obtain ⟨hmonth, -⟩ := month_eq_iff.mp (Eq.refl ((5 * day + 2) / 153))
  have hmarch : (ofDayOfYear year day).marchMonth = (5 * day + 2) / 153 := by
    unfold ofDayOfYear marchMonth
    dsimp only
    split_ifs <;> omega
  constructor
  · unfold ofDayOfYear marchYear
    dsimp only
    split_ifs <;> omega
  · rw [dayOfYear, hmarch]
    unfold ofDayOfYear
    dsimp only
    omega

theorem ofDayNumber_dayNumber (h : d.IsValid) : ofDayNumber d.dayNumber = d := by
  rw [ofDayNumber_eq h.dayOfYear_bounds.2.2, ofDayOfYear_dayOfYear h]
  rw [dayNumber_eq]
  exact Int.sub_add_cancel _ _

theorem dayNumber_ofDayNumber (n : Int) :
    (ofDayNumber n).IsValid ∧ (ofDayNumber n).dayNumber = n := by
  obtain ⟨year, day, hn, hday⟩ := exists_year (n + epochDay)
  obtain ⟨hyear, hdayOfYear⟩ := dayOfYear_ofDayOfYear hday
  rw [ofDayNumber_eq hday hn]
  refine ⟨isValid_ofDayOfYear hday, ?_⟩
  rw [dayNumber_eq, hyear, hdayOfYear]
  omega

def Before (d e : Date) : Prop :=
  d.year < e.year ∨ d.year = e.year ∧ (d.month < e.month ∨ d.month = e.month ∧ d.day < e.day)

theorem dayNumber_lt (hd : d.IsValid) (he : e.IsValid) (h : d.Before e) :
    d.dayNumber < e.dayNumber := by
  obtain ⟨hmonth, hnext, hfirst, hlast⟩ := hd.dayOfYear_bounds
  obtain ⟨hmonth', hnext', hfirst', hlast'⟩ := he.dayOfYear_bounds
  have hmarch : d.marchYear < e.marchYear ∨ d.marchYear = e.marchYear ∧
      (d.marchMonth < e.marchMonth ∨ d.marchMonth = e.marchMonth ∧ d.day < e.day) := by
    obtain ⟨hlow, hhigh, -⟩ := hd
    obtain ⟨hlow', hhigh', -⟩ := he
    unfold Before at h
    unfold marchYear marchMonth
    split_ifs <;> omega
  rw [dayNumber_eq, dayNumber_eq]
  obtain hyear | ⟨hyear, hmonths | ⟨hmonths, hdays⟩⟩ := hmarch
  · have hyears := daysBefore_le (show d.marchYear + 1 ≤ e.marchYear by omega)
    rw [daysBefore_succ] at hyears
    omega
  · have hbetween : daysBeforeMonth (d.marchMonth + 1) ≤ daysBeforeMonth e.marchMonth := by
      unfold daysBeforeMonth
      omega
    rw [hyear]
    omega
  · unfold dayOfYear
    rw [hyear, hmonths]
    omega

end

end Formula.Time.Date
