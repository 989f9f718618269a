import Formula.Functions.Library
import Formula.Proofs.Operations.Exchanging
import Formula.Proofs.Operations.Widths
import Formula.Proofs.Time.Milliseconds
import Formula.Proofs.Time.Parts

/-!
# Dates from parts, from texts and from milliseconds

Six integers make a date if they are parts of the calendar and of a day. Its text, with or without the
letters in it, makes the same date, and the dates come in the order of the parts. One integer makes the
date of so many milliseconds, whose day of the week is a matter of counting days.
-/

namespace Formula

open Number Time

/-- The arguments are the six parts, as integers of either width or truth values. -/
def Time.Parts.IsGivenBy (p : Parts) (args : List Value) : Prop :=
  args.map Value.whole? = p.toList.map some

namespace Functions

variable {args args' : List Value} {p q : Parts}

theorem toLong_whole {v : Value} {n : Int} (h : v.whole? = some n) :
    Arguments.toLong .coercing v = .ok n := by
  cases v with
  | integer m => exact congrArg Except.ok (Option.some.inj h)
  | long m => exact congrArg Except.ok (Option.some.inj h)
  | boolean b =>
    cases b with
    | false => exact congrArg Except.ok (Option.some.inj h)
    | true => exact congrArg Except.ok (Option.some.inj h)
  | _ => cases h

theorem mapM_toLong {ns : List Int} (h : args.map Value.whole? = ns.map some) :
    args.mapM (Arguments.toLong .coercing) = .ok ns := by
  induction args generalizing ns with
  | nil =>
    obtain rfl : ns = [] := by simpa using h.symm
    rfl
  | cons v args ih =>
    cases ns with
    | nil => cases h
    | cons n ns =>
      obtain ⟨hv, hrest⟩ := List.cons.inj h
      rw [List.mapM_cons, toLong_whole hv, ih hrest]
      rfl

section

variable {s : Strategy} {v : Value} {m : Moment}

theorem toMoment?_moment (hs : s.Lawful) (m : Moment) :
    Arguments.toMoment? s (.dateTime m) = .ok (some m) := by
  unfold Arguments.toMoment?
  dsimp only
  rw [show Kind.dateTime = (Value.dateTime m).kind from rfl, hs.convert_self]
  rfl

theorem toMoment?_text {cs : List Char} (h : Moment.ofText? cs = some m) :
    Arguments.toMoment? .coercing (.string (String.ofList cs)) = .ok (some m) := by
  have hconvert : Strategy.coercing.convert (.string (String.ofList cs)) .dateTime =
      .ok (.dateTime m) := by
    rw [show Strategy.coercing.convert = Coercing.convert from rfl, Coercing.convert.eq_def,
      if_neg (by simp [Value.kind, Value.isNull])]
    dsimp only
    rw [Coercing.toMoment, String.toList_ofList, h]
  unfold Arguments.toMoment?
  dsimp only
  rw [hconvert]
  rfl

theorem toMoment?_value {w : Width} {n : Int} (hfits : w.Fits n) :
    Arguments.toMoment? s (w.value n) = (Moment.ofMillis? n).elim
      (.error (.invalidArgument (.outsideDates n))) fun m => .ok (some m) := by
  unfold Width.value Arguments.toMoment?
  cases w with
  | short =>
    dsimp only
    rw [toInt_ofInt_int32 hfits]
    cases Moment.ofMillis? n <;> rfl
  | long =>
    dsimp only
    rw [toInt_ofInt_int64 hfits]
    cases Moment.ofMillis? n <;> rfl

theorem results_of_moment (now : Moment) (h : Arguments.toMoment? s v = .ok (some m)) :
    date s [v] = .ok (.dateTime m) ∧ ticks now s [v] = .ok (.long (Int64.ofInt m.millis)) ∧
    dayOfWeek s [v] = .ok (.integer (Int32.ofInt m.weekday)) := by
  unfold date ticks dayOfWeek Arguments.unary
  dsimp only
  rw [h]
  exact ⟨rfl, rfl, rfl⟩

theorem results_of_error (now : Moment) {e : EvalError} (h : Arguments.toMoment? s v = .error e) :
    date s [v] = .error e ∧ ticks now s [v] = .error e ∧ dayOfWeek s [v] = .error e := by
  unfold date ticks dayOfWeek Arguments.unary
  dsimp only
  rw [h]
  exact ⟨rfl, rfl, rfl⟩

end

theorem add?_eq_self {m : Moment} {x : Span} (hleap : ¬ m.InLeapSecond) (hx : x.nanos = 0) :
    m.add? x = some m := by
  have hnanos : m.nanos < 1000000000 := Nat.lt_of_not_le hleap
  unfold Moment.add?
  rw [if_neg hleap, hx, Moment.ofParts?_eq_some_iff, nanosPerSecond]
  simp only [Int.zero_tdiv, Int.zero_tmod]
  omega

theorem momentOf?_eq_some (hyear : p.HasShortYear) (h : p.IsValid) :
    momentOf? p.year p.month p.day p.hour p.minute p.second 0 = some (p.moment hyear h) := by
  have hfields := Parts.ofFields?_eq_some hyear h
  obtain ⟨x, hx⟩ := Span.exists_ofMillis?_iff.mpr (by decide : _ ≤ (0 : Int) ∧ _)
  have hleap : ¬ (p.moment hyear h).InLeapSecond :=
    Nat.not_le_of_lt (by decide : 0 < nanosPerSecond)
  have hadd : (p.moment hyear h).add? x = some (p.moment hyear h) :=
    add?_eq_self hleap (Span.nanos_of_ofNanos? hx)
  unfold momentOf?
  rw [if_pos (by obtain ⟨hmonth, hday, hhour, hminute, hsecond⟩ := h; omega)]
  unfold Parts.date at hfields
  rw [hfields]
  refine (bind_of_eq_some rfl _).trans ?_
  exact (bind_of_eq_some hx _).trans hadd

theorem momentOf?_eq_none (h : ¬ p.IsValid) :
    momentOf? p.year p.month p.day p.hour p.minute p.second 0 = none := by
  unfold momentOf?
  split_ifs with hsigns
  · obtain ⟨hmonth, hday, htime⟩ := hsigns
    have hfields := Parts.ofFields?_eq_none h ⟨hmonth, hday⟩ htime
    unfold Parts.date at hfields
    rw [hfields]
    rfl
  · rfl

theorem date_given (h : p.IsGivenBy args) : date .coercing args =
    match momentOf? p.year p.month p.day p.hour p.minute p.second 0 with
    | some m => .ok (.dateTime m)
    | none => .error (.invalidArgument (.invalidDate p.year p.month p.day)) := by
  have hlength : args.length = 6 := by simpa [Parts.toList] using congrArg List.length h
  have hparts := mapM_toLong h
  unfold date
  split
  · cases hlength
  · rw [if_pos (by omega), hparts]
    rfl

theorem date_of_isValid (h : p.IsGivenBy args) (hyear : p.HasShortYear) (hvalid : p.IsValid) :
    date .coercing args = .ok (.dateTime (p.moment hyear hvalid)) := by
  rw [date_given h, momentOf?_eq_some hyear hvalid]

theorem date_of_not_isValid (h : p.IsGivenBy args) (hvalid : ¬ p.IsValid) :
    date .coercing args = .error (.invalidArgument (.invalidDate p.year p.month p.day)) := by
  rw [date_given h, momentOf?_eq_none hvalid]

theorem millis_moment (hyear : p.HasShortYear) (h : p.IsValid) :
    (p.moment hyear h).millis = p.seconds * 1000 := by
  change (p.seconds * 1000000000 + (0 : Nat)) / 1000000 = _
  omega

/-- Six integers with a year of four digits make a date exactly where they are parts of the calendar and
of a day. The text of that date has all digits of each part and makes the date again, and so does the
text with a blank in the middle and none at the end. Later parts make a date of more milliseconds. -/
theorem dates_follow_calendar (now : Moment) (h : p.IsGivenBy args) (hyear : p.HasShortYear) :
    ((∃ v, date .coercing args = .ok v) ↔ p.IsValid) ∧
    (p.IsValid → ∃ m, date .coercing args = .ok (.dateTime m) ∧
      Strategy.coercing.convert (.dateTime m) .string =
        .ok (.string (String.ofList (p.written 'T' ++ ['Z']))) ∧
      date .coercing [.string (String.ofList (p.written 'T' ++ ['Z']))] = .ok (.dateTime m) ∧
      date .coercing [.string (String.ofList (p.written ' '))] = .ok (.dateTime m)) ∧
    ∀ (args' : List Value) (q : Parts), q.IsGivenBy args' → q.HasShortYear → p.IsValid →
      q.IsValid → p.toList < q.toList → ∃ v v' t t',
        date .coercing args = .ok v ∧ date .coercing args' = .ok v' ∧
        ticks now .coercing [v] = .ok (.long t) ∧ ticks now .coercing [v'] = .ok (.long t') ∧
        t.toInt < t'.toInt := by
  refine ⟨⟨?_, ?_⟩, ?_, ?_⟩
  · rintro ⟨v, hv⟩
    by_contra hvalid
    rw [date_of_not_isValid h hvalid] at hv
    cases hv
  · intro hvalid
    exact ⟨_, date_of_isValid h hyear hvalid⟩
  · intro hvalid
    have htext := toMoment?_text (Parts.ofText?_text hyear hvalid)
    have hspaced := toMoment?_text (Parts.ofText?_spaced hyear hvalid)
    refine ⟨_, date_of_isValid h hyear hvalid, ?_, (results_of_moment now htext).1,
      (results_of_moment now hspaced).1⟩
    rw [← Parts.text_moment hyear hvalid]
    rfl
  · intro args' q h' hyear' hvalid hvalid' hlt
    have hticks (m : Moment) :
        ticks now .coercing [.dateTime m] = .ok (.long (Int64.ofInt m.millis)) :=
      (results_of_moment now (toMoment?_moment Strategy.lawful_coercing m)).2.1
    refine ⟨_, _, _, _, date_of_isValid h hyear hvalid, date_of_isValid h' hyear' hvalid', hticks _,
      hticks _, ?_⟩
    rw [toInt_ofInt_int64 (Coercing.counts_moment _).fits,
      toInt_ofInt_int64 (Coercing.counts_moment _).fits, millis_moment, millis_moment]
    have hseconds := Parts.seconds_lt hvalid hvalid' hlt
    omega

/-- A thousand million seconds and a nanosecond after the start of 1970. -/
def inSeptember2001 : Moment := ⟨1000000000, 1, by decide, by decide, by decide⟩

theorem dates_follow_calendar_leap_day :
    (∃ m, date .coercing [.integer 2000, .integer 2, .long 29, .integer 23, .integer 59,
        .integer 59] = .ok (.dateTime m) ∧
      date .coercing [.string (String.ofList "2000-02-29T23:59:59Z".toList)] = .ok (.dateTime m)) ∧
    (∃ v v' t t', date .coercing [.integer 2000, .integer 2, .long 29, .integer 23, .integer 59,
        .integer 59] = .ok v ∧
      date .coercing [.integer 2000, .integer 3, .integer 1, .integer 0, .integer 0,
        .integer 0] = .ok v' ∧
      ticks inSeptember2001 .coercing [v] = .ok (.long t) ∧
      ticks inSeptember2001 .coercing [v'] = .ok (.long t') ∧
      t.toInt < t'.toInt) ∧
    ¬ ∃ v, date .coercing [.integer 1900, .integer 2, .integer 29, .integer 0, .integer 0,
      .integer 0] = .ok v := by
  have hleapDay : Parts.IsGivenBy ⟨2000, 2, 29, 23, 59, 59⟩
      [.integer 2000, .integer 2, .long 29, .integer 23, .integer 59, .integer 59] := rfl
  have hcentury : Parts.IsGivenBy ⟨1900, 2, 29, 0, 0, 0⟩
      [.integer 1900, .integer 2, .integer 29, .integer 0, .integer 0, .integer 0] := rfl
  obtain ⟨-, hdate, hlater⟩ :=
    dates_follow_calendar inSeptember2001 hleapDay (by decide)
  obtain ⟨hvalid, -⟩ :=
    dates_follow_calendar inSeptember2001 hcentury (by decide)
  obtain ⟨m, hm, -, htext, -⟩ := hdate (by decide)
  refine ⟨⟨m, hm, htext⟩, ?_, fun h => absurd (hvalid.mp h) (by decide)⟩
  exact hlater _ ⟨2000, 3, 1, 0, 0, 0⟩ rfl (by decide) (by decide) (by decide) (by decide)

/-- Milliseconds from the first day of the year -262143 to the last of 262142. -/
def InDates (n : Int) : Prop :=
  (⟨-262143, 1, 1⟩ : Date).dayNumber * 86400000 ≤ n ∧
    n < (⟨262143, 1, 1⟩ : Date).dayNumber * 86400000

instance (n : Int) : Decidable (InDates n) := inferInstanceAs (Decidable (_ ∧ _))

theorem exists_ofMillis?_iff_inDates {n : Int} : (∃ m, Moment.ofMillis? n = some m) ↔ InDates n :=
  Moment.exists_ofMillis?_iff

theorem dayNumber_of_whole {m : Moment} (h : m.IsWhole) : m.dayNumber = m.millis / 86400000 := by
  obtain ⟨k, hk, hnanos⟩ := h.exists_nanos_eq
  rw [h.millis_eq, Moment.dayNumber, secondsPerDay]
  omega

/-- Under both strategies an integer of either width that lies in the range of dates makes the date of so
many milliseconds. The date counts them again, and the integer and the date are on the same day of the
calendar and of the week. An integer out of that range is refused by all functions that read a date. -/
theorem dates_count_milliseconds (now : Moment) {s : Strategy} (hs : s = .coercing ∨ s = .strict)
    {w : Width} {n : Int} (hfits : w.Fits n) :
    (InDates n → ∃ m, date s [w.value n] = .ok (.dateTime m) ∧
      ticks now s [.dateTime m] = .ok (.long (Int64.ofInt n)) ∧
      ticks now s [w.value n] = .ok (.long (Int64.ofInt n)) ∧
      dayOfWeek s [.dateTime m] = .ok (.integer (Int32.ofInt ((4 + n / 86400000) % 7))) ∧
      dayOfWeek s [w.value n] = .ok (.integer (Int32.ofInt ((4 + n / 86400000) % 7))) ∧
      m.date.IsValid ∧ m.date.dayNumber = n / 86400000) ∧
    (¬ InDates n → date s [w.value n] = .error (.invalidArgument (.outsideDates n)) ∧
      ticks now s [w.value n] = .error (.invalidArgument (.outsideDates n)) ∧
      dayOfWeek s [w.value n] = .error (.invalidArgument (.outsideDates n))) := by
  have hmoment := toMoment?_value (s := s) hfits
  constructor
  · intro hrange
    obtain ⟨m, hm⟩ := exists_ofMillis?_iff_inDates.mpr hrange
    obtain ⟨hwhole, rfl⟩ := Moment.ofMillis?_eq_some_iff.mp hm
    rw [hm] at hmoment
    have hself := toMoment?_moment (Strategy.lawful_of_eq hs) m
    obtain ⟨hdate, hticks, hday⟩ := results_of_moment now hmoment
    obtain ⟨-, hticks', hday'⟩ := results_of_moment now hself
    have hweekday : (m.weekday : Int) = (4 + m.millis / 86400000) % 7 := by
      rw [← dayNumber_of_whole hwhole]
      unfold Moment.weekday Date.weekday
      omega
    rw [hweekday] at hday hday'
    obtain ⟨hvalid, hnumber⟩ := Date.dayNumber_ofDayNumber m.dayNumber
    exact ⟨m, hdate, hticks', hticks, hday', hday, hvalid,
      hnumber.trans (dayNumber_of_whole hwhole)⟩
  · intro hrange
    have hm : Moment.ofMillis? n = none := by
      rw [Option.eq_none_iff_forall_ne_some]
      intro m hm
      exact hrange (exists_ofMillis?_iff_inDates.mp ⟨m, hm⟩)
    rw [hm] at hmoment
    exact results_of_error now hmoment

theorem dates_count_milliseconds_at_midnight :
    (∃ m, date .strict [.integer (Int32.ofInt (-1))] = .ok (.dateTime m) ∧
      ticks inSeptember2001 .strict [.dateTime m] = .ok (.long (-1)) ∧
      dayOfWeek .strict [.dateTime m] = .ok (.integer 3)) ∧
    date .coercing [.long (Int64.ofInt 8210266876800000)] =
      .error (.invalidArgument (.outsideDates 8210266876800000)) := by
  constructor
  · obtain ⟨m, hdate, hticks, -, hday, -⟩ :=
      (dates_count_milliseconds inSeptember2001 (.inr rfl) (w := .short)
        (n := -1) (by decide)).1 (by decide)
    exact ⟨m, hdate, hticks, hday⟩
  · exact ((dates_count_milliseconds inSeptember2001 (.inl rfl) (w := .long)
      (n := 8210266876800000) (by decide)).2 (by decide)).1

end Functions

end Formula
