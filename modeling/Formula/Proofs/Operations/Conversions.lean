import Formula.Proofs.Number.Decimal
import Formula.Proofs.Operations.Widths
import Formula.Proofs.Time.Milliseconds
import Formula.Text.Characters

/-!
# Conversions that keep an integer

A text of digits, a span and a moment can each stand for an integer: coercion reads the digits or counts
the milliseconds. An integer of either width comes back from them as it went in, and so do spans and
moments of whole milliseconds from the integer that counts them.
-/

namespace Formula

open Number Time

namespace Text

theorem dropWhile_isBlank_eq_self {cs : List Char} (h : ∀ c ∈ cs, isBlank c = false) :
    cs.dropWhile isBlank = cs := by
  cases cs with
  | nil => rfl
  | cons c cs => exact List.dropWhile_cons_of_neg (Bool.eq_false_iff.mp (h c (.head _)))

theorem trim_eq_self {cs : List Char} (h : ∀ c ∈ cs, isBlank c = false) : trim cs = cs := by
  have hreverse : ∀ c ∈ cs.reverse, isBlank c = false := fun c hc => h c (List.mem_reverse.mp hc)
  rw [trim, dropWhile_isBlank_eq_self h, dropWhile_isBlank_eq_self hreverse, List.reverse_reverse]

theorem trim_eq_self_of_ends {c d : Char} {cs first last : List Char} (hc : isBlank c = false)
    (hd : isBlank d = false) (hfirst : cs = c :: last) (hlast : cs = first ++ [d]) : trim cs = cs := by
  have hstart : cs.dropWhile isBlank = cs := by
    rw [hfirst]
    exact List.dropWhile_cons_of_neg (Bool.eq_false_iff.mp hc)
  have hend : cs.reverse.dropWhile isBlank = cs.reverse := by
    rw [hlast, List.reverse_concat]
    exact List.dropWhile_cons_of_neg (Bool.eq_false_iff.mp hd)
  rw [trim, hstart, hend, List.reverse_reverse]

theorem not_isBlank_of_isDigit {c : Char} (h : c.isDigit = true) : isBlank c = false := by
  have hdigit : 48 ≤ c.toNat ∧ c.toNat ≤ 57 := Char.isDigit_iff_toNat.mp h
  simp only [isBlank, Bool.or_eq_false_iff, Bool.and_eq_false_iff, decide_eq_false_iff_not,
    beq_eq_false_iff_ne]
  omega

theorem trim_integerText (n : Int) : trim (integerText n) = integerText n := by
  have hdigits : ∀ c ∈ digits n.natAbs, isBlank c = false := fun c hc =>
    not_isBlank_of_isDigit (isDigit_of_mem_digits hc)
  refine trim_eq_self fun c hc => ?_
  rw [integerText] at hc
  split at hc
  · rcases List.mem_cons.mp hc with rfl | hc
    · rfl
    · exact hdigits c hc
  · exact hdigits c hc

end Text

namespace Coercing

variable {v t : Value} {k : Kind} {w : Width} {n : Int}

/-- Coercion takes the value for this integer of 64 bits. -/
structure Counts (v : Value) (n : Int) : Prop where
  fits : FitsInt64 n
  toLong (target : Kind) : Coercing.toLong v target = .ok (Int64.ofInt n)

theorem counts_whole (h : v.whole? = some n) : Counts v n where
  fits := by
    have hfits := (Value.fits_whole? h).join .long
    have hlong : v.width.join .long = .long := by cases v.width <;> rfl
    rwa [hlong] at hfits
  toLong target := by
    cases v with
    | integer m =>
      cases h
      rfl
    | long m =>
      cases h
      exact congrArg Except.ok (Int64.ofInt_toInt m).symm
    | boolean b =>
      cases h
      cases b <;> rfl
    | _ => cases h

theorem counts_text (h : FitsInt64 n) : Counts (.string (String.ofList (integerText n))) n where
  fits := h
  toLong target := by
    rw [toLong]
    dsimp only
    rw [String.toList_ofList, Text.trim_integerText, wholeText?, integer?_integerText,
      Option.bind_some, int64?, if_pos h]

theorem counts_moment (m : Moment) : Counts (.dateTime m) m.millis where
  fits := by
    have hbounds := m.millis_bounds
    rw [firstSecond, lastSecond] at hbounds
    rw [FitsInt64]
    omega
  toLong _ := rfl

theorem counts_span (s : Span) : Counts (.timeSpan s) s.millis where
  fits := by
    have hbounds := s.millis_bounds
    rw [FitsInt64]
    omega
  toLong _ := rfl

namespace Counts

theorem isNull (h : Counts v n) : v.isNull = false := by
  cases v with
  | null => cases h.toLong .long
  | _ => rfl

theorem not_keeps (h : Counts v n) (hkind : v.kind ≠ k) : ¬ (v.kind = k ∨ v.isNull = true) := by
  rw [h.isNull]
  exact not_or.mpr ⟨hkind, Bool.false_ne_true⟩

theorem convert_width (h : Counts v n) (hkind : v.kind ≠ w.kind) :
    convert v w.kind = w.hold (.conversion v.kind w.kind .outOfRange) n := by
  rw [convert.eq_def, if_neg (h.not_keeps hkind)]
  cases w with
  | short =>
    change toInteger v = _
    rw [toInteger, h.toLong, Width.hold_short]
    dsimp only
    rw [toInt_ofInt_int64 h.fits]
    rfl
  | long =>
    change (Coercing.toLong v .long).map Value.long = _
    rw [h.toLong, Width.hold_of_fits (w := .long) h.fits]
    rfl

theorem convert_long (h : Counts v n) (hkind : v.kind ≠ .long) :
    convert v .long = .ok (.long (Int64.ofInt n)) :=
  (h.convert_width (w := .long) hkind).trans (Width.hold_of_fits (w := .long) h.fits)

end Counts

/-- The values of a kind that an integer becomes. -/
inductive Carries (n : Int) : Kind → Value → Prop
  | long (h : FitsInt64 n) : Carries n .long (.long (Int64.ofInt n))
  | string (h : FitsInt64 n) : Carries n .string (.string (String.ofList (integerText n)))
  | timeSpan {s : Span} (hwhole : s.IsWhole) (h : s.millis = n) : Carries n .timeSpan (.timeSpan s)
  | dateTime {m : Moment} (hwhole : m.IsWhole) (h : m.millis = n) : Carries n .dateTime (.dateTime m)

namespace Carries

theorem kind_eq (h : Carries n k t) : t.kind = k := by
  cases h <;> rfl

theorem counts (h : Carries n k t) : Counts t n := by
  cases h with
  | long h => exact counts_whole (congrArg some (toInt_ofInt_int64 h))
  | string h => exact counts_text h
  | timeSpan hwhole h => exact h ▸ counts_span _
  | dateTime hwhole h => exact h ▸ counts_moment _

theorem convert_width (h : Carries n k t) (hn : w.Fits n) (hk : k ≠ w.kind) :
    convert t w.kind = .ok (w.value n) := by
  have hkind : t.kind ≠ w.kind := by rwa [h.kind_eq]
  rw [h.counts.convert_width hkind, Width.hold_of_fits hn]

end Carries

/-- The span or the moment of some milliseconds, after its kind. -/
def timeOfMillis? (n : Int) : Kind → Option Value
  | .timeSpan => (Span.ofMillis? n).map .timeSpan
  | .dateTime => (Moment.ofMillis? n).map .dateTime
  | _ => none

theorem carries_time_iff (hk : k = .timeSpan ∨ k = .dateTime) :
    Carries n k t ↔ timeOfMillis? n k = some t := by
  constructor
  · rintro (_ | _ | ⟨hwhole, h⟩ | ⟨hwhole, h⟩)
    · simp at hk
    · simp at hk
    · rw [timeOfMillis?, Span.ofMillis?_eq_some_iff.mpr ⟨hwhole, h⟩]
      rfl
    · rw [timeOfMillis?, Moment.ofMillis?_eq_some_iff.mpr ⟨hwhole, h⟩]
      rfl
  · intro h
    rcases hk with rfl | rfl
    · obtain ⟨s, hs, rfl⟩ := Option.map_eq_some_iff.mp h
      obtain ⟨hwhole, hmillis⟩ := Span.ofMillis?_eq_some_iff.mp hs
      exact .timeSpan hwhole hmillis
    · obtain ⟨m, hm, rfl⟩ := Option.map_eq_some_iff.mp h
      obtain ⟨hwhole, hmillis⟩ := Moment.ofMillis?_eq_some_iff.mp hm
      exact .dateTime hwhole hmillis

section

variable (h : w.Fits n)
include h

theorem convert_string_iff : convert (w.value n) .string = .ok t ↔ Carries n .string t := by
  have hfits : FitsInt64 n := (counts_whole (Value.whole?_value h)).fits
  have htext : convert (w.value n) .string = .ok (.string (String.ofList (integerText n))) := by
    cases w with
    | short =>
      change Except.ok (Value.string (String.ofList (integerText (Int32.ofInt n).toInt))) = _
      rw [toInt_ofInt_int32 h]
    | long =>
      change Except.ok (Value.string (String.ofList (integerText (Int64.ofInt n).toInt))) = _
      rw [toInt_ofInt_int64 h]
  rw [htext, Except.ok.injEq]
  constructor
  · rintro rfl
    exact .string hfits
  · rintro ⟨⟩
    rfl

theorem convert_long_iff : convert (w.value n) .long = .ok t ↔ Carries n .long t := by
  have hfits : FitsInt64 n := (counts_whole (Value.whole?_value h)).fits
  have hlong : convert (w.value n) .long = .ok (.long (Int64.ofInt n)) :=
    convert_whole (w := .long) (Value.whole?_value h) (by cases w <;> rfl)
  rw [hlong, Except.ok.injEq]
  constructor
  · rintro rfl
    exact .long hfits
  · rintro ⟨⟩
    rfl

theorem convert_time_iff (hk : k = .timeSpan ∨ k = .dateTime) :
    convert (w.value n) k = .ok t ↔ Carries n k t := by
  have hcounts := counts_whole (Value.whole?_value h)
  have hlong := hcounts.toLong .long
  have hkind : (w.value n).kind ≠ k := by
    rw [w.kind_value]
    rcases hk with rfl | rfl <;> cases w <;> decide
  have htime : convert (w.value n) k =
      (timeOfMillis? n k).elim (refuse (w.value n) k .outOfRange) .ok := by
    rw [convert.eq_def, if_neg (hcounts.not_keeps hkind)]
    rcases hk with rfl | rfl <;> cases w <;>
    · rw [Width.value] at hlong ⊢
      simp only [toSpan, toMoment, hlong, toInt_ofInt_int64 hcounts.fits, timeOfMillis?]
      split <;> simp [*]
  rw [htime, carries_time_iff hk]
  cases timeOfMillis? n k with
  | none => exact iff_of_false nofun nofun
  | some time => rw [Option.elim_some, Except.ok.injEq, Option.some.injEq]

theorem convert_eq_ok_iff_carries (hk : k ∈ [.long, .string, .timeSpan, .dateTime]) :
    convert (w.value n) k = .ok t ↔ Carries n k t := by
  simp only [List.mem_cons, List.not_mem_nil, or_false] at hk
  rcases hk with rfl | rfl | rfl | rfl
  · exact convert_long_iff h
  · exact convert_string_iff h
  · exact convert_time_iff h (.inl rfl)
  · exact convert_time_iff h (.inr rfl)

end

theorem convert_integer_eq_ok_iff {n : Int32} (hk : k ∈ [.long, .string, .timeSpan, .dateTime]) :
    convert (.integer n) k = .ok t ↔ Carries n.toInt k t := by
  rw [← convert_eq_ok_iff_carries (w := .short) (fitsInt32_toInt n) hk, Width.value, Int32.ofInt_toInt]

theorem convert_long_eq_ok_iff {n : Int64} (hk : k ∈ [.string, .timeSpan, .dateTime]) :
    convert (.long n) k = .ok t ↔ Carries n.toInt k t := by
  rw [← convert_eq_ok_iff_carries (w := .long) (fitsInt64_toInt n) (.tail _ hk), Width.value,
    Int64.ofInt_toInt]

theorem exists_carries_timeSpan : (∃ t, Carries n .timeSpan t) ↔
    -9223372036854775807 ≤ n ∧ n ≤ 9223372036854775807 := by
  simp only [carries_time_iff (.inl rfl), timeOfMillis?, ← Option.isSome_iff_exists,
    Option.isSome_map, ← Span.exists_ofMillis?_iff]

theorem exists_carries_dateTime : (∃ t, Carries n .dateTime t) ↔
    firstSecond * 1000 ≤ n ∧ n < (lastSecond + 1) * 1000 := by
  simp only [carries_time_iff (.inr rfl), timeOfMillis?, ← Option.isSome_iff_exists,
    Option.isSome_map, ← Moment.exists_ofMillis?_iff]

theorem carries_timeSpan_self {s : Span} : Carries s.millis .timeSpan (.timeSpan s) ↔ s.IsWhole := by
  constructor
  · rintro (_ | _ | ⟨hwhole, -⟩ | _)
    exact hwhole
  · intro hwhole
    exact .timeSpan hwhole rfl

theorem carries_dateTime_self {m : Moment} : Carries m.millis .dateTime (.dateTime m) ↔ m.IsWhole := by
  constructor
  · rintro (_ | _ | _ | ⟨hwhole, -⟩)
    exact hwhole
  · intro hwhole
    exact .dateTime hwhole rfl

theorem exists_carries (h : FitsInt32 n) (hk : k ∈ [.long, .string, .timeSpan, .dateTime]) :
    ∃ t, Carries n k t := by
  have hfits : FitsInt64 n := Width.Fits.join (w := .short) h .long
  rw [FitsInt32] at h
  simp only [List.mem_cons, List.not_mem_nil, or_false] at hk
  rcases hk with rfl | rfl | rfl | rfl
  · exact ⟨_, .long hfits⟩
  · exact ⟨_, .string hfits⟩
  · exact exists_carries_timeSpan.mpr (by omega)
  · exact exists_carries_dateTime.mpr (by rw [firstSecond, lastSecond]; omega)

end Coercing

namespace Strategy

/-- Every integer of 32 bits comes back from a long integer, a text, a span and a moment, and every one
of 64 bits from a text and from any span or moment it becomes. Spans and moments come back from an
integer just where they are of whole milliseconds. -/
theorem coercing_keeps_integers :
    (∀ n : Int32, ∀ k ∈ [Kind.long, .string, .timeSpan, .dateTime],
      ∃ t, coercing.convert (.integer n) k = .ok t ∧ t.kind = k ∧
        coercing.convert t .integer = .ok (.integer n)) ∧
    (∀ n : Int64,
      (∀ k ∈ [Kind.string, .timeSpan, .dateTime], ∀ t, coercing.convert (.long n) k = .ok t →
        t.kind = k ∧ coercing.convert t .long = .ok (.long n)) ∧
      (∃ t, coercing.convert (.long n) .string = .ok t) ∧
      ((∃ t, coercing.convert (.long n) .timeSpan = .ok t) ↔ n ≠ Int64.minValue) ∧
      ((∃ t, coercing.convert (.long n) .dateTime = .ok t) ↔
        firstSecond * 1000 ≤ n.toInt ∧ n.toInt < (lastSecond + 1) * 1000)) ∧
    (∀ s : Span, ∃ n, coercing.convert (.timeSpan s) .long = .ok (.long n) ∧
      (coercing.convert (.long n) .timeSpan = .ok (.timeSpan s) ↔ s.IsWhole)) ∧
    ∀ m : Moment, ∃ n, coercing.convert (.dateTime m) .long = .ok (.long n) ∧
      (coercing.convert (.long n) .dateTime = .ok (.dateTime m) ↔ m.IsWhole) := by
  refine ⟨fun n k hk => ?_, fun n => ⟨fun k hk t ht => ?_, ?_, ?_, ?_⟩, fun s => ?_, fun m => ?_⟩
  · obtain ⟨t, ht⟩ := Coercing.exists_carries (fitsInt32_toInt n) hk
    have hne : k ≠ .integer := by
      rintro rfl
      revert hk
      decide
    refine ⟨t, (Coercing.convert_integer_eq_ok_iff hk).mpr ht, ht.kind_eq, ?_⟩
    have hback := ht.convert_width (w := .short) (fitsInt32_toInt n) hne
    rwa [Width.value, Int32.ofInt_toInt] at hback
  · have hcarries := (Coercing.convert_long_eq_ok_iff hk).mp ht
    have hne : k ≠ .long := by
      rintro rfl
      revert hk
      decide
    refine ⟨hcarries.kind_eq, ?_⟩
    have hback := hcarries.convert_width (w := .long) (fitsInt64_toInt n) hne
    rwa [Width.value, Int64.ofInt_toInt] at hback
  · exact ⟨_, (Coercing.convert_long_eq_ok_iff (by decide)).mpr (.string (fitsInt64_toInt n))⟩
  · have hleast : n = Int64.minValue ↔ n.toInt = -9223372036854775808 := Int64.toInt_inj.symm
    have hbounds := fitsInt64_toInt n
    rw [FitsInt64] at hbounds
    simp only [coercing, Coercing.convert_long_eq_ok_iff (k := .timeSpan) (by decide),
      Coercing.exists_carries_timeSpan, ne_eq, hleast]
    omega
  · simp only [coercing, Coercing.convert_long_eq_ok_iff (k := .dateTime) (by decide),
      Coercing.exists_carries_dateTime]
  · have hcounts := Coercing.counts_span s
    have hkind : Kind.timeSpan ≠ .long := by decide
    refine ⟨_, hcounts.convert_long hkind, ?_⟩
    rw [coercing, Coercing.convert_long_eq_ok_iff (by decide), toInt_ofInt_int64 hcounts.fits,
      Coercing.carries_timeSpan_self]
  · have hcounts := Coercing.counts_moment m
    have hkind : Kind.dateTime ≠ .long := by decide
    refine ⟨_, hcounts.convert_long hkind, ?_⟩
    rw [coercing, Coercing.convert_long_eq_ok_iff (by decide), toInt_ofInt_int64 hcounts.fits,
      Coercing.carries_dateTime_self]

/-- The least integer of 32 bits as a span, and the millisecond before 1970. -/
theorem coercing_keeps_integers_below_zero :
    (∃ t, coercing.convert (.integer Int32.minValue) .timeSpan = .ok t ∧ t.kind = .timeSpan ∧
      coercing.convert t .integer = .ok (.integer Int32.minValue)) ∧
    ∃ m, coercing.convert (.long (-1)) .dateTime = .ok (.dateTime m) ∧ m.seconds = -1 ∧
      m.nanos = 999000000 ∧ coercing.convert (.dateTime m) .long = .ok (.long (-1)) := by
  obtain ⟨hshort, hlong, -⟩ := coercing_keeps_integers
  refine ⟨hshort Int32.minValue .timeSpan (by decide), ?_⟩
  have hmoment : coercing.convert (.long (-1)) .dateTime =
      .ok (.dateTime ⟨-1, 999000000, by decide, by decide, by decide⟩) := by
    rfl
  exact ⟨_, hmoment, rfl, rfl, ((hlong (-1)).1 .dateTime (by decide) _ hmoment).2⟩

end Strategy

end Formula
