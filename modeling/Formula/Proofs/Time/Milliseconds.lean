import Formula.Time.Moment

/-!
# Spans and moments of whole milliseconds

A span or a moment is made from a count of milliseconds exactly where it is one of whole milliseconds,
outside leap seconds, and has that count. So nothing is lost on the way from such a one to its count and
back, and two such moments stand in the order of their counts.
-/

namespace Formula.Time

namespace Span

def IsWhole (s : Span) : Prop := 1000000 ∣ s.nanos

instance (s : Span) : Decidable s.IsWhole := inferInstanceAs (Decidable (_ ∣ _))

theorem millis_bounds (s : Span) :
    -9223372036854775807 ≤ s.millis ∧ s.millis ≤ 9223372036854775807 := by
  have hleast := s.ge_least
  have hgreatest := s.le_greatest
  rw [longestSpan] at hleast hgreatest
  have hmul := Int.tdiv_mul_add_tmod s.nanos 1000000
  rw [millis]
  rcases Int.le_total 0 s.nanos with hsign | hsign
  · have hrest := Int.tmod_nonneg 1000000 hsign
    have hquotient : 0 ≤ s.nanos.tdiv 1000000 := Int.tdiv_nonneg hsign (by decide)
    omega
  · have hrest := Int.tmod_nonneg 1000000 (Int.neg_nonneg_of_nonpos hsign)
    have hquotient : 0 ≤ (-s.nanos).tdiv 1000000 :=
      Int.tdiv_nonneg (Int.neg_nonneg_of_nonpos hsign) (by decide)
    rw [Int.neg_tmod] at hrest
    rw [Int.neg_tdiv] at hquotient
    omega

theorem IsWhole.nanos_eq {s : Span} (h : s.IsWhole) : s.nanos = s.millis * 1000000 :=
  (Int.tdiv_mul_cancel h).symm

theorem ofMillis?_eq_some_iff {n : Int} {s : Span} :
    ofMillis? n = some s ↔ s.IsWhole ∧ s.millis = n := by
  constructor
  · intro h
    have hnanos : s.nanos = n * 1000000 := nanos_of_ofNanos? h
    refine ⟨⟨n, by rw [hnanos, Int.mul_comm]⟩, ?_⟩
    rw [millis, hnanos, Int.mul_tdiv_cancel n (by decide)]
  · rintro ⟨hwhole, rfl⟩
    rw [ofMillis?, ← hwhole.nanos_eq, ofNanos?_nanos]

theorem exists_ofMillis?_iff {n : Int} : (∃ s, ofMillis? n = some s) ↔
    -9223372036854775807 ≤ n ∧ n ≤ 9223372036854775807 := by
  constructor
  · rintro ⟨s, hs⟩
    have hbounds := s.millis_bounds
    rwa [(ofMillis?_eq_some_iff.mp hs).2] at hbounds
  · rintro ⟨hlow, hhigh⟩
    have hrange : -longestSpan ≤ n * 1000000 ∧ n * 1000000 ≤ longestSpan := by
      rw [longestSpan]
      omega
    exact ⟨_, dif_pos hrange⟩

theorem compare_of_whole {a b : Span} (ha : a.IsWhole) (hb : b.IsWhole) :
    Ord.compare a.nanos b.nanos = Ord.compare a.millis b.millis := by
  rw [ha.nanos_eq, hb.nanos_eq, Int.compare_eq_ite_lt, Int.compare_eq_ite_lt]
  repeat' split
  all_goals first | rfl | omega

end Span

namespace Moment

/-- The moment lies at a whole millisecond and in no leap second. -/
def IsWhole (m : Moment) : Prop := ¬ m.InLeapSecond ∧ 1000000 ∣ m.nanos

instance (m : Moment) : Decidable m.IsWhole := inferInstanceAs (Decidable (_ ∧ _))

theorem IsWhole.exists_nanos_eq {m : Moment} (h : m.IsWhole) :
    ∃ k : Nat, k < 1000 ∧ m.nanos = k * 1000000 := by
  obtain ⟨hleap, k, hk⟩ := h
  rw [InLeapSecond, nanosPerSecond] at hleap
  exact ⟨k, by omega, by omega⟩

theorem IsWhole.millis_eq {m : Moment} (h : m.IsWhole) :
    m.millis = m.seconds * 1000 + (m.nanos / 1000000 : Nat) := by
  obtain ⟨k, -, hnanos⟩ := h.exists_nanos_eq
  rw [millis, totalNanos, nanosPerSecond]
  omega

theorem millis_bounds (m : Moment) :
    firstSecond * 1000 ≤ m.millis ∧ m.millis < (lastSecond + 2) * 1000 := by
  have hfirst := m.ge_first
  have hlast := m.le_last
  have hnanos := m.nanos_lt
  rw [nanosPerSecond] at hnanos
  rw [millis, totalNanos, nanosPerSecond]
  omega

theorem ofParts?_eq_some_iff {seconds : Int} {nanos : Nat} {m : Moment} :
    ofParts? seconds nanos = some m ↔ m.seconds = seconds ∧ m.nanos = nanos := by
  constructor
  · intro h
    unfold ofParts? at h
    split at h
    · cases h
      exact ⟨rfl, rfl⟩
    · cases h
  · rintro ⟨rfl, rfl⟩
    exact ofParts?_parts m

theorem ofMillis?_eq_some_iff {n : Int} {m : Moment} :
    ofMillis? n = some m ↔ m.IsWhole ∧ m.millis = n := by
  rw [ofMillis?, ofParts?_eq_some_iff]
  constructor
  · rintro ⟨hseconds, hnanos⟩
    have hwhole : m.IsWhole := by
      rw [IsWhole, InLeapSecond, nanosPerSecond]
      omega
    refine ⟨hwhole, ?_⟩
    rw [hwhole.millis_eq]
    omega
  · rintro ⟨hwhole, rfl⟩
    obtain ⟨k, hk, hnanos⟩ := hwhole.exists_nanos_eq
    rw [hwhole.millis_eq]
    omega

theorem exists_ofMillis?_iff {n : Int} : (∃ m, ofMillis? n = some m) ↔
    firstSecond * 1000 ≤ n ∧ n < (lastSecond + 1) * 1000 := by
  constructor
  · rintro ⟨m, hm⟩
    obtain ⟨hwhole, rfl⟩ := ofMillis?_eq_some_iff.mp hm
    obtain ⟨k, hk, hnanos⟩ := hwhole.exists_nanos_eq
    have hfirst := m.ge_first
    have hlast := m.le_last
    rw [hwhole.millis_eq]
    omega
  · rintro ⟨hlow, hhigh⟩
    have hrange : firstSecond ≤ n / 1000 ∧ n / 1000 ≤ lastSecond ∧
        (n % 1000).toNat * 1000000 < 2 * nanosPerSecond := by
      rw [nanosPerSecond]
      omega
    exact ⟨_, dif_pos hrange⟩

theorem compare_of_whole {a b : Moment} (ha : a.IsWhole) (hb : b.IsWhole) :
    a.compare b = Ord.compare a.millis b.millis := by
  obtain ⟨i, hi, hleft⟩ := ha.exists_nanos_eq
  obtain ⟨j, hj, hright⟩ := hb.exists_nanos_eq
  rw [compare, ha.millis_eq, hb.millis_eq]
  rcases Int.lt_trichotomy a.seconds b.seconds with hseconds | hseconds | hseconds
  · rw [Int.compare_eq_lt.mpr hseconds, Ordering.lt_then]
    exact (Int.compare_eq_lt.mpr (by omega)).symm
  · rw [hseconds, Int.compare_eq_eq.mpr rfl, Ordering.eq_then, Nat.compare_eq_ite_lt,
      Int.compare_eq_ite_lt]
    repeat' split
    all_goals first | rfl | omega
  · rw [Int.compare_eq_gt.mpr hseconds, Ordering.gt_then]
    exact (Int.compare_eq_gt.mpr (by omega)).symm

end Moment

end Formula.Time
