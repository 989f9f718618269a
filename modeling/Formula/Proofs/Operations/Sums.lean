import Formula.Number.Binary
import Formula.Operations.Arithmetic
import Formula.Proofs.Operations.Exchanging

/-!
# Sums in either order

The sum of two floating point numbers is the same in either order, with infinities, zeros of both signs
and what is no number included: a format has one value for all that is no number, and finite mantissas
are added as integers before anything is rounded.

Apart from strings, which are joined in the order they stand in, values add up to the same in either
order, under the coercing strategy and under the strict one. A number counts milliseconds on either side
of a moment or a span, and between the other kinds the order of the operands makes no difference to what
they are coerced to.
-/

namespace Formula.Number

open Float.Model

/-- Finite numbers are added as integers over the smaller of their exponents. -/
theorem add_finite (f : Format) (s t : UnpackedFloat.Sign) {m n : Nat} (e k : Int) (hm : 0 < m)
    (hn : 0 < n) : UnpackedFloat.add f (.finite s m e hm) (.finite t n k hn) =
      UnpackedFloat.normalize f (s.apply (UnpackedFloat.decreaseExponent m e (min e k)).1 +
        t.apply (UnpackedFloat.decreaseExponent n k (min e k)).1) (min e k) .positive :=
  rfl

theorem unpacked_add_comm (f : Format) (x y : UnpackedFloat) :
    UnpackedFloat.add f x y = UnpackedFloat.add f y x := by
  cases x with
  | notANumber => cases y <;> rfl
  | infinity s =>
    cases y with
    | infinity t => cases s <;> cases t <;> rfl
    | _ => rfl
  | zero s =>
    cases y with
    | zero t => cases s <;> cases t <;> rfl
    | _ => rfl
  | finite s m e hm =>
    cases y with
    | finite t n k hn =>
      rw [add_finite, add_finite, Int.min_comm k e, Int.add_comm]
    | _ => rfl

theorem double_add_comm (x y : Float) : x + y = y + x :=
  congrArg (fun z => Float.ofModel (.pack z)) (unpacked_add_comm _ _ _)

theorem single_add_comm (x y : Float32) : x + y = y + x :=
  congrArg (fun z => Float32.ofModel (.pack z)) (unpacked_add_comm _ _ _)

end Formula.Number

namespace Formula

open Number Time

namespace Coercing

variable {v w : Value}

theorem kind_of_toInteger (h : toInteger v = .ok w) : w.kind = .integer := by
  rw [toInteger] at h
  repeat' split at h
  all_goals cases h
  rfl

theorem kind_of_toMoment (h : toMoment v = .ok w) : w.kind = .dateTime := by
  rw [toMoment.eq_def] at h
  repeat' split at h
  all_goals cases h
  all_goals rfl

theorem kind_of_toSpan (h : toSpan v = .ok w) : w.kind = .timeSpan := by
  rw [toSpan.eq_def] at h
  repeat' split at h
  all_goals cases h
  all_goals rfl

theorem kind_of_toText (h : toText v = .ok w) : w.kind = .string := by
  rw [toText.eq_def] at h
  split at h <;> cases h
  rfl

theorem kind_of_toObject (h : toObject v = .ok w) : w.kind = .object := by
  rw [toObject.eq_def] at h
  repeat' split at h
  all_goals cases h
  rfl

end Coercing

namespace Strategy

variable {s : Strategy} {a b x y v w : Value} {k : Kind}

/-- Conversion of a value that is not null gives one of the wanted kind, if it gives any. -/
def Typed (s : Strategy) : Prop :=
  ∀ {v w : Value} {k : Kind}, v.isNull = false → s.convert v k = .ok w → w.kind = k

theorem exists_of_map_eq_ok {α : Type} {r : Except EvalError α} {f : α → Value}
    (h : r.map f = .ok w) : ∃ x, w = f x := by
  cases r with
  | error e => cases h
  | ok x =>
    cases h
    exact ⟨x, rfl⟩

theorem typed_strict : strict.Typed := by
  intro v w k hnull h
  rw [strict] at h
  dsimp only at h
  rw [Strict.convert, hnull] at h
  split at h
  · next hkeeps =>
    cases h
    exact hkeeps.resolve_right Bool.false_ne_true
  · split at h
    · next hk =>
      cases h
      exact hk.symm
    · cases h

theorem typed_coercing : coercing.Typed := by
  intro v w k hnull h
  rw [coercing] at h
  dsimp only at h
  by_cases hkind : v.kind = k
  · rw [Coercing.convert.eq_def, if_pos (.inl hkind)] at h
    cases h
    exact hkind
  · rw [Coercing.convert.eq_def, hnull, if_neg (not_or.mpr ⟨hkind, Bool.false_ne_true⟩)] at h
    cases k with
    | null =>
      cases h
      rfl
    | integer => exact Coercing.kind_of_toInteger h
    | long | float | double | boolean =>
      obtain ⟨x, rfl⟩ := exists_of_map_eq_ok h
      rfl
    | string => exact Coercing.kind_of_toText h
    | dateTime => exact Coercing.kind_of_toMoment h
    | timeSpan => exact Coercing.kind_of_toSpan h
    | object => exact Coercing.kind_of_toObject h
    | array => cases h

theorem typed_of_eq (hs : s = coercing ∨ s = strict) : s.Typed := by
  rcases hs with rfl | rfl
  · exact typed_coercing
  · exact typed_strict

theorem Typed.of_coercePair (hs : s.Typed) (ha : a.isNull = false) (hb : b.isNull = false)
    {mode : OperandMode} (h : s.coercePair mode a b = .ok (x, y)) :
    x.kind = Kind.common mode a.kind b.kind ∧ y.kind = Kind.common mode a.kind b.kind := by
  obtain ⟨hleft, hright⟩ := coercePair_eq_ok_iff.mp h
  exact ⟨hs ha hleft, hs hb hright⟩

theorem apply_comm {r : NumericRule} (hwhole : ∀ m n, r.whole m n = r.whole n m)
    (hbound : ∀ m n, r.bound m n = r.bound n m) (hsingle : ∀ m n, r.single m n = r.single n m)
    (hdouble : ∀ m n, r.double m n = r.double n m) (x y : Value) :
    SameOutcome (r.apply x y) (r.apply y x) := by
  cases x with
  | integer m =>
    cases y with
    | integer n =>
      rw [NumericRule.apply, NumericRule.apply, hwhole, hbound]
      rfl
    | _ => rfl
  | long m =>
    cases y with
    | long n =>
      rw [NumericRule.apply, NumericRule.apply, hwhole, hbound]
      rfl
    | _ => rfl
  | float m =>
    cases y with
    | float n =>
      rw [NumericRule.apply, NumericRule.apply, hsingle]
      rfl
    | _ => rfl
  | double m =>
    cases y with
    | double n =>
      rw [NumericRule.apply, NumericRule.apply, hdouble]
      rfl
    | _ => rfl
  | _ => cases y <;> rfl

theorem addPair_comm (hx : x.kind ≠ .string) (y : Value) :
    SameOutcome (addPair x y) (addPair y x) := by
  have hplus (v w : Value) (h : v.kind ≠ .string ∨ w.kind ≠ .string) :
      addPair v w = NumericRule.plus.apply v w := by
    rw [addPair.eq_def]
    split
    · rcases h with h | h <;> exact absurd rfl h
    · rfl
  rw [hplus x y (.inl hx), hplus y x (.inr hx)]
  exact apply_comm Int.add_comm Int.add_comm single_add_comm double_add_comm x y

theorem add?_comm (p q : Span) : p.add? q = q.add? p := by
  rw [Span.add?, Span.add?, Int.add_comm]

theorem joinSpans_comm (s : Strategy) (operation : Operation) {join : Span → Span → Option Span}
    (hjoin : ∀ p q, join p q = join q p) (a b : Value) :
    SameOutcome (s.joinSpans operation join a b) (s.joinSpans operation join b a) := by
  rw [joinSpans, joinSpans]
  cases s.toSpan operation a with
  | error e => cases s.toSpan operation b <;> rfl
  | ok p =>
    cases s.toSpan operation b with
    | error e => rfl
    | ok q =>
      dsimp only
      rw [hjoin]
      rfl

/-- A sum with a moment or a span has a meaning in both orders or in neither, and the same outcome. -/
theorem addTimes?_comm (s : Strategy) (a b : Value) :
    (s.addTimes? a b).map Except.toOption = (s.addTimes? b a).map Except.toOption := by
  have hjoin (v w : Value) : some (s.joinSpans .add Span.add? v w).toOption =
      some (s.joinSpans .add Span.add? w v).toOption :=
    congrArg some (s.joinSpans_comm .add add?_comm v w)
  cases a with
  | dateTime m => cases b <;> rfl
  | timeSpan p => cases b <;> first | rfl | exact hjoin _ _
  | _ => cases b <;> first | rfl | exact hjoin _ _

theorem exists_addTimes?_of_orderMatters (s : Strategy) (ha : a.kind ≠ .string) (hb : b.kind ≠ .string)
    (h : a.kind.OrderMatters b.kind) : ∃ r, s.addTimes? a b = some r := by
  cases a <;> cases b <;> first
    | exact ⟨_, rfl⟩
    | exact absurd rfl ha
    | exact absurd rfl hb
    | exact absurd h (of_decide_eq_false rfl)

theorem arithmetic_addPair_comm (hs : s.Typed) (ha : a.kind ≠ .string) (hb : b.kind ≠ .string)
    (hnull : a.isNull = false ∧ b.isNull = false) (h : s.Exchanges .comparison a b) :
    SameOutcome (s.arithmetic .additive a b addPair) (s.arithmetic .additive b a addPair) := by
  rw [arithmetic, arithmetic, hnull.1, hnull.2, coercePair_additive ha hb, coercePair_additive hb ha]
  rcases h.fails_or with ⟨e, e', hleft, hright⟩ | ⟨x, y, hleft, hright⟩
  · rw [hleft, hright]
    rfl
  · rw [hleft, hright]
    have hx : x.kind ≠ .string := by
      rw [(hs.of_coercePair hnull.1 hnull.2 hleft).1]
      rcases Kind.common_comparison_eq_or a.kind b.kind with hkind | hkind
      · rwa [hkind]
      · rwa [hkind]
    exact addPair_comm hx y

/-- Addition is symmetric if coercion is, apart from operands that have a sum as moments or spans. -/
theorem add_comm_of_exchanges (hs : s.Typed) (ha : a.kind ≠ .string) (hb : b.kind ≠ .string)
    (h : a.kind ≠ .null → b.kind ≠ .null → s.addTimes? a b = none → s.Exchanges .comparison a b) :
    SameOutcome (s.add a b) (s.add b a) := by
  rw [add, add, Bool.or_comm b.isNull]
  cases hnull : a.isNull || b.isNull with
  | true => rfl
  | false =>
    rw [if_neg Bool.false_ne_true, if_neg Bool.false_ne_true]
    have htimes := s.addTimes?_comm a b
    rw [Bool.or_eq_false_iff] at hnull
    cases hsum : s.addTimes? a b with
    | none =>
      rw [hsum, eq_comm, Option.map_none, Option.map_eq_none_iff] at htimes
      rw [htimes]
      exact arithmetic_addPair_comm hs ha hb hnull (h (Value.kind_ne_null_iff.mpr hnull.1)
        (Value.kind_ne_null_iff.mpr hnull.2) hsum)
    | some r =>
      rw [hsum, eq_comm, Option.map_some, Option.map_eq_some_iff] at htimes
      obtain ⟨r', hr', hsame⟩ := htimes
      rw [hr']
      exact hsame.symm

/-- Under both strategies two values that are not strings add up to the same in either order, or fail to
in both. -/
theorem sums_commute (hs : s = coercing ∨ s = strict) (ha : a.kind ≠ .string)
    (hb : b.kind ≠ .string) : SameOutcome (s.add a b) (s.add b a) := by
  rcases hs with rfl | rfl
  · refine add_comm_of_exchanges typed_coercing ha hb fun hnull hnull' hsum => ?_
    refine coercing_exchanges hnull hnull' fun hmatters => ?_
    obtain ⟨r, hr⟩ := coercing.exists_addTimes?_of_orderMatters ha hb hmatters
    rw [hsum] at hr
    cases hr
  · exact add_comm_of_exchanges typed_strict ha hb fun hnull hnull' _ =>
      strict_exchanges hnull hnull'

/-- A thousand milliseconds on either side of the start of 1970, which the strict strategy refuses on
both. -/
theorem sums_commute_milliseconds : ∃ start second : Moment, start.millis = 0 ∧ second.millis = 1000 ∧
    coercing.add (.dateTime start) (.integer 1000) = .ok (.dateTime second) ∧
    (coercing.add (.integer 1000) (.dateTime start)).toOption = some (.dateTime second) ∧
    SameOutcome (strict.add (.dateTime start) (.integer 1000))
      (strict.add (.integer 1000) (.dateTime start)) := by
  refine ⟨⟨0, 0, by decide, by decide, by decide⟩, ⟨1, 0, by decide, by decide, by decide⟩, rfl, rfl,
    by rfl, ?_, sums_commute (.inr rfl) nofun nofun⟩
  exact sums_commute (.inl rfl) (a := .integer 1000) nofun nofun

end Strategy

end Formula
