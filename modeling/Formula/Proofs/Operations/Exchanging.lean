import Formula.Operations.Strategy

/-!
# Operands that change places

The common kind of two operands is that of the left one where nothing else is said, so what coercion
gives may depend on which operand stands on the left. Under the strict strategy it never does, and under
the coercing one only where one operand is a number and the other a moment or a span, or one a string and
the other an object: between all other kinds of which the left one decides there is no conversion.
-/

namespace Formula

namespace Kind

def IsNumber (k : Kind) : Prop := k ∈ [.integer, .long, .float, .double]

def IsTime (k : Kind) : Prop := k ∈ [.dateTime, .timeSpan]

/-- The kinds between which there are conversions, though the left one is the common kind. -/
def OrderMatters (k l : Kind) : Prop :=
  k.IsNumber ∧ l.IsTime ∨ k.IsTime ∧ l.IsNumber ∨
    k = .string ∧ l = .object ∨ k = .object ∧ l = .string

instance (k : Kind) : Decidable k.IsNumber := inferInstanceAs (Decidable (_ ∈ _))

instance (k : Kind) : Decidable k.IsTime := inferInstanceAs (Decidable (_ ∈ _))

instance (k l : Kind) : Decidable (k.OrderMatters l) := inferInstanceAs (Decidable (_ ∨ _))

instance {p : Kind → Prop} [DecidablePred p] : Decidable (∀ k, p k) :=
  decidable_of_iff (∀ k ∈ Kind.all, p k) ⟨fun h k => h k k.mem_all, fun h k _ => h k⟩

theorem common_comparison_eq_or (k l : Kind) :
    common .comparison k l = k ∨ common .comparison k l = l := by
  revert k l
  decide

/-- Without strings an addition takes the kind that a comparison takes. -/
theorem common_additive {k l : Kind} (hk : k ≠ .string) (hl : l ≠ .string) :
    common .additive k l = common .comparison k l := by
  simp [common, hk, hl]

theorem common_of_orderMatters {k l : Kind} (h : k.OrderMatters l) : common .comparison k l = k := by
  revert k l
  decide

end Kind

namespace Coercing

/-- The kinds that values of a kind are coerced to, apart from their own and null. -/
def forms : Kind → List Kind
  | .null => Kind.all
  | .boolean => [.integer, .long, .float, .double, .string]
  | .integer | .long | .float | .double =>
    [.integer, .long, .float, .double, .boolean, .string, .dateTime, .timeSpan]
  | .string => [.integer, .long, .float, .double, .boolean, .dateTime, .timeSpan, .object]
  | .dateTime | .timeSpan => [.integer, .long, .float, .double, .string]
  | .object => [.string]
  | .array => []

theorem convert_refused {v : Value} {k : Kind} (hkind : v.kind ≠ k) (hnull : k ≠ .null)
    (h : k ∉ forms v.kind) : (convert v k).toOption = none := by
  cases v <;> cases k <;> first
    | rfl
    | exact absurd rfl hkind
    | exact absurd rfl hnull
    | exact absurd (List.mem_of_elem_eq_true rfl) h

theorem common_symmetric_or_refused {k l : Kind} (hk : k ≠ .null) (hl : l ≠ .null)
    (h : ¬ k.OrderMatters l) :
    Kind.common .comparison k l = Kind.common .comparison l k ∨
      k ≠ l ∧ Kind.common .comparison k l = k ∧ Kind.common .comparison l k = l ∧
        l ∉ forms k ∧ k ∉ forms l := by
  revert k l
  decide

end Coercing

theorem Value.kind_ne_null_iff {v : Value} : v.kind ≠ .null ↔ v.isNull = false := by
  rw [ne_eq, Value.kind_eq_null_iff, ← Value.isNull_iff, Bool.not_eq_true]

theorem Value.isNull_eq_of_kind_eq {a b : Value} (h : a.kind = b.kind) : a.isNull = b.isNull := by
  rw [Bool.eq_iff_iff, isNull_iff, isNull_iff, ← kind_eq_null_iff, ← kind_eq_null_iff, h]

/-- Both fail, or both give the same value. -/
def SameOutcome (r r' : Result) : Prop := r.toOption = r'.toOption

namespace Strategy

variable {s : Strategy} {mode : OperandMode} {a b x y : Value}

theorem lawful_of_eq (hs : s = coercing ∨ s = strict) : s.Lawful := by
  rcases hs with rfl | rfl
  · exact lawful_coercing
  · exact lawful_strict

theorem coercePair_eq_ok_iff : s.coercePair mode a b = .ok (x, y) ↔
    s.convert a (Kind.common mode a.kind b.kind) = .ok x ∧
      s.convert b (Kind.common mode a.kind b.kind) = .ok y := by
  rw [coercePair]
  cases s.convert a (Kind.common mode a.kind b.kind) with
  | error e => exact ⟨nofun, nofun⟩
  | ok v =>
    cases s.convert b (Kind.common mode a.kind b.kind) with
    | error e => exact ⟨nofun, nofun⟩
    | ok w => simp [bind, Except.bind, pure, Except.pure]

/-- Coercion of the operands the other way round gives the same pair the other way round, or fails as
well. -/
def Exchanges (s : Strategy) (mode : OperandMode) (a b : Value) : Prop :=
  ∀ x y, s.coercePair mode a b = .ok (x, y) ↔ s.coercePair mode b a = .ok (y, x)

namespace Exchanges

theorem of_common (h : Kind.common mode a.kind b.kind = Kind.common mode b.kind a.kind) :
    s.Exchanges mode a b := by
  intro x y
  rw [coercePair_eq_ok_iff, coercePair_eq_ok_iff, h, and_comm]

theorem of_fails (hleft : (s.coercePair mode a b).toOption = none)
    (hright : (s.coercePair mode b a).toOption = none) : s.Exchanges mode a b := by
  intro x y
  constructor <;> intro hpair
  · rw [hpair] at hleft
    cases hleft
  · rw [hpair] at hright
    cases hright

/-- Either both coercions fail, or they give one pair in two orders. -/
theorem fails_or (h : s.Exchanges mode a b) :
    (∃ e e', s.coercePair mode a b = .error e ∧ s.coercePair mode b a = .error e') ∨
      ∃ x y, s.coercePair mode a b = .ok (x, y) ∧ s.coercePair mode b a = .ok (y, x) := by
  cases hpair : s.coercePair mode a b with
  | ok pair => exact .inr ⟨pair.1, pair.2, rfl, (h _ _).mp hpair⟩
  | error e =>
    cases hother : s.coercePair mode b a with
    | ok pair =>
      have hboth := (h pair.2 pair.1).mpr hother
      rw [hpair] at hboth
      cases hboth
    | error e' => exact .inl ⟨e, e', rfl, rfl⟩

end Exchanges

theorem coercePair_fails_of_convert
    (h : (s.convert a (Kind.common mode a.kind b.kind)).toOption = none ∨
      (s.convert b (Kind.common mode a.kind b.kind)).toOption = none) :
    (s.coercePair mode a b).toOption = none := by
  cases hpair : s.coercePair mode a b with
  | error e => rfl
  | ok pair =>
    obtain ⟨x, y⟩ := pair
    obtain ⟨hleft, hright⟩ := coercePair_eq_ok_iff.mp hpair
    rw [hleft, hright] at h
    rcases h with h | h <;> cases h

theorem coercePair_additive (ha : a.kind ≠ .string) (hb : b.kind ≠ .string) :
    s.coercePair .additive a b = s.coercePair .comparison a b := by
  rw [coercePair, coercePair, Kind.common_additive ha hb]

theorem coercing_exchanges (ha : a.kind ≠ .null) (hb : b.kind ≠ .null)
    (h : ¬ a.kind.OrderMatters b.kind) : coercing.Exchanges .comparison a b := by
  rcases Coercing.common_symmetric_or_refused ha hb h with
    hcommon | ⟨hne, hleft, hright, hnotLeft, hnotRight⟩
  · exact .of_common hcommon
  · refine .of_fails (coercePair_fails_of_convert (.inr ?_)) (coercePair_fails_of_convert (.inr ?_))
    · rw [hleft]
      exact Coercing.convert_refused hne.symm ha hnotRight
    · rw [hright]
      exact Coercing.convert_refused hne hb hnotLeft

theorem strict_convert_fails (hnull : a.kind ≠ .null) {k : Kind} (hk : k ≠ .null) (h : a.kind ≠ k) :
    (strict.convert a k).toOption = none := by
  have hkeeps : ¬ (a.kind = k ∨ a.isNull = true) := by
    rw [Value.kind_ne_null_iff.mp hnull]
    exact not_or.mpr ⟨h, Bool.false_ne_true⟩
  rw [strict]
  dsimp only
  rw [Strict.convert, if_neg hkeeps, if_neg hk]
  rfl

theorem strict_exchanges (ha : a.kind ≠ .null) (hb : b.kind ≠ .null) :
    strict.Exchanges .comparison a b := by
  by_cases hsame : a.kind = b.kind
  · exact .of_common (by rw [hsame])
  · have hfails {v w : Value} (hv : v.kind ≠ .null) (hw : w.kind ≠ .null) (hne : v.kind ≠ w.kind) :
        (strict.coercePair .comparison v w).toOption = none := by
      refine coercePair_fails_of_convert ?_
      rcases Kind.common_comparison_eq_or v.kind w.kind with hkind | hkind
      · rw [hkind]
        exact .inr (strict_convert_fails hw hv hne.symm)
      · rw [hkind]
        exact .inl (strict_convert_fails hv hw hne)
    exact .of_fails (hfails ha hb hsame) (hfails hb ha (Ne.symm hsame))

end Strategy

end Formula
