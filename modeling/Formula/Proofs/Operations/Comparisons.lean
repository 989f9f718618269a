import Formula.Proofs.Value.Orders

/-!
# How comparisons agree

All comparisons of two values coerce them to one pair and look at the same order of that pair, so under
any strategy they are answers to one question: which of the two comes first, if either does.
-/

namespace Formula

namespace Strategy

variable (s : Strategy) {a b : Value}

theorem ordering_of_present (h : (a.isNull || b.isNull) = false) (operation : Operation)
    (accept : Ordering → Bool) : s.ordering operation accept a b =
      match s.coercePair .comparison a b with
      | .error e => .error e
      | .ok (x, y) =>
        match x.compare? y with
        | some order => .ok (.boolean (order.any accept))
        | none => .error (.unsupported operation x.kind) := by
  rw [ordering, h]
  exact if_neg Bool.false_ne_true

/-- An order of the two values, or that they have none, decides all six comparisons. -/
structure Decides (o : Option Ordering) (a b : Value) : Prop where
  less : s.less a b = .ok (.boolean (o == some .lt))
  equal : s.equal a b = .ok (.boolean (o == some .eq))
  more : s.more a b = .ok (.boolean (o == some .gt))
  lessEqual : s.lessEqual a b = .ok (.boolean (o == some .lt || o == some .eq))
  moreEqual : s.moreEqual a b = .ok (.boolean (o == some .gt || o == some .eq))
  notEqual : s.notEqual a b = .ok (.boolean !(o == some .eq))

theorem decides_of_coercePair (h : (a.isNull || b.isNull) = false) {x y : Value}
    (hpair : s.coercePair .comparison a b = .ok (x, y)) {o : Option Ordering}
    (ho : x.compare? y = some o) : s.Decides o a b := by
  have hordering (operation : Operation) (accept : Ordering → Bool) :
      s.ordering operation accept a b = .ok (.boolean (o.any accept)) := by
    rw [s.ordering_of_present h, hpair]
    dsimp only
    rw [ho]
  have hequal : s.equal a b = .ok (.boolean (o == some .eq)) := by
    rw [equal, h, if_neg Bool.false_ne_true, hpair]
    dsimp only
    rw [Value.same_of_compare? ho]
  refine ⟨(hordering _ _).trans ?_, hequal, (hordering _ _).trans ?_, (hordering _ _).trans ?_,
    (hordering _ _).trans ?_, ?_⟩
  · rcases o with _ | _ | _ | _ <;> rfl
  · rcases o with _ | _ | _ | _ <;> rfl
  · rcases o with _ | _ | _ | _ <;> rfl
  · rcases o with _ | _ | _ | _ <;> rfl
  · rw [notEqual, hequal]
    rfl

theorem ordering_fails_or (h : (a.isNull || b.isNull) = false) :
    (∀ operation accept, (s.ordering operation accept a b).toOption = none) ∨
      ∃ x y o, s.coercePair .comparison a b = .ok (x, y) ∧ x.compare? y = some o := by
  cases hpair : s.coercePair .comparison a b with
  | error e =>
    refine .inl fun operation accept => ?_
    rw [s.ordering_of_present h, hpair]
    rfl
  | ok pair =>
    obtain ⟨x, y⟩ := pair
    cases ho : x.compare? y with
    | none =>
      refine .inl fun operation accept => ?_
      rw [s.ordering_of_present h, hpair]
      dsimp only
      rw [ho]
      rfl
    | some o => exact .inr ⟨x, y, o, rfl, ho⟩

/-- Under any strategy the four comparisons of order of two values that are not null all fail or all
succeed. Where they succeed, so do equality and its opposite, and all six follow from three truth values,
of which exactly one is true, or none if an operand is no number after coercion. -/
theorem comparisons_agree (ha : a ≠ .null) (hb : b ≠ .null) :
    (∀ compared ∈ [s.less a b, s.more a b, s.lessEqual a b, s.moreEqual a b],
      compared.toOption = none) ∨
    ∃ x y, s.coercePair .comparison a b = .ok (x, y) ∧ ∃ less equal more : Bool,
      s.less a b = .ok (.boolean less) ∧ s.equal a b = .ok (.boolean equal) ∧
      s.more a b = .ok (.boolean more) ∧ s.lessEqual a b = .ok (.boolean (less || equal)) ∧
      s.moreEqual a b = .ok (.boolean (more || equal)) ∧ s.notEqual a b = .ok (.boolean !equal) ∧
      [less, equal, more].count true = if x.isNaN || y.isNaN then 0 else 1 := by
  have hpresent : (a.isNull || b.isNull) = false := by
    rw [Bool.or_eq_false_iff, Bool.eq_false_iff, Bool.eq_false_iff]
    exact ⟨mt Value.isNull_iff.mp ha, mt Value.isNull_iff.mp hb⟩
  rcases s.ordering_fails_or hpresent with hfails | ⟨x, y, o, hpair, ho⟩
  · refine .inl fun compared hcompared => ?_
    simp only [List.mem_cons, List.not_mem_nil, or_false] at hcompared
    rcases hcompared with rfl | rfl | rfl | rfl <;> exact hfails _ _
  · have hdecides := s.decides_of_coercePair hpresent hpair ho
    refine .inr ⟨x, y, hpair, _, _, _, hdecides.less, hdecides.equal, hdecides.more,
      hdecides.lessEqual, hdecides.moreEqual, hdecides.notEqual, ?_⟩
    by_cases hnan : (x.isNaN || y.isNaN) = true
    · rw [if_pos hnan, (Value.isNaN_iff_of_compare? ho).mp hnan]
      rfl
    · have hsome := mt (Value.isNaN_iff_of_compare? ho).mpr hnan
      rw [if_neg hnan]
      rcases o with _ | _ | _ | _
      · exact absurd rfl hsome
      · rfl
      · rfl
      · rfl

/-- One, coerced to single precision, next to what is no number there. -/
theorem comparisons_agree_not_a_number :
    let one : Value := .integer 1
    let nan : Value := .float (Number.singleOfBits 0x7fc00000)
    one ≠ .null ∧ nan ≠ .null ∧ nan.isNaN = true ∧
      coercing.coercePair .comparison one nan =
        .ok (.float (Number.singleOfBits 0x3f800000), nan) ∧
      coercing.less one nan = .ok (.boolean false) ∧
      coercing.equal one nan = .ok (.boolean false) ∧
      coercing.more one nan = .ok (.boolean false) ∧
      coercing.lessEqual one nan = .ok (.boolean false) ∧
      coercing.moreEqual one nan = .ok (.boolean false) ∧
      coercing.notEqual one nan = .ok (.boolean true) := by
  intro one nan
  have hnan : nan.isNaN = true := by decide +kernel
  have hpair : coercing.coercePair .comparison one nan =
      .ok (.float (Number.singleOfBits 0x3f800000), nan) := rfl
  refine ⟨nofun, nofun, hnan, hpair, ?_⟩
  rcases coercing.comparisons_agree (a := one) (b := nan) nofun nofun with
    hfails | ⟨x, y, hcoerced, less, equal, more, hless, hequal, hmore, hle, hge, hne, hcount⟩
  · cases hfails _ (.head _)
  · rw [hpair] at hcoerced
    cases hcoerced
    rw [hnan, Bool.or_true, if_pos rfl] at hcount
    cases less <;> cases equal <;> cases more <;> cases hcount
    exact ⟨hless, hequal, hmore, hle, hge, hne⟩

end Strategy

end Formula
