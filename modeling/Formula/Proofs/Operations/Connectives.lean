import Formula.Operations.Logic
import Formula.Proofs.Operations.Sums

/-!
# Laws of the connectives

A truth value is one bit and an integer as many as its width has. At each place the connectives and NOT
work on the bits there as on truth values, whatever the width they are computed in, so every law of two
truth values is one of two operands of the same kind. Both convert what is neither a truth value nor an
integer to a truth value, and fail where there is none.
-/

namespace Formula

/-- The bits of a truth value or an integer; values of other kinds have none. -/
def Kind.bits : Kind → Nat
  | .boolean => 1
  | .integer => 32
  | .long => 64
  | _ => 0

theorem Kind.bits_pos_iff {k : Kind} : 0 < k.bits ↔ k ∈ [.boolean, .integer, .long] := by
  revert k
  decide

def Value.bit : Value → Nat → Bool
  | .boolean b, i => (BitVec.ofBool b).getLsbD i
  | .integer n, i => n.toBitVec.getLsbD i
  | .long n, i => n.toBitVec.getLsbD i
  | _, _ => false

/-- `v` is of the kind of `a`, and each of its bits is `f` of the two that `a` and `b` have there. -/
structure BitByBit (f : Bool → Bool → Bool) (a b v : Value) : Prop where
  kind : v.kind = a.kind
  bit (i : Nat) (h : i < a.kind.bits) : v.bit i = f (a.bit i) (b.bit i)

theorem Value.eq_of_bit {v w : Value} (hv : 0 < v.kind.bits) (hkind : v.kind = w.kind)
    (h : ∀ i < v.kind.bits, v.bit i = w.bit i) : v = w := by
  cases v with
  | boolean p =>
    cases w with
    | boolean q => exact congrArg boolean (by simpa [bit] using h 0 hv)
    | _ => cases hkind
  | integer m =>
    cases w with
    | integer n => exact congrArg integer (Int32.toBitVec_inj.mp (BitVec.eq_of_getLsbD_eq h))
    | _ => cases hkind
  | long m =>
    cases w with
    | long n => exact congrArg long (Int64.toBitVec_inj.mp (BitVec.eq_of_getLsbD_eq h))
    | _ => cases hkind
  | _ => exact absurd hv (Nat.lt_irrefl 0)

namespace LogicRule

/-- On integers the connective is at each place what it is on truth values. -/
def Bitwise (r : LogicRule) : Prop :=
  ∀ (x y : Int64) (i : Nat), i < 64 → (r.bits x y).toBitVec.getLsbD i =
    r.boolean (x.toBitVec.getLsbD i) (y.toBitVec.getLsbD i)

theorem bitwise_and : and.Bitwise := by
  intro x y i hi
  exact (congrArg (BitVec.getLsbD · i) (Int64.toBitVec_and x y)).trans BitVec.getLsbD_and

theorem bitwise_or : or.Bitwise := by
  intro x y i hi
  exact (congrArg (BitVec.getLsbD · i) (Int64.toBitVec_or x y)).trans BitVec.getLsbD_or

theorem bitwise_xor : xor.Bitwise := by
  intro x y i hi
  exact (congrArg (BitVec.getLsbD · i) (Int64.toBitVec_xor x y)).trans BitVec.getLsbD_xor

/-- The bits of a shorter integer are the lowest of those it is widened to. -/
theorem getLsbD_toInt64 (n : Int32) {i : Nat} (hi : i < 32) :
    n.toInt64.toBitVec.getLsbD i = n.toBitVec.getLsbD i := by
  rw [Int32.toBitVec_toInt64, BitVec.getLsbD_signExtend]
  simp [hi, Nat.lt_trans hi (by decide : 32 < 64)]

theorem getLsbD_toInt32 (n : Int64) {i : Nat} (hi : i < 32) :
    n.toInt32.toBitVec.getLsbD i = n.toBitVec.getLsbD i := by
  rw [Int64.toBitVec_toInt32, BitVec.getLsbD_signExtend]
  simp [hi, Nat.lt_trans hi (by decide : 32 < 64)]

theorem Bitwise.apply {r : LogicRule} (hr : r.Bitwise) {x y : Value} (hx : 0 < x.kind.bits)
    (hkind : x.kind = y.kind) : ∃ v, r.apply x y = .ok v ∧ BitByBit r.boolean x y v := by
  cases x with
  | boolean p =>
    cases y with
    | boolean q =>
      refine ⟨_, rfl, rfl, fun i (hi : i < 1) => ?_⟩
      rw [Nat.lt_one_iff.mp hi]
      simp [Value.bit]
    | _ => cases hkind
  | integer m =>
    cases y with
    | integer n =>
      refine ⟨_, rfl, rfl, fun i (hi : i < 32) => ?_⟩
      have hwide := hr m.toInt64 n.toInt64 i (Nat.lt_trans hi (by decide))
      rw [getLsbD_toInt64 m hi, getLsbD_toInt64 n hi] at hwide
      exact (getLsbD_toInt32 _ hi).trans hwide
    | _ => cases hkind
  | long m =>
    cases y with
    | long n => exact ⟨_, rfl, rfl, hr m n⟩
    | _ => cases hkind
  | _ => exact absurd hx (Nat.lt_irrefl 0)

theorem bits_commonKind (k : Kind) : 0 < (commonKind k k).bits := by
  revert k
  decide

theorem commonKind_of_bits {k : Kind} (h : 0 < k.bits) : commonKind k k = k := by
  revert k
  decide

theorem commonKind_of_no_bits {k : Kind} (h : k.bits = 0) : commonKind k k = .boolean := by
  revert k
  decide

end LogicRule

namespace Strategy

variable {s : Strategy} {r : LogicRule} {a b x y : Value} {f g : Bool → Bool → Bool}
  {left right : Result}

theorem connect_of_present (hnull : a.isNull = false) (hkind : a.kind = b.kind) :
    s.connect r a b = (do
      let x ← s.convert a (LogicRule.commonKind a.kind a.kind)
      let y ← s.convert b (LogicRule.commonKind a.kind a.kind)
      r.apply x y) := by
  have hother : b.isNull = false := Value.isNull_eq_of_kind_eq hkind ▸ hnull
  rw [connect, hnull, hother, Bool.or_self, if_neg Bool.false_ne_true, ← hkind]
  dsimp only
  cases s.convert a (LogicRule.commonKind a.kind a.kind) with
  | error e => rfl
  | ok x => cases s.convert b (LogicRule.commonKind a.kind a.kind) <;> rfl

theorem connect_of_bits (hs : s.Lawful) (hx : 0 < x.kind.bits) (hkind : x.kind = y.kind) :
    s.connect r x y = r.apply x y := by
  have hnull : x.isNull = false := by
    rw [← Value.kind_ne_null_iff]
    intro hkind
    rw [hkind] at hx
    exact absurd hx (Nat.lt_irrefl 0)
  have hy := hs.convert_self y
  rw [← hkind] at hy
  rw [connect_of_present hnull hkind, LogicRule.commonKind_of_bits hx, hs.convert_self x, hy]
  rfl

theorem not_bitByBit (s : Strategy) (hx : 0 < x.kind.bits) :
    ∃ v, s.not x = .ok v ∧ BitByBit (fun p _ => !p) x x v := by
  cases x with
  | boolean p =>
    refine ⟨_, rfl, rfl, fun i (hi : i < 1) => ?_⟩
    rw [Nat.lt_one_iff.mp hi]
    simp [Value.bit]
  | integer n =>
    refine ⟨_, rfl, rfl, fun i (hi : i < 32) => ?_⟩
    simp [Value.bit, hi]
  | long n =>
    refine ⟨_, rfl, rfl, fun i (hi : i < 64) => ?_⟩
    simp [Value.bit, hi]
  | _ => exact absurd hx (Nat.lt_irrefl 0)

/-- The outcome is a value with the bits that `f` gives for those of `x` and `y`. -/
def Computes (f : Bool → Bool → Bool) (x y : Value) (outcome : Result) : Prop :=
  ∃ v, outcome = .ok v ∧ BitByBit f x y v

namespace Computes

theorem of_left (x y : Value) : Computes (fun p _ => p) x y (.ok x) :=
  ⟨x, rfl, rfl, fun _ _ => rfl⟩

theorem of_right (hkind : x.kind = y.kind) : Computes (fun _ q => q) x y (.ok y) :=
  ⟨y, rfl, hkind.symm, fun _ _ => rfl⟩

theorem connect (hs : s.Lawful) (hr : r.Bitwise) (hx : 0 < x.kind.bits)
    (hleft : Computes f x y left) (hright : Computes g x y right) :
    Computes (fun p q => r.boolean (f p q) (g p q)) x y
      (do s.connect r (← left) (← right)) := by
  obtain ⟨v, rfl, hv⟩ := hleft
  obtain ⟨w, rfl, hw⟩ := hright
  have hbits : 0 < v.kind.bits := hv.kind ▸ hx
  have hkind : v.kind = w.kind := hv.kind.trans hw.kind.symm
  obtain ⟨z, hz, hzbits⟩ := hr.apply hbits hkind
  refine ⟨z, (connect_of_bits hs hbits hkind).trans hz, hzbits.kind.trans hv.kind, fun i hi => ?_⟩
  rw [hzbits.bit i (hv.kind ▸ hi), hv.bit i hi, hw.bit i hi]

theorem not (s : Strategy) (hx : 0 < x.kind.bits) (h : Computes f x y left) :
    Computes (fun p q => !f p q) x y (left >>= s.not) := by
  obtain ⟨v, rfl, hv⟩ := h
  obtain ⟨z, hz, hzbits⟩ := s.not_bitByBit (x := v) (hv.kind ▸ hx)
  refine ⟨z, hz, hzbits.kind.trans hv.kind, fun i hi => ?_⟩
  rw [hzbits.bit i (hv.kind ▸ hi), hv.bit i hi]

/-- Two ways to compute the same truth table have the same outcome. -/
theorem unique (hx : 0 < x.kind.bits) (hleft : Computes f x y left) (hright : Computes g x y right)
    (h : ∀ p q, f p q = g p q) : left = right := by
  obtain ⟨v, rfl, hv⟩ := hleft
  obtain ⟨w, rfl, hw⟩ := hright
  have hvw : v = w := Value.eq_of_bit (hv.kind ▸ hx) (hv.kind.trans hw.kind.symm) fun i hi => by
    rw [hv.kind] at hi
    rw [hv.bit i hi, hw.bit i hi, h]
  rw [hvw]

end Computes

theorem not_of_no_bits (hnull : a.isNull = false) (hbits : a.kind.bits = 0) : s.not a =
    match s.convert a .boolean with
    | .ok (.boolean b) => .ok (.boolean (!b))
    | .ok _ => .error (.unsupported .not a.kind)
    | .error e => .error e := by
  cases a <;> first
    | rfl
    | exact absurd hbits (Nat.succ_ne_zero _)
    | cases hnull

theorem not_of_convert (htyped : s.Typed) (hlawful : s.Lawful) (hnull : a.isNull = false) :
    s.not a = s.convert a (LogicRule.commonKind a.kind a.kind) >>= s.not := by
  by_cases hbits : 0 < a.kind.bits
  · rw [LogicRule.commonKind_of_bits hbits, hlawful.convert_self a]
    rfl
  · have hnone := Nat.eq_zero_of_not_pos hbits
    rw [not_of_no_bits hnull hnone, LogicRule.commonKind_of_no_bits hnone]
    cases hread : s.convert a .boolean with
    | error e => rfl
    | ok x =>
      have hkind := htyped hnull hread
      cases x <;> first
        | rfl
        | cases hkind

/-- Two operands of one kind that are not null are read as two that have bits, by the connectives and by
NOT alike, or all of these fail. -/
theorem reads_or (htyped : s.Typed) (hlawful : s.Lawful) (hnull : a.isNull = false)
    (hkind : a.kind = b.kind) :
    ((∀ r, ∃ e, s.connect r a b = .error e) ∧
      ((∃ e, s.not a = .error e) ∨ ∃ e, s.not b = .error e)) ∨
    ∃ x y, 0 < x.kind.bits ∧ x.kind = y.kind ∧ (∀ r, s.connect r a b = s.connect r x y) ∧
      s.not a = s.not x ∧ s.not b = s.not y := by
  have hother : b.isNull = false := Value.isNull_eq_of_kind_eq hkind ▸ hnull
  have hnotLeft := not_of_convert htyped hlawful hnull
  have hnotRight := not_of_convert htyped hlawful hother
  rw [← hkind] at hnotRight
  have hconnect (r : LogicRule) := connect_of_present (s := s) (r := r) hnull hkind
  cases hx : s.convert a (LogicRule.commonKind a.kind a.kind) with
  | error e =>
    rw [hx] at hnotLeft hconnect
    exact .inl ⟨fun r => ⟨e, hconnect r⟩, .inl ⟨e, hnotLeft⟩⟩
  | ok x =>
    rw [hx] at hnotLeft hconnect
    cases hy : s.convert b (LogicRule.commonKind a.kind a.kind) with
    | error e =>
      rw [hy] at hnotRight hconnect
      exact .inl ⟨fun r => ⟨e, hconnect r⟩, .inr ⟨e, hnotRight⟩⟩
    | ok y =>
      rw [hy] at hnotRight hconnect
      have hxkind := htyped hnull hx
      have hykind := htyped hother hy
      have hbits : 0 < x.kind.bits := hxkind ▸ LogicRule.bits_commonKind a.kind
      have hxy := hxkind.trans hykind.symm
      refine .inr ⟨x, y, hbits, hxy, fun r => ?_, hnotLeft, hnotRight⟩
      exact (hconnect r).trans (connect_of_bits hlawful hbits hxy).symm

/-- De Morgan's laws and the definition of XOR by the other connectives. -/
structure Laws (s : Strategy) (a b : Value) : Prop where
  not_and : SameOutcome (s.and a b >>= s.not) (do s.or (← s.not a) (← s.not b))
  not_or : SameOutcome (s.or a b >>= s.not) (do s.and (← s.not a) (← s.not b))
  xor : SameOutcome (s.xor a b) (do s.and (← s.or a b) (← s.and a b >>= s.not))

theorem laws_of_bits (hs : s.Lawful) (hx : 0 < x.kind.bits) (hkind : x.kind = y.kind) :
    s.Laws x y := by
  have hleft := Computes.of_left x y
  have hright := Computes.of_right hkind
  have hnotLeft := hleft.not s hx
  have hnotRight := hright.not s hx
  have hand := hleft.connect hs LogicRule.bitwise_and hx hright
  have hor := hleft.connect hs LogicRule.bitwise_or hx hright
  have hxor := hleft.connect hs LogicRule.bitwise_xor hx hright
  refine ⟨congrArg _ ?_, congrArg _ ?_, congrArg _ ?_⟩
  · exact (hand.not s hx).unique hx
      (hnotLeft.connect hs LogicRule.bitwise_or hx hnotRight) Bool.not_and
  · exact (hor.not s hx).unique hx
      (hnotLeft.connect hs LogicRule.bitwise_and hx hnotRight) Bool.not_or
  · exact hxor.unique hx (hor.connect hs LogicRule.bitwise_and hx (hand.not s hx)) (by decide)

theorem laws_of_failure (hconnect : ∀ r, ∃ e, s.connect r a b = .error e)
    (hnot : (∃ e, s.not a = .error e) ∨ ∃ e, s.not b = .error e) : s.Laws a b := by
  have hfails (f : Value → Value → Result) :
      (do f (← s.not a) (← s.not b) : Result).toOption = none := by
    rcases hnot with ⟨e, hnot⟩ | ⟨e, hnot⟩
    · rw [hnot]
      rfl
    · rw [hnot]
      cases s.not a <;> rfl
  obtain ⟨e, hand⟩ := hconnect .and
  obtain ⟨e', hor⟩ := hconnect .or
  obtain ⟨e'', hxor⟩ := hconnect .xor
  refine ⟨?_, ?_, ?_⟩
  · rw [and, hand]
    exact (hfails s.or).symm
  · rw [or, hor]
    exact (hfails s.and).symm
  · rw [xor, hxor, or, hor]
    rfl

theorem laws_of_kind (htyped : s.Typed) (hlawful : s.Lawful) (hkind : a.kind = b.kind) :
    s.Laws a b := by
  cases hnull : a.isNull with
  | true =>
    rw [Value.isNull_iff] at hnull
    subst hnull
    rw [Value.kind_eq_null_iff.mp hkind.symm]
    exact ⟨rfl, rfl, rfl⟩
  | false =>
    rcases reads_or htyped hlawful hnull hkind with
      ⟨hconnect, hnot⟩ | ⟨x, y, hx, hxy, hconnect, hnotLeft, hnotRight⟩
    · exact laws_of_failure hconnect hnot
    · have hlaws := laws_of_bits hlawful hx hxy
      have hand : s.and a b = s.and x y := hconnect .and
      have hor : s.or a b = s.or x y := hconnect .or
      have hxor : s.xor a b = s.xor x y := hconnect .xor
      refine ⟨?_, ?_, ?_⟩
      · rw [hand, hnotLeft, hnotRight]
        exact hlaws.not_and
      · rw [hor, hnotLeft, hnotRight]
        exact hlaws.not_or
      · rw [hand, hor, hxor]
        exact hlaws.xor

/-- Under both strategies the connectives and NOT obey De Morgan's laws on operands of one kind, and XOR
is what the others make of it. On truth values and integers NOT undoes itself, and all of them work bit
by bit in the width of the operands. -/
theorem connectives_agree (hs : s = coercing ∨ s = strict) (h : a.kind = b.kind) :
    SameOutcome (s.and a b >>= s.not) (do s.or (← s.not a) (← s.not b)) ∧
    SameOutcome (s.or a b >>= s.not) (do s.and (← s.not a) (← s.not b)) ∧
    SameOutcome (s.xor a b) (do s.and (← s.or a b) (← s.and a b >>= s.not)) ∧
    (a.kind ∈ [.boolean, .integer, .long] → (s.not a >>= s.not) = .ok a ∧
      Computes (fun p q => p && q) a b (s.and a b) ∧ Computes (fun p q => p || q) a b (s.or a b) ∧
      Computes (fun p q => p ^^ q) a b (s.xor a b) ∧ Computes (fun p _ => !p) a b (s.not a)) := by
  have hlawful := lawful_of_eq hs
  have hlaws := laws_of_kind (typed_of_eq hs) hlawful h
  refine ⟨hlaws.not_and, hlaws.not_or, hlaws.xor, fun hmem => ?_⟩
  have hbits := Kind.bits_pos_iff.mpr hmem
  have hleft := Computes.of_left a b
  have hright := Computes.of_right h
  refine ⟨?_, hleft.connect hlawful LogicRule.bitwise_and hbits hright,
    hleft.connect hlawful LogicRule.bitwise_or hbits hright,
    hleft.connect hlawful LogicRule.bitwise_xor hbits hright, hleft.not s hbits⟩
  exact ((hleft.not s hbits).not s hbits).unique hbits hleft fun p _ => Bool.not_not p

/-- Two texts that the coercing strategy reads as truth values, and two integers under the strict one. -/
theorem connectives_agree_texts_and_integers :
    coercing.and (.string "TRUE") (.string " 0 ") = .ok (.boolean false) ∧
    SameOutcome (coercing.and (.string "TRUE") (.string " 0 ") >>= coercing.not)
      (do coercing.or (← coercing.not (.string "TRUE")) (← coercing.not (.string " 0 "))) ∧
    strict.xor (.integer 12) (.integer (-6)) = .ok (.integer (-10)) ∧
    Computes (fun p q => p ^^ q) (.integer 12) (.integer (-6))
      (strict.xor (.integer 12) (.integer (-6))) := by
  have hintegers := connectives_agree (.inr rfl) (a := .integer 12) (b := .integer (-6)) rfl
  have htexts := connectives_agree (.inl rfl) (a := .string "TRUE") (b := .string " 0 ") rfl
  refine ⟨rfl, htexts.1, rfl, ?_⟩
  exact (hintegers.2.2.2 (by decide)).2.2.2.1

end Strategy

end Formula
