import Formula.Evaluation.Machine

/-!
# Operators under a stricter strategy

A strategy is stricter than another one if each of its conversions that succeeds has the same
result under the other. Operators pass the errors of a conversion on, so what they compute
under the stricter strategy they compute under the other one too. Membership is left out: there
a comparison that fails counts as a difference.
-/

namespace Formula

/-- The value of the first outcome, if it has one, is that of the second. -/
def Keeps {ε α : Type} (r r' : Except ε α) : Prop := ∀ a, r = .ok a → r' = .ok a

namespace Keeps

variable {ε α β : Type} {r r' : Except ε α}

theorem refl (r : Except ε α) : Keeps r r := fun _ h => h

theorem error (e : ε) (r : Except ε α) : Keeps (.error e) r := by
  intro a h
  cases h

/-- Either the first outcome is an error, or both are the same value. -/
@[elab_as_elim]
theorem elim {motive : Except ε α → Except ε α → Prop} {r r' : Except ε α} (h : Keeps r r')
    (error : ∀ e r', motive (.error e) r') (ok : ∀ a, motive (.ok a) (.ok a)) : motive r r' := by
  cases r with
  | error e => exact error e r'
  | ok a =>
    rw [h a rfl]
    exact ok a

theorem map (h : Keeps r r') (f : α → β) : Keeps (r.map f) (r'.map f) :=
  h.elim (fun e _ => error e _) fun _ => refl _

theorem bind (h : Keeps r r') {f f' : α → Except ε β} (hf : ∀ a, Keeps (f a) (f' a)) :
    Keeps (r >>= f) (r' >>= f') :=
  h.elim (fun e _ => error e _) hf

theorem mapM {γ : Type} {f f' : γ → Except ε α} (hf : ∀ x, Keeps (f x) (f' x)) (xs : List γ) :
    Keeps (xs.mapM f) (xs.mapM f') := by
  induction xs with
  | nil => exact refl _
  | cons x xs ih =>
    rw [List.mapM_cons, List.mapM_cons]
    exact (hf x).bind fun y => ih.bind fun ys => refl _

end Keeps

namespace Strategy

/-- What the first strategy converts, the other one converts to the same. -/
def Stricter (s s' : Strategy) : Prop := ∀ v k, Keeps (s.convert v k) (s'.convert v k)

theorem strict_stricter_coercing : strict.Stricter coercing := by
  intro v k
  change Keeps (Strict.convert v k) (Coercing.convert v k)
  unfold Strict.convert Coercing.convert
  split
  · exact .refl _
  · split
    · next hk =>
      subst hk
      exact .refl _
    · exact .error _ _

namespace Stricter

variable {s s' : Strategy} (h : s.Stricter s')
include h

theorem coercePair (mode : OperandMode) (a b : Value) :
    Keeps (s.coercePair mode a b) (s'.coercePair mode a b) :=
  (h a _).bind fun _ => (h b _).bind fun _ => .refl _

theorem toSpan (operation : Operation) (v : Value) :
    Keeps (s.toSpan operation v) (s'.toSpan operation v) := by
  unfold Strategy.toSpan
  split
  · exact .refl _
  · exact (h v .timeSpan).elim (fun e _ => .error e _) fun w => .refl _

theorem moveMoment (operation : Operation) (move : Time.Moment → Time.Span → Option Time.Moment)
    (m : Time.Moment) (v : Value) :
    Keeps (s.moveMoment operation move m v) (s'.moveMoment operation move m v) := by
  unfold Strategy.moveMoment
  exact (h.toSpan operation v).elim (fun e _ => .error e _) fun x => .refl _

theorem joinSpans (operation : Operation) (join : Time.Span → Time.Span → Option Time.Span)
    (a b : Value) :
    Keeps (s.joinSpans operation join a b) (s'.joinSpans operation join a b) := by
  unfold Strategy.joinSpans
  refine (h.toSpan operation a).elim (fun e _ => .error e _) fun x => ?_
  exact (h.toSpan operation b).elim (fun e _ => .error e _) fun y => .refl _

theorem arithmetic (mode : OperandMode) (a b : Value) (f : Value → Value → Result) :
    Keeps (s.arithmetic mode a b f) (s'.arithmetic mode a b f) := by
  unfold Strategy.arithmetic
  split
  · exact .refl _
  · exact (h.coercePair mode a b).elim (fun e _ => .error e _) fun pair => .refl _

/-- Whether a sum is one of times does not depend on the strategy. -/
theorem addTimes? (a b : Value) :
    Option.Rel Keeps (s.addTimes? a b) (s'.addTimes? a b) := by
  unfold Strategy.addTimes?
  split
  · split
    · exact .some (h.moveMoment _ _ _ _)
    · exact .none
  · split
    · exact .some (h.moveMoment _ _ _ _)
    · exact .none
  · split
    · exact .some (h.joinSpans _ _ _ _)
    · exact .none
  · split
    · exact .some (h.joinSpans _ _ _ _)
    · exact .none
  · exact .none

theorem subtractTimes? (a b : Value) :
    Option.Rel Keeps (s.subtractTimes? a b) (s'.subtractTimes? a b) := by
  unfold Strategy.subtractTimes?
  split
  · exact .some (.refl _)
  · split
    · exact .some (h.moveMoment _ _ _ _)
    · exact .none
  · split
    · exact .some (h.joinSpans _ _ _ _)
    · exact .none
  · exact .none

theorem add (a b : Value) : Keeps (s.add a b) (s'.add a b) := by
  unfold Strategy.add
  split
  · exact .refl _
  · have hrel := h.addTimes? a b
    generalize s.addTimes? a b = r at hrel ⊢
    generalize s'.addTimes? a b = r' at hrel ⊢
    cases hrel with
    | some hkeeps => exact hkeeps
    | none => exact h.arithmetic _ a b _

theorem sub (a b : Value) : Keeps (s.sub a b) (s'.sub a b) := by
  unfold Strategy.sub
  split
  · exact .refl _
  · have hrel := h.subtractTimes? a b
    generalize s.subtractTimes? a b = r at hrel ⊢
    generalize s'.subtractTimes? a b = r' at hrel ⊢
    cases hrel with
    | some hkeeps => exact hkeeps
    | none => exact h.arithmetic _ a b _

theorem negative (v : Value) : Keeps (s.negative v) (s'.negative v) := by
  unfold Strategy.negative
  split
  · exact .refl _
  · exact .refl _
  · exact .refl _
  · exact .refl _
  · exact .refl _
  · exact .refl _
  · exact (h v .double).elim (fun e _ => .error e _) fun w => .refl _

theorem connect (rule : LogicRule) (a b : Value) :
    Keeps (s.connect rule a b) (s'.connect rule a b) := by
  unfold Strategy.connect
  split
  · exact .refl _
  · dsimp only
    refine (h a (LogicRule.commonKind a.kind b.kind)).elim (fun e _ => .error e _) fun x => ?_
    exact (h b (LogicRule.commonKind a.kind b.kind)).elim (fun e _ => .error e _)
      fun y => .refl _

theorem not (v : Value) : Keeps (s.not v) (s'.not v) := by
  unfold Strategy.not
  split
  · exact .refl _
  · exact .refl _
  · exact .refl _
  · exact .refl _
  · exact (h v .boolean).elim (fun e _ => .error e _) fun w => .refl _

theorem ordering (operation : Operation) (accept : Ordering → Bool) (a b : Value) :
    Keeps (s.ordering operation accept a b) (s'.ordering operation accept a b) := by
  unfold Strategy.ordering
  split
  · exact .refl _
  · exact (h.coercePair .comparison a b).elim (fun e _ => .error e _) fun pair => .refl _

theorem equal (a b : Value) : Keeps (s.equal a b) (s'.equal a b) := by
  unfold Strategy.equal
  split
  · exact .refl _
  · exact (h.coercePair .comparison a b).elim (fun e _ => .error e _) fun pair => .refl _

theorem like (v pattern : Value) : Keeps (s.like v pattern) (s'.like v pattern) := by
  unfold Strategy.like
  split
  · exact .refl _
  · refine (h v .string).elim (fun e _ => .error e _) fun t => ?_
    exact (h pattern .string).elim (fun e _ => .error e _) fun p => .refl _

theorem toIndex (index : Value) : Keeps (s.toIndex index) (s'.toIndex index) := by
  unfold Strategy.toIndex
  split
  · exact .refl _
  · exact .refl _
  · exact (h index .long).elim (fun e _ => .error e _) fun w => .refl _

theorem element (collection index : Value) :
    Keeps (s.element collection index) (s'.element collection index) := by
  unfold Strategy.element
  split
  · exact .refl _
  · exact (h.toIndex index).elim (fun e _ => .error e _) fun i => .refl _

theorem applyInfix {op : InfixOp} (hin : op ≠ .isIn) (hnot : op ≠ .notIn) (a b : Value) :
    Keeps (s.applyInfix op a b) (s'.applyInfix op a b) := by
  cases op with
  | plus => exact h.add a b
  | minus => exact h.sub a b
  | star => exact h.arithmetic _ a b _
  | slash => exact h.arithmetic _ a b _
  | percent => exact h.arithmetic _ a b _
  | power => exact h.arithmetic _ a b _
  | shiftLeft => exact h.arithmetic _ a b _
  | shiftRight => exact h.arithmetic _ a b _
  | equal => exact h.equal a b
  | notEqual => exact (h.equal a b).map _
  | more => exact h.ordering _ _ a b
  | less => exact h.ordering _ _ a b
  | moreEqual => exact h.ordering _ _ a b
  | lessEqual => exact h.ordering _ _ a b
  | and => exact h.connect _ a b
  | or => exact h.connect _ a b
  | xor => exact h.connect _ a b
  | isIn => exact absurd rfl hin
  | notIn => exact absurd rfl hnot
  | like => exact h.like a b
  | notLike => exact (h.like a b).map _

theorem applyPrefix (op : PrefixOp) (v : Value) :
    Keeps (s.applyPrefix op v) (s'.applyPrefix op v) := by
  cases op with
  | negate => exact h.negative v
  | not => exact h.not v

end Stricter

end Strategy

end Formula
