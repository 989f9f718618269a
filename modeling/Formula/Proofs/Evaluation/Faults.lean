import Formula.Evaluation.Machine

/-!
# Errors of operators

Operators see neither the stack nor the formula. So their errors have no position, unless the
strategy raises one that has when it converts a value; in particular none of them is internal.
A function that fails reports its own error inside another one.
-/

namespace Formula

variable {α β : Type} {P Q : EvalError → Prop}

/-- The error of the outcome, if it is one, is of the kind `P`. -/
def ErrorsIn (P : EvalError → Prop) : Except EvalError α → Prop
  | .ok _ => True
  | .error e => P e

namespace ErrorsIn

theorem of_eq_error {r : Except EvalError α} (hr : ErrorsIn P r) {e : EvalError}
    (h : r = .error e) : ErrorsIn P (.error e : Except EvalError β) := by
  rwa [h] at hr

theorem mono {r : Except EvalError α} (hr : ErrorsIn P r) (hPQ : ∀ e, P e → Q e) :
    ErrorsIn Q r := by
  cases r with
  | ok a => trivial
  | error e => exact hPQ e hr

theorem map {r : Except EvalError α} (hr : ErrorsIn P r) (f : α → β) : ErrorsIn P (r.map f) := by
  cases r with
  | ok a => trivial
  | error e => exact hr

theorem bind {r : Except EvalError α} (hr : ErrorsIn P r) {f : α → Except EvalError β}
    (hf : ∀ a, ErrorsIn P (f a)) : ErrorsIn P (r >>= f) := by
  cases r with
  | ok a => exact hf a
  | error e => exact hr

end ErrorsIn

/-- The outcome is no error that is placed in the formula. -/
def Unplaced (r : Except EvalError α) : Prop := ErrorsIn (fun e => e.position? = none) r

def NotInternal {α : Type} : Except EvalError α → Prop
  | .ok _ => True
  | .error e => e.isInternal = false

theorem notInternal_iff {r : Except EvalError α} :
    NotInternal r ↔ ErrorsIn (fun e => e.isInternal = false) r := by
  cases r <;> rfl

theorem NotInternal.bind {r : Except EvalError α} (hr : NotInternal r)
    {f : α → Except EvalError β} (hf : ∀ a, NotInternal (f a)) : NotInternal (r >>= f) :=
  notInternal_iff.mpr ((notInternal_iff.mp hr).bind fun a => notInternal_iff.mp (hf a))

/-- The strategy has no internal errors of its own. -/
def Strategy.External (s : Strategy) : Prop := ∀ v k, NotInternal (s.convert v k)

/-- What the strategy raises in conversions is of the kind `P`, as are all errors that have no
position. -/
structure Strategy.Within (P : EvalError → Prop) (s : Strategy) : Prop where
  convert (v : Value) (k : Kind) : ErrorsIn P (s.convert v k)
  unplaced (e : EvalError) (he : e.position? = none) : P e

theorem Strategy.unplaced_strict (v : Value) (k : Kind) : Unplaced (strict.convert v k) := by
  change Unplaced (Strict.convert v k)
  rw [Strict.convert]
  split
  · trivial
  · split <;> trivial

namespace Coercing

theorem unplaced_toLong (v : Value) (target : Kind) : Unplaced (toLong v target) := by
  rw [toLong.eq_def]
  dsimp only
  split
  · trivial
  · trivial
  · trivial
  · split <;> trivial
  · split <;> trivial
  · split <;> trivial
  · trivial
  · trivial
  · rfl

theorem unplaced_toDouble (v : Value) (target : Kind) : Unplaced (toDouble v target) := by
  rw [toDouble.eq_def]
  split
  · trivial
  · split <;> trivial
  · trivial
  · trivial
  · split <;> trivial

theorem unplaced_toBoolean (v : Value) : Unplaced (toBoolean v) := by
  rw [toBoolean.eq_def]
  split
  · trivial
  · trivial
  · trivial
  · trivial
  · split <;> trivial
  · rfl

theorem unplaced_toInteger (v : Value) : Unplaced (toInteger v) := by
  rw [toInteger]
  split
  · next he => exact (unplaced_toLong v _).of_eq_error he
  · split <;> trivial

theorem unplaced_toMoment (v : Value) : Unplaced (toMoment v) := by
  rw [toMoment.eq_def]
  dsimp only
  split
  case h_1 => split <;> trivial
  case h_6 => rfl
  all_goals
    split
    · next he => exact (unplaced_toLong _ _).of_eq_error he
    · split <;> trivial

theorem unplaced_toSpan (v : Value) : Unplaced (toSpan v) := by
  rw [toSpan.eq_def]
  dsimp only
  split
  case h_6 => rfl
  all_goals
    split
    · next he => exact (unplaced_toLong _ _).of_eq_error he
    · split <;> trivial

theorem unplaced_toText (v : Value) : Unplaced (toText v) := by
  rw [toText.eq_def]
  split <;> trivial

theorem unplaced_toObject (v : Value) : Unplaced (toObject v) := by
  rw [toObject.eq_def]
  split
  · split <;> trivial
  · rfl

end Coercing

theorem Strategy.unplaced_coercing (v : Value) (k : Kind) : Unplaced (coercing.convert v k) := by
  change Unplaced (Coercing.convert v k)
  rw [Coercing.convert.eq_def]
  split
  · trivial
  · cases k with
    | null => trivial
    | integer => exact Coercing.unplaced_toInteger v
    | long => exact (Coercing.unplaced_toLong v _).map _
    | float => exact (Coercing.unplaced_toDouble v _).map _
    | double => exact (Coercing.unplaced_toDouble v _).map _
    | boolean => exact (Coercing.unplaced_toBoolean v).map _
    | string => exact Coercing.unplaced_toText v
    | dateTime => exact Coercing.unplaced_toMoment v
    | timeSpan => exact Coercing.unplaced_toSpan v
    | object => exact Coercing.unplaced_toObject v
    | array => rfl

theorem LogicRule.unplaced_apply (r : LogicRule) (a b : Value) : Unplaced (r.apply a b) := by
  rw [LogicRule.apply.eq_def]
  split <;> trivial

theorem NumericRule.unplaced_apply (r : NumericRule) (a b : Value) :
    Unplaced (r.apply a b) := by
  rw [NumericRule.apply.eq_def]
  split
  · dsimp only
    split
    · trivial
    · rfl
  · dsimp only
    split
    · trivial
    · rfl
  · trivial
  · trivial
  · rfl

namespace Strategy

theorem unplaced_applyNonzero (r : NumericRule) (a b : Value) :
    Unplaced (applyNonzero r a b) := by
  rw [applyNonzero]
  split
  · rfl
  · exact r.unplaced_apply a b

theorem unplaced_addPair (a b : Value) : Unplaced (addPair a b) := by
  rw [addPair.eq_def]
  split
  · trivial
  · exact NumericRule.unplaced_apply _ _ _

theorem unplaced_powerPair (a b : Value) : Unplaced (powerPair a b) := by
  rw [powerPair.eq_def]
  dsimp only
  split
  · split
    · split <;> trivial
    · split <;> trivial
  · split
    · split
      · split <;> trivial
      · trivial
    · split <;> trivial
  · trivial
  · split <;> trivial

theorem unplaced_shiftBy (side : ShiftSide) (a : Value) (amount : Int) :
    Unplaced (shiftBy side a amount) := by
  rw [shiftBy.eq_def]
  split
  · rfl
  · split
    · split <;> trivial
    · split <;> trivial
    · rfl

theorem unplaced_shiftPair (side : ShiftSide) (a b : Value) :
    Unplaced (shiftPair side a b) := by
  rw [shiftPair.eq_def]
  split
  · exact unplaced_shiftBy _ _ _
  · exact unplaced_shiftBy _ _ _
  · rfl

namespace Within

variable {s : Strategy} (hs : s.Within P)
include hs

theorem coercePair (mode : OperandMode) (a b : Value) : ErrorsIn P (s.coercePair mode a b) :=
  (hs.convert a _).bind fun _ => (hs.convert b _).bind fun _ => trivial

theorem toSpan (operation : Operation) (v : Value) : ErrorsIn P (s.toSpan operation v) := by
  rw [Strategy.toSpan.eq_def]
  split
  · trivial
  · split
    · trivial
    · exact hs.unplaced _ rfl
    · next he => exact (hs.convert _ _).of_eq_error he

theorem moveMoment (operation : Operation) (move : Time.Moment → Time.Span → Option Time.Moment)
    (m : Time.Moment) (v : Value) : ErrorsIn P (s.moveMoment operation move m v) := by
  rw [Strategy.moveMoment]
  split
  · next he => exact (hs.toSpan _ _).of_eq_error he
  · split
    · trivial
    · exact hs.unplaced _ rfl

theorem joinSpans (operation : Operation) (join : Time.Span → Time.Span → Option Time.Span)
    (a b : Value) : ErrorsIn P (s.joinSpans operation join a b) := by
  rw [Strategy.joinSpans]
  split
  · next he => exact (hs.toSpan _ _).of_eq_error he
  · split
    · next he => exact (hs.toSpan _ _).of_eq_error he
    · split
      · trivial
      · exact hs.unplaced _ rfl

theorem addTimes? {a b : Value} {r : Result} (h : s.addTimes? a b = some r) : ErrorsIn P r := by
  rw [Strategy.addTimes?.eq_def] at h
  split at h
  · split at h
    · cases h
      exact hs.moveMoment _ _ _ _
    · cases h
  · split at h
    · cases h
      exact hs.moveMoment _ _ _ _
    · cases h
  · split at h
    · cases h
      exact hs.joinSpans _ _ _ _
    · cases h
  · split at h
    · cases h
      exact hs.joinSpans _ _ _ _
    · cases h
  · cases h

theorem subtractTimes? {a b : Value} {r : Result} (h : s.subtractTimes? a b = some r) :
    ErrorsIn P r := by
  rw [Strategy.subtractTimes?.eq_def] at h
  split at h
  · cases h
    trivial
  · split at h
    · cases h
      exact hs.moveMoment _ _ _ _
    · cases h
  · split at h
    · cases h
      exact hs.joinSpans _ _ _ _
    · cases h
  · cases h

theorem arithmetic (mode : OperandMode) (a b : Value) {f : Value → Value → Result}
    (hf : ∀ x y, Unplaced (f x y)) : ErrorsIn P (s.arithmetic mode a b f) := by
  rw [Strategy.arithmetic]
  split
  · trivial
  · split
    · exact (hf _ _).mono hs.unplaced
    · next he => exact (hs.coercePair mode a b).of_eq_error he

theorem add (a b : Value) : ErrorsIn P (s.add a b) := by
  rw [Strategy.add]
  split
  · trivial
  · split
    · next h => exact hs.addTimes? h
    · exact hs.arithmetic _ _ _ unplaced_addPair

theorem sub (a b : Value) : ErrorsIn P (s.sub a b) := by
  rw [Strategy.sub]
  split
  · trivial
  · split
    · next h => exact hs.subtractTimes? h
    · exact hs.arithmetic _ _ _ (NumericRule.unplaced_apply _)

theorem negative (v : Value) : ErrorsIn P (s.negative v) := by
  rw [Strategy.negative.eq_def]
  split
  · trivial
  · split
    · trivial
    · exact hs.unplaced _ rfl
  · split
    · trivial
    · exact hs.unplaced _ rfl
  · trivial
  · trivial
  · trivial
  · split
    · trivial
    · exact hs.unplaced _ rfl
    · next he => exact (hs.convert _ _).of_eq_error he

theorem connect (r : LogicRule) (a b : Value) : ErrorsIn P (s.connect r a b) := by
  rw [Strategy.connect]
  split
  · trivial
  · dsimp only
    split
    · next he => exact (hs.convert _ _).of_eq_error he
    · split
      · next he => exact (hs.convert _ _).of_eq_error he
      · exact (r.unplaced_apply _ _).mono hs.unplaced

theorem not (v : Value) : ErrorsIn P (s.not v) := by
  rw [Strategy.not.eq_def]
  split
  · trivial
  · trivial
  · trivial
  · trivial
  · split
    · trivial
    · exact hs.unplaced _ rfl
    · next he => exact (hs.convert _ _).of_eq_error he

theorem ordering (operation : Operation) (accept : Ordering → Bool) (a b : Value) :
    ErrorsIn P (s.ordering operation accept a b) := by
  rw [Strategy.ordering]
  split
  · trivial
  · split
    · next he => exact (hs.coercePair _ a b).of_eq_error he
    · split
      · trivial
      · exact hs.unplaced _ rfl

theorem equal (a b : Value) : ErrorsIn P (s.equal a b) := by
  rw [Strategy.equal]
  split
  · trivial
  · split
    · next he => exact (hs.coercePair _ a b).of_eq_error he
    · trivial

theorem like (v pattern : Value) : ErrorsIn P (s.like v pattern) := by
  rw [Strategy.like]
  split
  · trivial
  · split
    · next he => exact (hs.convert _ _).of_eq_error he
    · split
      · next he => exact (hs.convert _ _).of_eq_error he
      · split
        · split
          · trivial
          · exact hs.unplaced _ rfl
        · exact hs.unplaced _ rfl

theorem toIndex (index : Value) : ErrorsIn P (s.toIndex index) := by
  rw [Strategy.toIndex.eq_def]
  split
  · trivial
  · trivial
  · split
    · trivial
    · exact hs.unplaced _ rfl
    · next he => exact (hs.convert _ _).of_eq_error he

theorem element (collection index : Value) : ErrorsIn P (s.element collection index) := by
  rw [Strategy.element.eq_def]
  split
  · trivial
  · split
    · next he => exact (hs.toIndex index).of_eq_error he
    · dsimp only
      split
      · exact hs.unplaced _ rfl
      · split
        · split
          · trivial
          · exact hs.unplaced _ rfl
        · split
          · trivial
          · exact hs.unplaced _ rfl
        · exact hs.unplaced _ rfl

end Within

theorem unplaced_isIn (s : Strategy) (v collection : Value) : Unplaced (s.isIn v collection) := by
  rw [Strategy.isIn.eq_def]
  split <;> trivial

namespace Within

variable {s : Strategy} (hs : s.Within P)
include hs

theorem applyInfix (op : InfixOp) (a b : Value) : ErrorsIn P (s.applyInfix op a b) := by
  cases op with
  | plus => exact hs.add a b
  | minus => exact hs.sub a b
  | star => exact hs.arithmetic _ a b (NumericRule.unplaced_apply _)
  | slash => exact hs.arithmetic _ a b (unplaced_applyNonzero _)
  | percent => exact hs.arithmetic _ a b (unplaced_applyNonzero _)
  | power => exact hs.arithmetic _ a b unplaced_powerPair
  | shiftLeft => exact hs.arithmetic _ a b (unplaced_shiftPair _)
  | shiftRight => exact hs.arithmetic _ a b (unplaced_shiftPair _)
  | equal => exact hs.equal a b
  | notEqual => exact (hs.equal a b).map _
  | more => exact hs.ordering _ _ a b
  | less => exact hs.ordering _ _ a b
  | moreEqual => exact hs.ordering _ _ a b
  | lessEqual => exact hs.ordering _ _ a b
  | and => exact hs.connect _ a b
  | or => exact hs.connect _ a b
  | xor => exact hs.connect _ a b
  | isIn => exact (s.unplaced_isIn a b).mono hs.unplaced
  | notIn => exact ((s.unplaced_isIn a b).mono hs.unplaced).map _
  | like => exact hs.like a b
  | notLike => exact (hs.like a b).map _

theorem applyPrefix (op : PrefixOp) (v : Value) : ErrorsIn P (s.applyPrefix op v) := by
  cases op with
  | negate => exact hs.negative v
  | not => exact hs.not v

end Within

theorem isInternal_of_unplaced (e : EvalError) (he : e.position? = none) :
    e.isInternal = false := by
  cases e with
  | internal fault position => cases he
  | _ => rfl

theorem external_of_unplaced {s : Strategy} (h : ∀ v k, Unplaced (s.convert v k)) : s.External :=
  fun v k => notInternal_iff.mpr ((h v k).mono isInternal_of_unplaced)

theorem external_strict : strict.External := external_of_unplaced unplaced_strict

theorem external_coercing : coercing.External := external_of_unplaced unplaced_coercing

namespace External

variable {s : Strategy} (hs : s.External)
include hs

theorem within : s.Within fun e => e.isInternal = false where
  convert v k := notInternal_iff.mp (hs v k)
  unplaced := isInternal_of_unplaced

theorem applyInfix (op : InfixOp) (a b : Value) : NotInternal (s.applyInfix op a b) :=
  notInternal_iff.mpr (hs.within.applyInfix op a b)

theorem applyPrefix (op : PrefixOp) (v : Value) : NotInternal (s.applyPrefix op v) :=
  notInternal_iff.mpr (hs.within.applyPrefix op v)

theorem element (collection index : Value) : NotInternal (s.element collection index) :=
  notInternal_iff.mpr (hs.within.element collection index)

end External

end Strategy

namespace Environment

theorem notInternal_call (env : Environment) (f : Function) (name : String) (args : List Value)
    (p : Text.Position) : NotInternal (env.call f name args p) := by
  rw [call]
  split <;> trivial

end Environment

end Formula
