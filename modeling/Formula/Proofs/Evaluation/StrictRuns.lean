import Formula.Evaluation.Calculator
import Formula.Proofs.Functions.Strictness

/-!
# Evaluation under a stricter strategy

A program that is evaluated without an error under a stricter strategy has the same value under
the other one. Membership is left out, and so are calls that depend on the time or on chance. In
particular the strict strategy is a restriction of the coercing one.
-/

namespace Formula

/-- The step is no test for membership, and no call that depends on the surroundings. -/
def Instr.KeepsValue : Instr → Prop
  | .call name count => Functions.Reproducible name count
  | .apply op => op ≠ .infixOp .isIn ∧ op ≠ .infixOp .notIn
  | _ => True

instance : DecidablePred Instr.KeepsValue
  | .push _ => inferInstanceAs (Decidable True)
  | .load _ => inferInstanceAs (Decidable True)
  | .call _ _ => inferInstanceAs (Decidable (Functions.Reproducible _ _))
  | .apply _ => inferInstanceAs (Decidable (_ ∧ _))

theorem ValueStack.length_of_popMany? {stack rest : ValueStack} {n : Nat} {args : List Value}
    (h : stack.popMany? n = some (args, rest)) : args.length = n := by
  unfold popMany? at h
  split at h
  · next hn =>
    cases h
    rw [List.length_reverse, List.length_take, Nat.min_eq_left hn]
  · cases h

namespace Keeps

open Environment

variable {r r' : Result}

theorem pushResult (h : Keeps r r') (stack : ValueStack) :
    Keeps (pushResult stack r) (pushResult stack r') := by
  unfold Environment.pushResult
  exact h.elim (fun e _ => .error e _) fun v => .refl _

theorem applyUnary {f f' : Value → Result} (hf : ∀ v, Keeps (f v) (f' v)) (op : Operator)
    (p : Text.Position) (stack : ValueStack) :
    Keeps (Environment.unary f op p stack) (Environment.unary f' op p stack) := by
  unfold Environment.unary
  split
  · exact (hf _).pushResult _
  · exact .refl _

theorem applyBinary {f f' : Value → Value → Result} (hf : ∀ a b, Keeps (f a b) (f' a b))
    (op : Operator) (p : Text.Position) (stack : ValueStack) :
    Keeps (binary f op p stack) (binary f' op p stack) := by
  unfold binary
  split
  · split
    · exact (hf _ _).pushResult _
    · exact .refl _
  · exact .refl _

end Keeps

namespace Environment

/-- Both environments have the same variables, and the strategy of the first one is stricter,
for the operators and for the functions. -/
structure Stricter (env env' : Environment) : Prop where
  valueOf_eq : env'.valueOf = env.valueOf
  strategy : env.strategy.Stricter env'.strategy
  functions (name : String) : Option.Rel
    (fun f f' => ∀ args, Functions.Reproducible name args.length →
      Keeps (f.apply env.strategy args) (f'.apply env'.strategy args))
    (env.functions name) (env'.functions name)

namespace Stricter

variable {env env' : Environment} (h : env.Stricter env')
include h

theorem applyOperator {op : Operator} (hin : op ≠ .infixOp .isIn) (hnot : op ≠ .infixOp .notIn)
    (p : Text.Position) (stack : ValueStack) :
    Keeps (env.applyOperator op p stack) (env'.applyOperator op p stack) := by
  cases op with
  | infixOp o =>
    have hin' : o ≠ .isIn := fun ho => hin (ho ▸ rfl)
    have hnot' : o ≠ .notIn := fun ho => hnot (ho ▸ rfl)
    exact .applyBinary (h.strategy.applyInfix hin' hnot') _ p stack
  | element => exact .applyBinary h.strategy.element _ p stack
  | prefixOp o => exact .applyUnary (h.strategy.applyPrefix o) _ p stack
  | suffixOp o => exact .refl _

theorem call {name : String} {n : Nat} (hcall : Functions.Reproducible name n)
    (p : Text.Position) (stack : ValueStack) :
    Keeps (env.step stack ⟨.call name n, p⟩) (env'.step stack ⟨.call name n, p⟩) := by
  unfold step
  dsimp only
  have hfunctions := h.functions name
  generalize env.functions name = f at hfunctions ⊢
  generalize env'.functions name = f' at hfunctions ⊢
  cases hfunctions with
  | none => exact .error _ _
  | some hf =>
    dsimp only
    split
    · exact .error _ _
    · next args rest hargs =>
      rw [← ValueStack.length_of_popMany? hargs] at hcall
      refine Keeps.pushResult ?_ rest
      unfold Environment.call
      exact (hf args hcall).elim (fun e _ => .error _ _) fun v => .refl _

theorem step {i : Located Instr} (hi : i.value.KeepsValue) (stack : ValueStack) :
    Keeps (env.step stack i) (env'.step stack i) := by
  rcases i with ⟨instr, p⟩
  cases instr with
  | push v => exact .refl _
  | load name =>
    unfold Environment.step load
    rw [h.valueOf_eq]
    exact .refl _
  | call name n => exact h.call hi p stack
  | apply op => exact h.applyOperator hi.1 hi.2 p stack

theorem run {program : Program} (hprogram : ∀ i ∈ program, i.value.KeepsValue)
    (stack : ValueStack) : Keeps (env.run stack program) (env'.run stack program) := by
  induction program generalizing stack with
  | nil => exact .refl _
  | cons i steps ih =>
    unfold Environment.run
    have hsteps : ∀ j ∈ steps, j.value.KeepsValue := fun j hj => hprogram j (.tail _ hj)
    exact (h.step (hprogram i (.head _)) stack).elim (fun e _ => .error e _) (ih hsteps)

theorem evaluate {program : Program} (hprogram : ∀ i ∈ program, i.value.KeepsValue) :
    Keeps (env.evaluate program) (env'.evaluate program) := by
  unfold Environment.evaluate
  split
  · exact .error _ _
  · exact (h.run hprogram {}).elim (fun e _ => .error e _) fun stack => .refl _

end Stricter

theorem stricter_library (valueOf : String → Option Value) (around around' : Surroundings) :
    Stricter ⟨valueOf, (Functions.library around).find?, .strict⟩
      ⟨valueOf, (Functions.library around').find?, .coercing⟩ := by
  have hstrict := Strategy.strict_stricter_coercing
  refine ⟨rfl, hstrict, fun name => ?_⟩
  dsimp only
  exact Functions.find?_library hstrict around around' name

end Environment

namespace Calculator

/-- What the strict strategy computes the coercing one computes too: every operator but
membership on all operands, and every formula without membership and without calls that depend
on the time or on chance. -/
theorem evaluateWith_strict_keeps :
    (∀ op, op ≠ .isIn → op ≠ .notIn → ∀ a b,
      Keeps (Strategy.strict.applyInfix op a b) (Strategy.coercing.applyInfix op a b)) ∧
    (∀ op v, Keeps (Strategy.strict.applyPrefix op v) (Strategy.coercing.applyPrefix op v)) ∧
    (∀ a b, Keeps (Strategy.strict.element a b) (Strategy.coercing.element a b)) ∧
    ∀ (c : Calculator) (vs : Variables) (around around' : Surroundings),
      (∀ i ∈ c.parsed.program, i.value.KeepsValue) →
      Keeps ({ c with strategy := .strict }.evaluateWith vs (Functions.library around))
        ({ c with strategy := .coercing }.evaluateWith vs (Functions.library around')) := by
  have hstrict := Strategy.strict_stricter_coercing
  refine ⟨fun op hin hnot => hstrict.applyInfix hin hnot, hstrict.applyPrefix, hstrict.element, ?_⟩
  intro c vs around around' hprogram
  exact (Environment.stricter_library vs.value? around around').evaluate hprogram

theorem eq_ok_of_asLong? {r : Result} {n : Int64}
    (h : r.toOption.bind Value.asLong? = some n) : r = .ok (.long n) := by
  rcases r with e | v
  · cases h
  · cases v with
    | long m => rw [show m = n from Option.some.inj h]
    | _ => cases h

/-- `Ticks(d) + 1` at two different moments. -/
theorem evaluateWith_strict_keeps_ticks :
    let c : Calculator :=
      { parsed := { program := [⟨.load "d", ⟨1, 7⟩⟩, ⟨.call "Ticks" 1, ⟨1, 1⟩⟩,
          ⟨.push (.long 1), ⟨1, 12⟩⟩, ⟨.apply (.infixOp .plus), ⟨1, 10⟩⟩] }
        functions := {} }
    let start : Time.Moment := ⟨0, 0, by decide, by decide, by decide⟩
    let later : Time.Moment := ⟨1, 0, by decide, by decide, by decide⟩
    let vs : Variables := ⟨[⟨"d", .dateTime later⟩]⟩
    (∀ i ∈ c.parsed.program, i.value.KeepsValue) ∧
    { c with strategy := .strict }.evaluateWith vs (Functions.library ⟨start, 0⟩) =
      .ok (.long 1001) ∧
    { c with strategy := .coercing }.evaluateWith vs (Functions.library ⟨later, 1⟩) =
      .ok (.long 1001) := by
  intro c start later vs
  have hprogram : ∀ i ∈ c.parsed.program, i.value.KeepsValue := by
    decide +kernel
  have hstrict : { c with strategy := .strict }.evaluateWith vs (Functions.library ⟨start, 0⟩) =
      .ok (.long 1001) := by
    rw [Functions.library_eq]
    exact eq_ok_of_asLong? (by decide +kernel)
  obtain ⟨-, -, -, hkeeps⟩ := evaluateWith_strict_keeps
  exact ⟨hprogram, hstrict, hkeeps c vs ⟨start, 0⟩ ⟨later, 1⟩ hprogram _ hstrict⟩

end Calculator

end Formula
