import Formula.Proofs.Evaluation.Faults
import Formula.Proofs.Evaluation.Trees
import Formula.Proofs.Expression.TokenRows

/-!
# Evaluating accepted formulas

The program of an accepted formula is the program of its grouped tree, so running it is
evaluating the tree. It never takes from an empty stack and leaves one value, and no internal
error can come up.
-/

namespace Formula

theorem Environment.notInternal_invoke (env : Environment) (name : String) (args : List Value)
    (p : Text.Position) : NotInternal (env.invoke name args p) := by
  rw [invoke]
  split
  · rfl
  · exact env.notInternal_call _ _ _ _

mutual

/-- A tree has no internal errors: those of a function stand inside an error of the call. -/
theorem Expr.notInternal_eval {env : Environment} (hs : env.strategy.External) (e : Expr) :
    NotInternal (e.eval env) := by
  match e with
  | .constant v p => trivial
  | .variable name p =>
    rw [Expr.eval, Environment.load]
    split <;> trivial
  | .callEmpty name p opened closed => exact env.notInternal_invoke name [] p
  | .call name p opened args closed =>
    exact (args.notInternal_eval hs).bind fun vs => env.notInternal_invoke name vs p
  | .group opened e closed => exact e.notInternal_eval hs
  | .prefixOp op p e => exact (e.notInternal_eval hs).bind (hs.applyPrefix op)
  | .suffixOp e op p =>
    refine (e.notInternal_eval hs).bind fun v => ?_
    cases op <;> trivial
  | .infixOp left op p right =>
    exact (left.notInternal_eval hs).bind fun a =>
      (right.notInternal_eval hs).bind (hs.applyInfix op a)
  | .element collection opened index closed =>
    exact (collection.notInternal_eval hs).bind fun a =>
      (index.notInternal_eval hs).bind (hs.element a)

theorem Args.notInternal_eval {env : Environment} (hs : env.strategy.External) (args : Args) :
    NotInternal (args.eval env) := by
  match args with
  | .one e => exact (e.notInternal_eval hs).bind fun v => trivial
  | .more before comma e =>
    exact (before.notInternal_eval hs).bind fun vs =>
      (e.notInternal_eval hs).bind fun v => trivial

end

namespace Parsed.Accepted

variable {p : Parsed}

/-- The program of an accepted formula is the one of each grouped tree of its items. -/
theorem program_eq (h : p.Accepted) {e : Expr} (he : e.Grouped) (hitems : e.items = p.items) :
    p.program = e.program := by
  obtain ⟨⟨tokens, hreads⟩, hprogram⟩ := h.reads
  have htree := Program.ofItems_items he (hitems ▸ hreads.callsOpen)
  rw [hitems, hprogram] at htree
  exact Except.ok.inj htree

theorem notInternal_evaluate (h : p.Accepted) {env : Environment}
    (hs : env.strategy.External) : NotInternal (env.evaluate p.program) := by
  by_cases hne : p.program = []
  · rw [hne]
    rfl
  · obtain ⟨e, -, -, hprogram⟩ := h.exists_tree hne
    rw [← hprogram, env.evaluate_program]
    exact e.notInternal_eval hs

/-- An accepted formula is evaluated without internal errors. If it is not empty it has a
tree, and its value or first error and the calls made on the way are those of the tree; a run
without an error leaves exactly the value of the tree. -/
theorem evaluate_eq_eval (h : p.Accepted) (env : Environment) (hs : env.strategy.External) :
    NotInternal (env.evaluate p.program) ∧
      (p.program ≠ [] → ∃ e : Expr, e.Grouped ∧ e.items = p.items) ∧
      ∀ e : Expr, e.Grouped → e.items = p.items →
        env.evaluate p.program = e.eval env ∧
        (∀ stack, env.run {} p.program = .ok stack →
          ∃ v, e.eval env = .ok v ∧ stack.values = [v]) ∧
        env.calls {} p.program = e.calls env := by
  refine ⟨h.notInternal_evaluate hs, ?_, ?_⟩
  · intro hne
    obtain ⟨e, he, hitems, -⟩ := h.exists_tree hne
    exact ⟨e, he, hitems⟩
  · intro e he hitems
    rw [h.program_eq he hitems]
    refine ⟨env.evaluate_program e, ?_, env.calls_program e {}⟩
    intro stack hrun
    rw [env.run_program e {}] at hrun
    cases hv : e.eval env with
    | error err =>
      rw [hv] at hrun
      cases hrun
    | ok v =>
      rw [hv] at hrun
      cases hrun
      exact ⟨v, rfl, rfl⟩

/-- In `f(x, 2) - 1` the function is called once, with its two arguments. -/
theorem evaluate_call_minus :
    let tokens : List Token := [⟨.word, "f", ⟨1, 1⟩⟩, ⟨.symbol, "(", ⟨1, 2⟩⟩,
      ⟨.word, "x", ⟨1, 3⟩⟩, ⟨.symbol, ",", ⟨1, 4⟩⟩, ⟨.integer, "2", ⟨1, 6⟩⟩,
      ⟨.symbol, ")", ⟨1, 7⟩⟩, ⟨.symbol, "-", ⟨1, 9⟩⟩, ⟨.integer, "1", ⟨1, 11⟩⟩]
    let e : Expr := .infixOp (.call "f" ⟨1, 1⟩ ⟨1, 2⟩ (.more (.one (.variable "x" ⟨1, 3⟩)) ⟨1, 4⟩
      (.constant (.integer 2) ⟨1, 6⟩)) ⟨1, 7⟩) .minus ⟨1, 9⟩ (.constant (.integer 1) ⟨1, 11⟩)
    let p : Parsed := ⟨Parsed.compose tokens, tokens, e.items, e.program, ["x"]⟩
    let env : Environment := ⟨fun _ => some (.integer 5),
      fun _ => some ⟨"f", fun s args => s.add args[0]! args[1]!⟩, .strict⟩
    p.Accepted ∧ env.strategy.External ∧ env.evaluate p.program = e.eval env ∧
      env.calls {} p.program = [⟨"f", [.integer 5, .integer 2], ⟨1, 1⟩⟩] := by
  intro tokens e p env
  have hreads : Reads none none tokens e.items :=
    .item rfl (fun h => absurd rfl h) <| .item rfl (fun h => absurd rfl h) <|
    .item rfl (fun h => absurd rfl h) <| .item rfl (fun h => absurd rfl h) <|
    .item rfl (fun h => absurd rfl h) <| .item rfl (fun h => absurd rfl h) <|
    .item rfl (fun h => absurd rfl h) <| .item rfl (fun h => absurd rfl h) <| .done _
  have hp : p.Accepted := by
    refine .inr ⟨tokens, ?_⟩
    exact Parsed.ofTokensNamed_eq_ok hreads rfl _
  obtain ⟨-, -, h⟩ := hp.evaluate_eq_eval env Strategy.external_strict
  obtain ⟨hvalue, -, hcalls⟩ := h e (by decide) rfl
  exact ⟨hp, Strategy.external_strict, hvalue, hcalls.trans rfl⟩

end Parsed.Accepted

end Formula
