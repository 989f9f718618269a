import Formula.Proofs.Evaluation.Trees
import Formula.Proofs.Expression.TokenSubstitution
import Formula.Proofs.Registry

/-!
# Evaluating a formula put in the place of a variable

If a formula has a value, putting it in the place of a variable has the same effect as giving
the variable that value, down to the error that comes first.
-/

namespace Formula

open Text

/-- The variable `x`, in any ASCII case, has the value `v`. -/
def Environment.bind (env : Environment) (x : String) (v : Value) : Environment where
  valueOf name := if AsciiCase.Same name x then some v else env.valueOf name
  functions := env.functions
  strategy := env.strategy

theorem Environment.load_bind (env : Environment) (x name : String) (v : Value) (p : Position) :
    (env.bind x v).load name p =
      if AsciiCase.Same name x then .ok v else env.load name p := by
  by_cases h : AsciiCase.Same name x
  · have hv : (env.bind x v).valueOf name = some v := if_pos h
    rw [load, hv, if_pos h]
  · have hv : (env.bind x v).valueOf name = env.valueOf name := if_neg h
    rw [load, hv, if_neg h, load]

mutual

theorem Expr.eval_substitute {env : Environment} {r : Expr} {v : Value}
    (hr : r.eval env = .ok v) (x : String) (e : Expr) :
    (Expr.substitute x r e).eval env = e.eval (env.bind x v) := by
  match e with
  | .constant v p => rfl
  | .variable name p =>
    rw [Expr.substitute, Expr.eval, env.load_bind]
    split
    · exact hr
    · rfl
  | .callEmpty name p opened closed => rfl
  | .call name p opened args closed =>
    rw [Expr.substitute, Expr.eval, Expr.eval, Args.eval_substitute hr x args]
    rfl
  | .group opened e closed => exact Expr.eval_substitute hr x e
  | .prefixOp op p e =>
    rw [Expr.substitute, Expr.eval, Expr.eval, Expr.eval_substitute hr x e]
    rfl
  | .suffixOp e op p =>
    rw [Expr.substitute, Expr.eval, Expr.eval, Expr.eval_substitute hr x e]
  | .infixOp left op p right =>
    rw [Expr.substitute, Expr.eval, Expr.eval, Expr.eval_substitute hr x left,
      Expr.eval_substitute hr x right]
    rfl
  | .element collection opened index closed =>
    rw [Expr.substitute, Expr.eval, Expr.eval, Expr.eval_substitute hr x collection,
      Expr.eval_substitute hr x index]
    rfl

theorem Args.eval_substitute {env : Environment} {r : Expr} {v : Value}
    (hr : r.eval env = .ok v) (x : String) (args : Args) :
    (Args.substitute x r args).eval env = args.eval (env.bind x v) := by
  match args with
  | .one e => rw [Args.substitute, Args.eval, Args.eval, Expr.eval_substitute hr x e]
  | .more before comma e =>
    rw [Args.substitute, Args.eval, Args.eval, Args.eval_substitute hr x before,
      Expr.eval_substitute hr x e]

end

namespace Parsed

/-- Replacing a variable by an accepted formula in parentheses gives an accepted formula whose
program has the steps of the other one where the variable was loaded. If the other formula
has a value, the outcome is that of the first formula with the variable bound to this value. -/
theorem evaluate_substitute {tokens e : List Token} {p q : Parsed}
    (hp : ofTokens tokens = .ok p) (hq : ofTokens e = .ok q) (hne : q.program ≠ [])
    (x : String) (opened closed : Position) :
    ∃ r, ofTokens (Token.substitute x (Token.enclosed opened e closed) tokens) = .ok r ∧
      r.program = Program.substitute x q.program p.program ∧
      (∀ (env : Environment) (v : Value), env.evaluate q.program = .ok v →
        env.evaluate r.program = (env.bind x v).evaluate p.program) ∧
      ∀ (vs : Variables) (functions : String → Option Function) (strategy : Strategy) (v : Value),
        Environment.evaluate ⟨vs.value?, functions, strategy⟩ q.program = .ok v →
          Environment.evaluate ⟨vs.value?, functions, strategy⟩ r.program =
            Environment.evaluate ⟨(vs.set x v).value?, functions, strategy⟩ p.program := by
  obtain ⟨r, hr, g, hg, htrees⟩ := exists_substituted hp hq hne x opened closed
  have hevaluate : ∀ (env : Environment) (v : Value), env.evaluate q.program = .ok v →
      env.evaluate r.program = (env.bind x v).evaluate p.program := by
    intro env v hv
    obtain ⟨hnil, hnil'⟩ | ⟨f, hf, hfr⟩ := htrees
    · rw [hnil, hnil']
      rfl
    · rw [← hg, env.evaluate_program] at hv
      rw [← hfr, ← hf, env.evaluate_program, Environment.evaluate_program]
      exact Expr.eval_substitute (r := .group opened g closed) hv x f
  refine ⟨r, hr, ?_, hevaluate, ?_⟩
  · obtain ⟨hnil, hnil'⟩ | ⟨f, hf, hfr⟩ := htrees
    · rw [hnil, hnil']
      rfl
    · rw [← hfr, ← hf, ← hg]
      exact Expr.program_substitute x (.group opened g closed) f
  · intro vs functions strategy v hv
    rw [funext (vs.value?_set x v)]
    exact hevaluate _ v hv

/-- With `x + 1`, which is 2, in the place of `x`, the formula `-X ^ x` keeps its grouping. -/
theorem evaluate_substitute_sum :
    let tokens : List Token := [⟨.symbol, "-", ⟨1, 1⟩⟩, ⟨.word, "X", ⟨1, 2⟩⟩,
      ⟨.symbol, "^", ⟨1, 4⟩⟩, ⟨.word, "x", ⟨1, 6⟩⟩]
    let e : List Token := [⟨.word, "x", ⟨1, 1⟩⟩, ⟨.symbol, "+", ⟨1, 3⟩⟩, ⟨.integer, "1", ⟨1, 5⟩⟩]
    let env : Environment := ⟨fun _ => some (.integer 1), fun _ => none, .strict⟩
    ∃ p q r, ofTokens tokens = .ok p ∧ ofTokens e = .ok q ∧ q.program ≠ [] ∧
      env.evaluate q.program = .ok (.integer 2) ∧
      ofTokens (Token.substitute "x" (Token.enclosed ⟨1, 1⟩ e ⟨1, 6⟩) tokens) = .ok r ∧
      r.program = Program.substitute "x" q.program p.program ∧
      env.evaluate r.program = (env.bind "x" (.integer 2)).evaluate p.program := by
  intro tokens e env
  let f : Expr := .infixOp (.prefixOp .negate ⟨1, 1⟩ (.variable "X" ⟨1, 2⟩)) .power ⟨1, 4⟩
    (.variable "x" ⟨1, 6⟩)
  let g : Expr := .infixOp (.variable "x" ⟨1, 1⟩) .plus ⟨1, 3⟩ (.constant (.integer 1) ⟨1, 5⟩)
  have hf : Reads none none tokens f.items :=
    .item rfl (fun h => absurd rfl h) <| .item rfl (fun h => absurd rfl h) <|
    .item rfl (fun h => absurd rfl h) <| .item rfl (fun h => absurd rfl h) <| .done _
  have hg : Reads none none e g.items :=
    .item rfl (fun h => absurd rfl h) <| .item rfl (fun h => absurd rfl h) <|
    .item rfl (fun h => absurd rfl h) <| .done _
  have hfp : Program.ofItems f.items = .ok f.program := rfl
  have hgp : Program.ofItems g.items = .ok g.program := rfl
  have hp := ofTokensNamed_eq_ok hf hfp (compose tokens)
  have hq := ofTokensNamed_eq_ok hg hgp (compose e)
  have hvalue : env.evaluate g.program = .ok (.integer 2) := by
    rw [env.evaluate_program]
    rfl
  obtain ⟨r, hr, hprogram, hevaluate, -⟩ :=
    evaluate_substitute hp hq g.program_ne_nil "x" ⟨1, 1⟩ ⟨1, 6⟩
  exact ⟨_, _, r, hp, hq, g.program_ne_nil, hvalue, hr, hprogram, hevaluate env _ hvalue⟩

end Parsed

end Formula
