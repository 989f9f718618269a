import Formula.Proofs.Evaluation.Histories
import Formula.Proofs.Expression.CaseOfItems

/-!
# Formulas in any case

Names are looked up in whatever case they are spelled, so a program under names made small gives the
same value, or the same error up to the case of the name in it. Formulas that differ in the case of
letters outside strings differ in nothing else.
-/

namespace Formula

open Text

/-- The error with its name made small. What a function failed with stays as it is. -/
def EvalError.folded : EvalError → EvalError
  | .variableNotFound name p => .variableNotFound (AsciiCase.folded name) p
  | .functionNotFound name p => .functionNotFound (AsciiCase.folded name) p
  | .functionFailed name p cause => .functionFailed (AsciiCase.folded name) p cause
  | .internal (.missingArguments name count) p =>
    .internal (.missingArguments (AsciiCase.folded name) count) p
  | e => e

/-- Outcomes whose errors `f` makes the same are the same value, or errors that `f` makes the same. -/
theorem ok_or_error_of_mapError_eq {ε ε' α : Type} {f : ε → ε'} {r s : Except ε α}
    (h : r.mapError f = s.mapError f) :
    (∃ x, r = .ok x ∧ s = .ok x) ∨ ∃ e e', r = .error e ∧ s = .error e' ∧ f e = f e' := by
  cases r with
  | ok x =>
    cases s with
    | ok y => exact .inl ⟨x, rfl, congrArg Except.ok (Except.ok.inj h).symm⟩
    | error e' => cases h
  | error e =>
    cases s with
    | ok y => cases h
    | error e' => exact .inr ⟨e, e', rfl, rfl, Except.error.inj h⟩

namespace Environment

/-- Names are found in any case. -/
structure Caseless (env : Environment) : Prop where
  valueOf {a b : String} (h : AsciiCase.Same a b) : env.valueOf a = env.valueOf b
  functions {a b : String} (h : AsciiCase.Same a b) : env.functions a = env.functions b

theorem caseless_registries (vs : Variables) (functions : Functions) (s : Strategy) :
    Caseless ⟨vs.value?, functions.find?, s⟩ where
  valueOf := vs.value?_of_same
  functions := Named.find?_congr

variable {env : Environment} (henv : env.Caseless)
include henv

theorem step_folded (stack : ValueStack) (i : Located Instr) :
    (env.step stack (i.map (Instr.rename AsciiCase.folded))).mapError EvalError.folded =
      (env.step stack i).mapError EvalError.folded := by
  obtain ⟨instr, p⟩ := i
  cases instr with
  | push v => rfl
  | load name =>
    have hname := henv.valueOf (AsciiCase.same_folded name)
    simp only [step, Located.map, Instr.rename, load, hname]
    cases env.valueOf name with
    | none => simp only [pushResult, Except.mapError, EvalError.folded, AsciiCase.folded_folded]
    | some v => rfl
  | call name n =>
    have hname := henv.functions (AsciiCase.same_folded name)
    simp only [step, Located.map, Instr.rename, hname]
    cases env.functions name with
    | none => simp only [Except.mapError, EvalError.folded, AsciiCase.folded_folded]
    | some f =>
      dsimp only
      cases stack.popMany? n with
      | none => simp only [Except.mapError, EvalError.folded, AsciiCase.folded_folded]
      | some popped =>
        obtain ⟨args, below⟩ := popped
        simp only [call]
        cases f.apply env.strategy args with
        | ok v => rfl
        | error e =>
          simp only [pushResult, Except.mapError, EvalError.folded, AsciiCase.folded_folded]
  | apply op => rfl

theorem run_folded (stack : ValueStack) (program : Program) :
    (env.run stack (program.rename AsciiCase.folded)).mapError EvalError.folded =
      (env.run stack program).mapError EvalError.folded := by
  induction program generalizing stack with
  | nil => rfl
  | cons i steps ih =>
    rw [Program.rename_cons, run, run]
    obtain ⟨next, hfolded, hi⟩ | ⟨e, e', hfolded, hi, he⟩ :=
      ok_or_error_of_mapError_eq (step_folded henv stack i)
    · rw [hfolded, hi]
      exact ih next
    · rw [hfolded, hi]
      exact congrArg Except.error he

theorem evaluate_folded (program : Program) :
    (env.evaluate (program.rename AsciiCase.folded)).mapError EvalError.folded =
      (env.evaluate program).mapError EvalError.folded := by
  rw [evaluate, evaluate, Program.rename, List.getLast?_map, ← Program.rename]
  cases program.getLast? with
  | none => rfl
  | some last =>
    dsimp only [Option.map_some]
    obtain ⟨stack, hfolded, hrun⟩ | ⟨e, e', hfolded, hrun, he⟩ :=
      ok_or_error_of_mapError_eq (run_folded henv {} program)
    · rw [hfolded, hrun]
      rfl
    · rw [hfolded, hrun]
      exact congrArg Except.error he

end Environment

namespace Calculator

/-- Two texts that differ in the case of letters only, and in no string, are refused alike or make
formulas that are the same with all that may be written in any case made small; and these formulas
give the same value, or the same error up to the case of the name in it. -/
theorem setText_ignores_case (c : Calculator) {a b : String} (hcase : AsciiCase.Same a b)
    (hstrings : Lexicon.AgreesInStrings a.toList b.toList) :
    (c.setText a).2 = (c.setText b).2 ∧
    (c.setText a).1.parsed.folded = (c.setText b).1.parsed.folded ∧
    ∀ vs functions, ((c.setText a).1.evaluateWith vs functions).mapError EvalError.folded =
      ((c.setText b).1.evaluateWith vs functions).mapError EvalError.folded := by
  obtain ⟨hparsed, hfault⟩ := Parsed.setText_folded hcase hstrings c.parsed
  obtain ⟨as, ha⟩ := c.exists_take_eq (c.parsed.setText a)
  obtain ⟨bs, hb⟩ := c.exists_take_eq (c.parsed.setText b)
  rw [setText, setText, ha, hb]
  refine ⟨hfault, hparsed, fun vs functions => ?_⟩
  have henv := Environment.caseless_registries vs functions c.strategy
  have hprogram : (c.parsed.setText a).1.program.rename AsciiCase.folded =
      (c.parsed.setText b).1.program.rename AsciiCase.folded := congrArg Parsed.program hparsed
  rw [evaluateWith, evaluateWith, ← Environment.evaluate_folded henv, hprogram,
    Environment.evaluate_folded henv]

/-- Both texts are formulas, with a name, a number, an operator in letters and a string. -/
theorem setText_ignores_case_like :
    (({} : Parsed).setText "Ab * 1E2 LIKE 'Cd'").2 = none ∧
      AsciiCase.Same "Ab * 1E2 LIKE 'Cd'" "aB * 1e2 lIkE 'Cd'" ∧
      Lexicon.AgreesInStrings "Ab * 1E2 LIKE 'Cd'".toList "aB * 1e2 lIkE 'Cd'".toList ∧
      let c : Calculator := { functions := {} }
      (c.setText "Ab * 1E2 LIKE 'Cd'").2 = (c.setText "aB * 1e2 lIkE 'Cd'").2 ∧
      (c.setText "Ab * 1E2 LIKE 'Cd'").1.parsed.folded =
        (c.setText "aB * 1e2 lIkE 'Cd'").1.parsed.folded ∧
      ∀ vs functions,
        ((c.setText "Ab * 1E2 LIKE 'Cd'").1.evaluateWith vs functions).mapError EvalError.folded =
          ((c.setText "aB * 1e2 lIkE 'Cd'").1.evaluateWith vs functions).mapError
            EvalError.folded := by
  have haccepted : (({} : Parsed).setText "Ab * 1E2 LIKE 'Cd'").2 = none := by
    rw [Parsed.setText, Parsed.tokensOf, Lexicon.formulas_eq_ofRanges]
    decide +kernel
  have hcase : AsciiCase.Same "Ab * 1E2 LIKE 'Cd'" "aB * 1e2 lIkE 'Cd'" := by decide
  have hstrings : Lexicon.AgreesInStrings "Ab * 1E2 LIKE 'Cd'".toList
      "aB * 1e2 lIkE 'Cd'".toList := .of_drop_eq 14 (by decide) (by decide)
  exact ⟨haccepted, hcase, hstrings, setText_ignores_case { functions := {} } hcase hstrings⟩

end Calculator

/-- The same tokens but for the case of names and of reserved words. -/
def Token.AlikeInNames (t u : Token) : Prop :=
  t.kind = u.kind ∧ t.position = u.position ∧
    (t.text = u.text ∨ (t.kind = .word ∨ t.kind = .keyword) ∧ AsciiCase.Same t.text u.text)

/-- The token of a number keeps the exponent mark as it was written. -/
theorem Parsed.setText_keeps_exponent_mark :
    AsciiCase.Same "1e5" "1E5" ∧ Lexicon.AgreesInStrings "1e5".toList "1E5".toList ∧
      (({} : Parsed).setText "1e5").2 = none ∧ (({} : Parsed).setText "1E5").2 = none ∧
      ¬ List.Forall₂ Token.AlikeInNames
        (({} : Parsed).setText "1e5").1.tokens (({} : Parsed).setText "1E5").1.tokens := by
  have hsmall : (({} : Parsed).setText "1e5").2 = none ∧
      (({} : Parsed).setText "1e5").1.tokens = [⟨.float, "1e5", ⟨1, 1⟩⟩] := by
    rw [setText, tokensOf, Lexicon.formulas_eq_ofRanges]
    decide +kernel
  have hcapital : (({} : Parsed).setText "1E5").2 = none ∧
      (({} : Parsed).setText "1E5").1.tokens = [⟨.float, "1E5", ⟨1, 1⟩⟩] := by
    rw [setText, tokensOf, Lexicon.formulas_eq_ofRanges]
    decide +kernel
  refine ⟨by decide, .of_drop_eq 3 (by decide) (by decide), hsmall.1, hcapital.1, ?_⟩
  rw [hsmall.2, hcapital.2]
  rintro (_ | ⟨⟨-, -, halike⟩, -⟩)
  revert halike
  decide

end Formula
