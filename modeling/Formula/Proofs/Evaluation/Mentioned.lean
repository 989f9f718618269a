import Formula.Evaluation.Calculator
import Formula.Proofs.Evaluation.Substitution
import Formula.Proofs.Expression.Names
import Formula.Proofs.Registry

/-!
# Variables that a formula mentions

The names of an accepted formula cover every variable that its program loads, up to case, and a
registry finds the same variable under every spelling. So what the other variables are, or whether
they are there at all, makes no difference to the outcome.
-/

namespace Formula

open Text

namespace Environment

variable {env env' : Environment}

/-- The environments differ in nothing but variables, and not in those that the program loads. -/
structure AgreesOn (program : Program) (env env' : Environment) : Prop where
  valueOf : ∀ name ∈ program.loads, env.valueOf name = env'.valueOf name
  functions : env.functions = env'.functions
  strategy : env.strategy = env'.strategy

theorem AgreesOn.tail {i : Located Instr} {steps : Program}
    (h : AgreesOn (i :: steps) env env') : AgreesOn steps env env' where
  valueOf name hname := h.valueOf name (Program.loads_cons i steps ▸ List.mem_append_right _ hname)
  functions := h.functions
  strategy := h.strategy

theorem step_congr {i : Located Instr} {steps : Program}
    (h : AgreesOn (i :: steps) env env') (stack : ValueStack) :
    env.step stack i = env'.step stack i := by
  obtain ⟨instr, p⟩ := i
  cases instr with
  | push v => rfl
  | load name =>
    have hname : env.valueOf name = env'.valueOf name :=
      h.valueOf name (by rw [Program.loads_cons]; exact List.mem_cons_self)
    simp only [step, load, hname]
  | call name n => simp only [step, call, h.functions, h.strategy]
  | apply op => simp only [step, applyOperator, h.strategy]

theorem run_congr {program : Program} (h : AgreesOn program env env') (stack : ValueStack) :
    env.run stack program = env'.run stack program := by
  induction program generalizing stack with
  | nil => rfl
  | cons i steps ih =>
    rw [run, run, step_congr h stack]
    cases env'.step stack i with
    | ok next => exact ih h.tail next
    | error e => rfl

theorem evaluate_congr {program : Program} (h : AgreesOn program env env') :
    env.evaluate program = env'.evaluate program := by
  rw [evaluate, evaluate, run_congr h]

end Environment

theorem Variables.value?_of_same (vs : Variables) {a b : String} (h : AsciiCase.Same a b) :
    vs.value? a = vs.value? b :=
  congrArg (Option.map Variable.value) (Named.find?_congr h)

namespace Parsed.Accepted

variable {p : Parsed}

theorem loads_program (h : p.Accepted) : p.program.loads = Row.names p.items := by
  obtain ⟨⟨tokens, hreads⟩, hprogram⟩ := h.reads
  obtain ⟨hitems, hnil⟩ | ⟨e, -, hitems, hprogram⟩ :=
    Program.exists_tree_of_ofItems hreads.callsOpen hprogram
  · rw [hitems, hnil]
    rfl
  · rw [← hitems, ← hprogram]
    exact e.loads_program

/-- Every variable that the program loads has a name among those of the formula. -/
theorem exists_mem_variableNames (h : p.Accepted) {name : String} (hname : name ∈ p.program.loads) :
    ∃ known ∈ p.variableNames, AsciiCase.Same known name := by
  rw [h.variableNames_eq]
  rw [h.loads_program] at hname
  exact Item.exists_mem_variableNames hname

end Parsed.Accepted

namespace Calculator

/-- Variables that agree on the names of the formula give it the same value or error. -/
theorem evaluateWith_congr (c : Calculator) (h : c.parsed.Accepted) (functions : Functions)
    (vs ws : Variables)
    (hagree : ∀ name ∈ c.parsed.variableNames, vs.value? name = ws.value? name) :
    c.evaluateWith vs functions = c.evaluateWith ws functions := by
  have hagrees : Environment.AgreesOn c.parsed.program
      ⟨vs.value?, functions.find?, c.strategy⟩ ⟨ws.value?, functions.find?, c.strategy⟩ := by
    refine ⟨fun name hname => ?_, rfl, rfl⟩
    obtain ⟨known, hmem, hsame⟩ := h.exists_mem_variableNames hname
    calc vs.value? name = vs.value? known := vs.value?_of_same hsame.symm
      _ = ws.value? known := hagree known hmem
      _ = ws.value? name := ws.value?_of_same hsame
  exact Environment.evaluate_congr hagrees

/-- For `x + Z` it matters neither how `x` is spelled nor that there is a `y`, and that there is
no `z` is the same error. -/
theorem evaluateWith_congr_sum :
    let tokens : List Token := [⟨.word, "x", ⟨1, 1⟩⟩, ⟨.symbol, "+", ⟨1, 3⟩⟩, ⟨.word, "Z", ⟨1, 5⟩⟩]
    let vs : Variables := ⟨[⟨"X", .integer 1⟩]⟩
    let ws : Variables := ⟨[⟨"y", .integer 5⟩, ⟨"x", .integer 1⟩]⟩
    ∃ p, Parsed.ofTokens tokens = .ok p ∧ p.Accepted ∧
      (∀ name ∈ p.variableNames, vs.value? name = ws.value? name) ∧
      evaluateWith { parsed := p, functions := {} } vs {} =
        evaluateWith { parsed := p, functions := {} } ws {} := by
  intro tokens vs ws
  let e : Expr := .infixOp (.variable "x" ⟨1, 1⟩) .plus ⟨1, 3⟩ (.variable "Z" ⟨1, 5⟩)
  have hreads : Reads none none tokens e.items :=
    .item rfl (fun h => absurd rfl h) <| .item rfl (fun h => absurd rfl h) <|
    .item rfl (fun h => absurd rfl h) <| .done _
  have hp := Parsed.ofTokensNamed_eq_ok hreads rfl (Parsed.compose tokens)
  have haccepted : Parsed.Accepted _ := .inr ⟨tokens, hp⟩
  have hagree : ∀ name ∈ Item.variableNames e.items, vs.value? name = ws.value? name := by
    change ∀ name ∈ ["x", "Z"], _
    exact List.forall_mem_cons.mpr ⟨rfl, List.forall_mem_singleton.mpr rfl⟩
  exact ⟨_, hp, haccepted, hagree,
    evaluateWith_congr { parsed := _, functions := {} } haccepted {} vs ws hagree⟩

end Calculator

end Formula
