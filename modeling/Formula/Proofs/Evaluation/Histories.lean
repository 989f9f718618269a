import Formula.Proofs.Evaluation.Faults
import Formula.Proofs.Evaluation.Mentioned

/-!
# Histories of a calculator

A calculator that creates variables by itself has every variable that its formula loads, whatever
was done with it before: a formula that is read brings its missing variables along, as nulls, and
nothing else takes a variable away but what takes the formula away as well. So evaluation finds
all variables.
-/

namespace Formula

open Text

/-- The strategy gives the error for the conversion of some value. -/
def Strategy.Raises (s : Strategy) (e : EvalError) : Prop := ∃ v k, s.convert v k = .error e

theorem EvalError.code_ne_of_unplaced {e : EvalError} (he : e.position? = none) :
    e.code ≠ "VAR_NOT_FOUND" := by
  cases e with
  | variableNotFound name p => cases he
  | _ => simp [code]

/-- That a variable was not found is the word of the strategy, if it is said at all. -/
def Strategy.Misses (s : Strategy) (e : EvalError) : Prop := e.code = "VAR_NOT_FOUND" → s.Raises e

theorem Strategy.misses_of_code_ne {s : Strategy} {e : EvalError} (h : e.code ≠ "VAR_NOT_FOUND") :
    s.Misses e :=
  fun hcode => absurd hcode h

theorem Strategy.within_misses (s : Strategy) : s.Within s.Misses where
  convert v k := by
    cases h : s.convert v k with
    | ok w => trivial
    | error e => exact fun _ => ⟨v, k, h⟩
  unplaced e he := misses_of_code_ne (EvalError.code_ne_of_unplaced he)

theorem Strategy.Raises.unplaced {s : Strategy} {e : EvalError} (h : s.Raises e)
    (hs : ∀ v k, Unplaced (s.convert v k)) : e.position? = none := by
  obtain ⟨v, k, hconvert⟩ := h
  exact (hs v k).of_eq_error (β := Value) hconvert

namespace Environment

variable {env : Environment}

theorem errorsIn_pushResult {P : EvalError → Prop} {r : Result} (hr : ErrorsIn P r)
    (stack : ValueStack) : ErrorsIn P (pushResult stack r) := by
  cases r with
  | ok v => trivial
  | error e => exact hr

theorem misses_applyOperator (op : Operator) (p : Position) (stack : ValueStack) :
    ErrorsIn env.strategy.Misses (env.applyOperator op p stack) := by
  have hs := env.strategy.within_misses
  have hinternal : ∀ fault, env.strategy.Misses (.internal fault p) :=
    fun fault => Strategy.misses_of_code_ne (by simp [EvalError.code])
  have hunary : ∀ f : Value → Result, (∀ v, ErrorsIn env.strategy.Misses (f v)) →
      ErrorsIn env.strategy.Misses (unary f op p stack) := by
    intro f hf
    rw [unary]
    split
    · exact errorsIn_pushResult (hf _) _
    · exact hinternal _
  have hbinary : ∀ f : Value → Value → Result, (∀ a b, ErrorsIn env.strategy.Misses (f a b)) →
      ErrorsIn env.strategy.Misses (binary f op p stack) := by
    intro f hf
    rw [binary]
    split
    · split
      · exact errorsIn_pushResult (hf _ _) _
      · exact hinternal _
    · exact hinternal _
  cases op with
  | infixOp o => exact hbinary _ (hs.applyInfix o)
  | element => exact hbinary _ hs.element
  | prefixOp o => exact hunary _ (hs.applyPrefix o)
  | suffixOp o => exact hunary _ fun v => by cases o <;> trivial

theorem misses_step {i : Located Instr} {steps : Program}
    (h : ∀ name ∈ Program.loads (i :: steps), (env.valueOf name).isSome) (stack : ValueStack) :
    ErrorsIn env.strategy.Misses (env.step stack i) := by
  obtain ⟨instr, p⟩ := i
  cases instr with
  | push v => trivial
  | load name =>
    obtain ⟨v, hv⟩ := Option.isSome_iff_exists.mp
      (h name (by rw [Program.loads_cons]; exact List.mem_cons_self))
    simp only [step, load, hv]
    trivial
  | call name n =>
    rw [step]
    dsimp only
    split
    · exact Strategy.misses_of_code_ne (by simp [EvalError.code])
    · split
      · exact Strategy.misses_of_code_ne (by simp [EvalError.code])
      · refine errorsIn_pushResult ?_ _
        rw [call]
        split
        · trivial
        · exact Strategy.misses_of_code_ne (by simp [EvalError.code])
  | apply op => exact misses_applyOperator op p stack

theorem misses_run {program : Program}
    (h : ∀ name ∈ program.loads, (env.valueOf name).isSome) (stack : ValueStack) :
    ErrorsIn env.strategy.Misses (env.run stack program) := by
  induction program generalizing stack with
  | nil => trivial
  | cons i steps ih =>
    have hstep := misses_step h stack
    rw [run]
    cases hs : env.step stack i with
    | error e => exact hstep.of_eq_error hs
    | ok next =>
      refine ih (fun name hname => h name ?_) next
      rw [Program.loads_cons]
      exact List.mem_append_right _ hname

/-- If all variables of a program are there, evaluation finds them. -/
theorem misses_evaluate {program : Program}
    (h : ∀ name ∈ program.loads, (env.valueOf name).isSome) :
    ErrorsIn env.strategy.Misses (env.evaluate program) := by
  rw [evaluate]
  split
  · exact Strategy.misses_of_code_ne (by simp [EvalError.code])
  · split
    · next he => exact (misses_run h {}).of_eq_error he
    · trivial
    · exact Strategy.misses_of_code_ne (by simp [EvalError.code])

end Environment

namespace Parsed

/-- What is left of a text or of tokens: a formula, or the text alone and what is wrong in it. -/
inductive Left : Parsed × Option SyntaxError → Prop
  | formula {p : Parsed} (h : p.Accepted) : Left (p, none)
  | text (expression : String) (e : SyntaxError) : Left ({ expression }, some e)

theorem left_setText (p : Parsed) (text : String) : Left (p.setText text) := by
  rw [setText_eq]
  cases h : ofText text with
  | ok q => exact .formula (.inl ⟨text, h⟩)
  | error e => exact .text text e

theorem left_setTokens (p : Parsed) (tokens : List Token) : Left (p.setTokens tokens) := by
  rw [setTokens_eq]
  cases h : ofTokens tokens with
  | ok q => exact .formula (.inr ⟨tokens, h⟩)
  | error e => exact .text (compose tokens) e

end Parsed

namespace Calculator

/-- What can be done with a calculator. -/
inductive Action
  | setText (text : String)
  | setTokens (tokens : List Token)
  | setVariable (name : String) (v : Value)
  | clearValues
  | clear
  | setStrategy (s : Strategy)
  | addFunction (f : Function)
  | removeFunction (name : String)
  | evaluate

def perform (c : Calculator) : Action → Calculator
  | .setText text => (c.setText text).1
  | .setTokens tokens => (c.setTokens tokens).1
  | .setVariable name v => c.setVariable name v
  | .clearValues => { c with bindings := c.bindings.clearValues }
  | .clear => c.clear
  | .setStrategy s => { c with strategy := s }
  | .addFunction f => { c with functions := c.functions.add f }
  | .removeFunction name => { c with functions := c.functions.remove name }
  | .evaluate => c

def performAll (c : Calculator) (actions : List Action) : Calculator := actions.foldl perform c

/-- The variables of the formula are there, and no two variables share a name. -/
structure Furnished (c : Calculator) : Prop where
  creates : c.createsVariables = true
  distinct : Named.Distinct Variable.name c.bindings.entries
  bound : ∀ name ∈ c.parsed.program.loads, (c.bindings.find? name).isSome

/-- A formula that is read brings a null for each of its names that is new, at the end; if it
cannot be read the variables stay as they are. -/
def AddsNulls (c : Calculator) (outcome : Calculator × Option SyntaxError) : Prop :=
  match outcome.2 with
  | some _ => outcome.1.bindings = c.bindings
  | none => outcome.1.bindings.entries = c.bindings.entries ++
      (outcome.1.parsed.variableNames.filter fun name => (c.bindings.find? name).isNone).map
        fun name => ⟨name, .null⟩

/-- Of the calculator only the formula and the variables change. -/
theorem exists_take_eq (c : Calculator) (outcome : Parsed × Option SyntaxError) :
    ∃ vs, c.take outcome = ({ c with parsed := outcome.1, bindings := vs }, outcome.2) := by
  obtain ⟨p, e⟩ := outcome
  cases e with
  | some e => exact ⟨c.bindings, rfl⟩
  | none =>
    rw [take]
    dsimp only
    split
    · exact ⟨_, rfl⟩
    · exact ⟨c.bindings, rfl⟩

section Taking

variable {c : Calculator} {outcome : Parsed × Option SyntaxError}

theorem take_ok (hc : c.createsVariables = true) (p : Parsed) :
    c.take (p, none) =
      ({ c with parsed := p, bindings := c.bindings.ensureAll p.variableNames }, none) := by
  simp [take, createVariables, hc]

theorem addsNulls_take (hc : c.createsVariables = true) (houtcome : Parsed.Left outcome) :
    c.AddsNulls (c.take outcome) := by
  cases houtcome with
  | text expression e => rfl
  | formula hp =>
    next p =>
    have hnames : p.variableNames.Pairwise fun a b => ¬ AsciiCase.Same a b := by
      rw [hp.variableNames_eq]
      exact Item.pairwise_variableNames p.items
    rw [take_ok hc, AddsNulls]
    dsimp only
    rw [Variables.ensureAll_eq c.bindings hnames]

theorem Furnished.take (hc : c.Furnished) (houtcome : Parsed.Left outcome) :
    (c.take outcome).1.Furnished := by
  cases houtcome with
  | text expression e => exact ⟨hc.creates, hc.distinct, nofun⟩
  | formula hp =>
    next p =>
    rw [take_ok hc.creates]
    refine ⟨hc.creates, Variables.distinct_ensureAll hc.distinct _, fun name hname => ?_⟩
    obtain ⟨known, hmem, hsame⟩ := hp.exists_mem_variableNames hname
    rw [hp.variableNames_eq] at hmem ⊢
    have hfound := c.bindings.isSome_find?_ensureAll (Item.pairwise_variableNames p.items) hmem
    rwa [Variables.find?, Named.find?_congr hsame] at hfound

end Taking

theorem furnished_new (around : Surroundings) : (new around).Furnished :=
  ⟨rfl, .nil, nofun⟩

theorem Furnished.perform {c : Calculator} (hc : c.Furnished) (action : Action) :
    (c.perform action).Furnished := by
  cases action with
  | setText text => exact hc.take (c.parsed.left_setText text)
  | setTokens tokens => exact hc.take (c.parsed.left_setTokens tokens)
  | setVariable name v =>
    exact ⟨hc.creates, Variables.distinct_set hc.distinct name v, fun other hother =>
      Variables.isSome_find?_set (hc.bound other hother) name v⟩
  | clearValues =>
    refine ⟨hc.creates, Variables.distinct_clearValues hc.distinct, fun name hname => ?_⟩
    have hfound := Variables.isSome_find?_iff.mp (hc.bound name hname)
    rw [← Variables.names_clearValues] at hfound
    exact Variables.isSome_find?_iff.mpr hfound
  | clear => exact ⟨hc.creates, .nil, nofun⟩
  | setStrategy s => exact ⟨hc.creates, hc.distinct, hc.bound⟩
  | addFunction f => exact ⟨hc.creates, hc.distinct, hc.bound⟩
  | removeFunction name => exact ⟨hc.creates, hc.distinct, hc.bound⟩
  | evaluate => exact hc

theorem Furnished.performAll {c : Calculator} (hc : c.Furnished) (actions : List Action) :
    (c.performAll actions).Furnished := by
  induction actions generalizing c with
  | nil => exact hc
  | cons action actions ih => exact ih (hc.perform action)

theorem Furnished.misses_evaluate {c : Calculator} (hc : c.Furnished) :
    ErrorsIn c.strategy.Misses c.evaluate := by
  have hbound : ∀ name ∈ c.parsed.program.loads, (c.bindings.value? name).isSome := by
    intro name hname
    rw [Variables.value?, Option.isSome_map]
    exact hc.bound name hname
  rw [evaluate, evaluateWith]
  exact Environment.misses_evaluate hbound

/-- Whatever is done with a calculator that creates variables, its next evaluation finds all
variables, unless the strategy itself says that one was not found, which those of the library never
do; a formula that is read adds nulls for its new names and changes no other variable; and no two
variables share a name. -/
theorem performAll_finds_variables (around : Surroundings) (actions : List Action) :
    let c := (new around).performAll actions
    (∀ e, c.evaluate = .error e → e.code = "VAR_NOT_FOUND" → c.strategy.Raises e) ∧
      (c.strategy = .coercing ∨ c.strategy = .strict →
        ∀ e, c.evaluate = .error e → e.code ≠ "VAR_NOT_FOUND") ∧
      (∀ text, c.AddsNulls (c.setText text)) ∧
      (∀ tokens, c.AddsNulls (c.setTokens tokens)) ∧
      Named.Distinct Variable.name c.bindings.entries := by
  intro c
  have hc : c.Furnished := (furnished_new around).performAll actions
  have hmisses : ∀ e, c.evaluate = .error e → c.strategy.Misses e := fun e he =>
    hc.misses_evaluate.of_eq_error (β := Value) he
  refine ⟨hmisses, fun hshipped e he hcode => ?_, fun text => ?_, fun tokens => ?_, hc.distinct⟩
  · have hunplaced : e.position? = none := by
      have hraised := hmisses e he hcode
      obtain hs | hs := hshipped
      · exact (hs ▸ hraised).unplaced Strategy.unplaced_coercing
      · exact (hs ▸ hraised).unplaced Strategy.unplaced_strict
    exact EvalError.code_ne_of_unplaced hunplaced hcode
  · exact addsNulls_take hc.creates (c.parsed.left_setText text)
  · exact addsNulls_take hc.creates (c.parsed.left_setTokens tokens)

/-- Two variables of a formula get values under other spellings, for which its evaluation fails, and
one of them is in the next formula too. -/
theorem performAll_finds_variables_spelled :
    let sum : List Token := [⟨.word, "b", ⟨1, 1⟩⟩, ⟨.symbol, "+", ⟨1, 3⟩⟩, ⟨.word, "A", ⟨1, 5⟩⟩]
    let product : List Token := [⟨.word, "c", ⟨1, 1⟩⟩, ⟨.symbol, "*", ⟨1, 3⟩⟩, ⟨.word, "a", ⟨1, 5⟩⟩]
    let c := (new ⟨⟨0, 0, by decide, by decide, by decide⟩, 0.5⟩).performAll
      [.setTokens sum, .setVariable "a" (.array []), .setVariable "B" (.integer 2)]
    c.bindings.entries = [⟨"b", .integer 2⟩, ⟨"A", .array []⟩] ∧
      (∃ e, c.evaluate = .error e ∧ e.code ≠ "VAR_NOT_FOUND") ∧
      (c.setTokens product).1.bindings.entries =
        [⟨"b", .integer 2⟩, ⟨"A", .array []⟩, ⟨"c", .null⟩] := by
  intro sum product c
  have hsumReads : Reads none none sum
      [⟨.variable "b", ⟨1, 1⟩⟩, ⟨.infixOp .plus, ⟨1, 3⟩⟩, ⟨.variable "A", ⟨1, 5⟩⟩] :=
    .item rfl nofun <| .item rfl nofun <| .item rfl nofun <| .done _
  have hproductReads : Reads none none product
      [⟨.variable "c", ⟨1, 1⟩⟩, ⟨.infixOp .star, ⟨1, 3⟩⟩, ⟨.variable "a", ⟨1, 5⟩⟩] :=
    .item rfl nofun <| .item rfl nofun <| .item rfl nofun <| .done _
  obtain ⟨p, hp, hprogram, hnames⟩ : ∃ p, Parsed.ofTokens sum = .ok p ∧
      p.program = [⟨.load "b", ⟨1, 1⟩⟩, ⟨.load "A", ⟨1, 5⟩⟩, ⟨.apply (.infixOp .plus), ⟨1, 3⟩⟩] ∧
      p.variableNames = ["b", "A"] :=
    ⟨_, Parsed.ofTokensNamed_eq_ok hsumReads rfl _, rfl, rfl⟩
  obtain ⟨q, hq, hothers⟩ : ∃ q, Parsed.ofTokens product = .ok q ∧ q.variableNames = ["c", "a"] :=
    ⟨_, Parsed.ofTokensNamed_eq_ok hproductReads rfl _, rfl⟩
  obtain ⟨functions, hc⟩ : ∃ functions, c =
      ⟨p, ⟨[⟨"b", .integer 2⟩, ⟨"A", .array []⟩]⟩, functions, .coercing, true⟩ := by
    simp only [c, performAll, List.foldl, perform, setTokens, Parsed.setTokens_eq, hp]
    rw [take_ok rfl, hnames]
    exact ⟨_, rfl⟩
  obtain ⟨e, he⟩ : ∃ e, c.evaluate = .error e := by
    rw [hc, evaluate, evaluateWith, hprogram]
    exact ⟨_, rfl⟩
  obtain ⟨-, hcode, -, hnulls, -⟩ := performAll_finds_variables
    ⟨⟨0, 0, by decide, by decide, by decide⟩, 0.5⟩
    [.setTokens sum, .setVariable "a" (.array []), .setVariable "B" (.integer 2)]
  have hadded : c.AddsNulls (c.setTokens product) := hnulls product
  have hcode : e.code ≠ "VAR_NOT_FOUND" := hcode (.inl (congrArg strategy hc)) e he
  have hset : (c.setTokens product).2 = none ∧
      (c.setTokens product).1.parsed.variableNames = ["c", "a"] := by
    rw [hc, setTokens, Parsed.setTokens_eq, hq]
    exact ⟨rfl, hothers⟩
  rw [AddsNulls, hset.1, hset.2] at hadded
  refine ⟨congrArg (·.bindings.entries) hc, ⟨e, he, hcode⟩, hadded.trans ?_⟩
  rw [hc]
  rfl

/-- A strategy can say itself that a variable was not found, though the formula has no other than `a`,
which is there; and two names that only the case of a letter beyond ASCII tells apart are two
variables. -/
theorem performAll_raises_ghost :
    let ghost : Strategy := ⟨fun _ _ => .error (.variableNotFound "ghost" ⟨1, 1⟩)⟩
    let c : Calculator := .new ⟨⟨0, 0, by decide, by decide, by decide⟩, 0.5⟩
    (∃ e, (c.performAll [.setTokens [⟨.word, "a", ⟨1, 1⟩⟩, ⟨.symbol, "*", ⟨1, 3⟩⟩,
        ⟨.word, "a", ⟨1, 5⟩⟩], .setVariable "a" (.integer 1), .setStrategy ghost]).evaluate =
          .error e ∧ e.code = "VAR_NOT_FOUND") ∧
      (c.performAll [.setTokens [⟨.word, "É", ⟨1, 1⟩⟩, ⟨.symbol, "+", ⟨1, 3⟩⟩,
        ⟨.word, "é", ⟨1, 5⟩⟩]]).bindings.entries = [⟨"É", .null⟩, ⟨"é", .null⟩] := by
  intro ghost c
  have hsquare : Reads none none
      [⟨.word, "a", ⟨1, 1⟩⟩, ⟨.symbol, "*", ⟨1, 3⟩⟩, ⟨.word, "a", ⟨1, 5⟩⟩]
      [⟨.variable "a", ⟨1, 1⟩⟩, ⟨.infixOp .star, ⟨1, 3⟩⟩, ⟨.variable "a", ⟨1, 5⟩⟩] :=
    .item rfl nofun <| .item rfl nofun <| .item rfl nofun <| .done _
  have hsum : Reads none none
      [⟨.word, "É", ⟨1, 1⟩⟩, ⟨.symbol, "+", ⟨1, 3⟩⟩, ⟨.word, "é", ⟨1, 5⟩⟩]
      [⟨.variable "É", ⟨1, 1⟩⟩, ⟨.infixOp .plus, ⟨1, 3⟩⟩, ⟨.variable "é", ⟨1, 5⟩⟩] :=
    .item rfl nofun <| .item rfl nofun <| .item rfl nofun <| .done _
  constructor
  · refine ⟨.variableNotFound "ghost" ⟨1, 1⟩, ?_, rfl⟩
    simp only [performAll, List.foldl, perform, setTokens, Parsed.setTokens_eq, Parsed.ofTokens,
      Parsed.ofTokensNamed_eq_ok hsquare rfl]
    rw [take_ok rfl]
    rfl
  · simp only [performAll, List.foldl, perform, setTokens, Parsed.setTokens_eq, Parsed.ofTokens,
      Parsed.ofTokensNamed_eq_ok hsum rfl]
    rw [take_ok rfl]
    rfl

end Calculator

end Formula
