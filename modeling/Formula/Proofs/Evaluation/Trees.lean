import Formula.Evaluation.Machine
import Formula.Proofs.Expression.Tree

/-!
# Evaluating trees

A tree is evaluated by recursion, operands from left to right before what takes them, and the
first error ends it. The program of the tree, run over any stack, leaves that stack with the
value of the tree on top, and it makes the same calls on the way.
-/

namespace Formula

/-- A call of a function that is there. -/
structure Call where
  name : String
  arguments : List Value
  position : Text.Position

namespace Environment

variable (env : Environment)

/-- Looks a function up by name and applies it. -/
def invoke (name : String) (args : List Value) (p : Text.Position) : Result :=
  match env.functions name with
  | none => .error (.functionNotFound name p)
  | some f => env.call f name args p

def callOf (name : String) (args : List Value) (p : Text.Position) : List Call :=
  match env.functions name with
  | none => []
  | some _ => [⟨name, args, p⟩]

def callsAt (stack : ValueStack) (i : Located Instr) : List Call :=
  match i.value with
  | .call name n =>
    match stack.popMany? n with
    | some (args, _) => env.callOf name args i.position
    | none => []
  | _ => []

/-- The calls that a run makes up to its end or its first error. -/
def calls (stack : ValueStack) : Program → List Call
  | [] => []
  | i :: steps =>
    env.callsAt stack i ++
      match env.step stack i with
      | .ok stack => calls stack steps
      | .error _ => []

end Environment

mutual

def Expr.eval (env : Environment) : Expr → Result
  | .constant v _ => .ok v
  | .variable name p => env.load name p
  | .callEmpty name p _ _ => env.invoke name [] p
  | .call name p _ args _ => do
    let vs ← args.eval env
    env.invoke name vs p
  | .group _ e _ => e.eval env
  | .prefixOp op _ e => do
    let v ← e.eval env
    env.strategy.applyPrefix op v
  | .suffixOp e op _ => do
    let v ← e.eval env
    Strategy.applySuffix op v
  | .infixOp left op _ right => do
    let a ← left.eval env
    let b ← right.eval env
    env.strategy.applyInfix op a b
  | .element collection _ index _ => do
    let a ← collection.eval env
    let b ← index.eval env
    env.strategy.element a b

def Args.eval (env : Environment) : Args → Except EvalError (List Value)
  | .one e => do
    let v ← e.eval env
    return [v]
  | .more before _ e => do
    let vs ← before.eval env
    let v ← e.eval env
    return vs ++ [v]

end

mutual

def Expr.calls (env : Environment) : Expr → List Call
  | .constant _ _ => []
  | .variable _ _ => []
  | .callEmpty name p _ _ => env.callOf name [] p
  | .call name p _ args _ =>
    args.calls env ++
      match args.eval env with
      | .ok vs => env.callOf name vs p
      | .error _ => []
  | .group _ e _ => e.calls env
  | .prefixOp _ _ e => e.calls env
  | .suffixOp e _ _ => e.calls env
  | .infixOp left _ _ right =>
    left.calls env ++
      match left.eval env with
      | .ok _ => right.calls env
      | .error _ => []
  | .element collection _ index _ =>
    collection.calls env ++
      match collection.eval env with
      | .ok _ => index.calls env
      | .error _ => []

def Args.calls (env : Environment) : Args → List Call
  | .one e => e.calls env
  | .more before _ e =>
    before.calls env ++
      match before.eval env with
      | .ok _ => e.calls env
      | .error _ => []

end

namespace Environment

variable (env : Environment) (stack : ValueStack)

@[simp] theorem run_singleton (i : Located Instr) : env.run stack [i] = env.step stack i := by
  rw [run]
  cases env.step stack i <;> rfl

@[simp] theorem calls_singleton (i : Located Instr) :
    env.calls stack [i] = env.callsAt stack i := by
  rw [calls]
  cases env.step stack i <;> exact List.append_nil _

theorem calls_append (first second : Program) :
    env.calls stack (first ++ second) = env.calls stack first ++
      match env.run stack first with
      | .ok stack => env.calls stack second
      | .error _ => [] := by
  induction first generalizing stack with
  | nil => rfl
  | cons i steps ih =>
    rw [List.cons_append, calls, calls, run, List.append_assoc]
    cases env.step stack i with
    | ok next => exact congrArg (env.callsAt stack i ++ ·) (ih next)
    | error e => rfl

theorem calls_append_apply (first : Program) (op : Operator) (p : Text.Position) :
    env.calls stack (first ++ [⟨.apply op, p⟩]) = env.calls stack first := by
  rw [calls_append]
  cases env.run stack first with
  | error err => exact List.append_nil _
  | ok next =>
    dsimp only
    rw [calls_singleton]
    exact List.append_nil _

/-- An operator with one operand is applied after the steps of the operand. -/
theorem run_append_unary {first : Program} {r : Result}
    (hfirst : env.run stack first = pushResult stack r) {op : Operator} {p : Text.Position}
    {f : Value → Result}
    (hop : ∀ v, env.step (stack.push v) ⟨.apply op, p⟩ = pushResult stack (f v)) :
    env.run stack (first ++ [⟨.apply op, p⟩]) = pushResult stack (r >>= f) := by
  rw [run_append, hfirst]
  cases r with
  | error err => rfl
  | ok v => exact (env.run_singleton _ _).trans (hop v)

theorem run_append_binary {first second : Program} {r s : Result}
    (hfirst : env.run stack first = pushResult stack r)
    (hsecond : ∀ a, env.run (stack.push a) second = pushResult (stack.push a) s)
    {op : Operator} {p : Text.Position} {f : Value → Value → Result}
    (hop : ∀ a b, env.step ((stack.push a).push b) ⟨.apply op, p⟩ = pushResult stack (f a b)) :
    env.run stack (first ++ second ++ [⟨.apply op, p⟩]) =
      pushResult stack (r >>= fun a => s >>= f a) := by
  rw [run_append, run_append, hfirst]
  cases r with
  | error err => rfl
  | ok a =>
    rw [pushResult]
    dsimp only
    rw [hsecond a]
    cases s with
    | error err => rfl
    | ok b => exact (env.run_singleton _ _).trans (hop a b)

def pushMany (vs : List Value) : ValueStack := ⟨vs.reverse ++ stack.values⟩

theorem push_pushMany (vs : List Value) (v : Value) :
    (pushMany stack vs).push v = pushMany stack (vs ++ [v]) := by
  simp [pushMany, ValueStack.push]

theorem step_call (vs : List Value) (name : String) (p : Text.Position) :
    env.step (pushMany stack vs) ⟨.call name vs.length, p⟩ =
      pushResult stack (env.invoke name vs p) := by
  rw [step, invoke, pushMany]
  dsimp only
  rw [ValueStack.popMany?_append]
  cases env.functions name <;> rfl

theorem callsAt_call (vs : List Value) (name : String) (p : Text.Position) :
    env.callsAt (pushMany stack vs) ⟨.call name vs.length, p⟩ = env.callOf name vs p := by
  rw [callsAt]
  dsimp only
  rw [pushMany, ValueStack.popMany?_append]

/-- Puts evaluated arguments on the stack. -/
def pushResults (r : Except EvalError (List Value)) : StackResult :=
  match r with
  | .ok vs => .ok (pushMany stack vs)
  | .error e => .error e

end Environment

theorem Args.length_of_eval {env : Environment} {args : Args} {vs : List Value}
    (h : args.eval env = .ok vs) : vs.length = args.size := by
  match args with
  | .one e =>
    rw [Args.eval] at h
    cases he : e.eval env with
    | error err =>
      rw [he] at h
      cases h
    | ok v =>
      rw [he] at h
      cases h
      rfl
  | .more before comma e =>
    rw [Args.eval] at h
    cases hb : before.eval env with
    | error err =>
      rw [hb] at h
      cases h
    | ok ws =>
      rw [hb] at h
      cases he : e.eval env with
      | error err =>
        rw [he] at h
        cases h
      | ok v =>
        rw [he] at h
        cases h
        rw [List.length_append, Args.length_of_eval hb]
        rfl

namespace Environment

variable (env : Environment)

mutual

/-- The program of a tree puts the value of the tree on the stack. -/
theorem run_program (e : Expr) (stack : ValueStack) :
    env.run stack e.program = pushResult stack (e.eval env) := by
  match e with
  | .constant v p => rfl
  | .variable name p => exact env.run_singleton stack _
  | .callEmpty name p opened closed =>
    rw [Expr.program, run_singleton]
    exact env.step_call stack [] name p
  | .call name p opened args closed =>
    rw [Expr.program, run_append, run_args args stack, Expr.eval]
    cases hargs : args.eval env with
    | error err => rfl
    | ok vs =>
      rw [← Args.length_of_eval hargs]
      exact (env.run_singleton _ _).trans (env.step_call stack vs name p)
  | .group opened e closed => exact run_program e stack
  | .prefixOp op p e =>
    rw [Expr.program, Expr.eval]
    exact env.run_append_unary stack (run_program e stack) fun v => rfl
  | .suffixOp e op p =>
    rw [Expr.program, Expr.eval]
    exact env.run_append_unary stack (run_program e stack) fun v => rfl
  | .infixOp left op p right =>
    rw [Expr.program, Expr.eval]
    exact env.run_append_binary stack (run_program left stack)
      (fun a => run_program right (stack.push a)) fun a b => rfl
  | .element collection opened index closed =>
    rw [Expr.program, Expr.eval]
    exact env.run_append_binary stack (run_program collection stack)
      (fun a => run_program index (stack.push a)) fun a b => rfl

theorem run_args (args : Args) (stack : ValueStack) :
    env.run stack args.program = pushResults stack (args.eval env) := by
  match args with
  | .one e =>
    rw [Args.program, run_program e stack, Args.eval]
    cases e.eval env <;> rfl
  | .more before comma e =>
    rw [Args.program, run_append, run_args before stack, Args.eval]
    cases before.eval env with
    | error err => rfl
    | ok vs =>
      rw [pushResults]
      dsimp only
      rw [run_program e (pushMany stack vs)]
      cases e.eval env with
      | error err => rfl
      | ok v => exact congrArg Except.ok (push_pushMany stack vs v)

end

mutual

theorem calls_program (e : Expr) (stack : ValueStack) :
    env.calls stack e.program = e.calls env := by
  match e with
  | .constant v p => rfl
  | .variable name p => exact env.calls_singleton stack _
  | .callEmpty name p opened closed =>
    rw [Expr.program, calls_singleton]
    exact env.callsAt_call stack [] name p
  | .call name p opened args closed =>
    rw [Expr.program, calls_append, calls_args args stack, run_args, Expr.calls]
    cases hargs : args.eval env with
    | error err => rfl
    | ok vs =>
      rw [pushResults, ← Args.length_of_eval hargs]
      dsimp only
      rw [calls_singleton, callsAt_call]
  | .group opened e closed => exact calls_program e stack
  | .prefixOp op p e =>
    rw [Expr.program, calls_append_apply]
    exact calls_program e stack
  | .suffixOp e op p =>
    rw [Expr.program, calls_append_apply]
    exact calls_program e stack
  | .infixOp left op p right =>
    rw [Expr.program, calls_append_apply, calls_append, calls_program left stack, run_program,
      Expr.calls]
    cases left.eval env with
    | error err => rfl
    | ok a => exact congrArg (left.calls env ++ ·) (calls_program right (stack.push a))
  | .element collection opened index closed =>
    rw [Expr.program, calls_append_apply, calls_append, calls_program collection stack,
      run_program, Expr.calls]
    cases collection.eval env with
    | error err => rfl
    | ok a => exact congrArg (collection.calls env ++ ·) (calls_program index (stack.push a))

theorem calls_args (args : Args) (stack : ValueStack) :
    env.calls stack args.program = args.calls env := by
  match args with
  | .one e => exact calls_program e stack
  | .more before comma e =>
    rw [Args.program, calls_append, calls_args before stack, run_args, Args.calls]
    cases before.eval env with
    | error err => rfl
    | ok vs => exact congrArg (before.calls env ++ ·) (calls_program e (pushMany stack vs))

end

theorem evaluate_program (e : Expr) : env.evaluate e.program = e.eval env := by
  rw [evaluate, List.getLast?_eq_some_getLast e.program_ne_nil, run_program]
  cases e.eval env <;> rfl

end Environment

end Formula
