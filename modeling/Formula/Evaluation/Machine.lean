import Formula.Expression.Program
import Formula.Operations.Arithmetic
import Formula.Operations.Comparison
import Formula.Operations.Logic
import Formula.Registry
import Formula.Value.Basic

/-!
# Running programs

A program runs from left to right over a stack of values. Constants and variables are put
on the stack, and operators and functions replace their operands on top by the result. The
first error ends the run.
-/

namespace Formula

/-- Values, the one on top first. -/
structure ValueStack where
  values : List Value := []

namespace ValueStack

def size (s : ValueStack) : Nat := s.values.length

def push (s : ValueStack) (v : Value) : ValueStack := ⟨v :: s.values⟩

def pop? (s : ValueStack) : Option (Value × ValueStack) :=
  match s.values with
  | [] => none
  | v :: vs => some (v, ⟨vs⟩)

/-- Takes the `n` values on top, the lowest of them first; none if there are fewer. -/
def popMany? (s : ValueStack) (n : Nat) : Option (List Value × ValueStack) :=
  if n ≤ s.values.length then some ((s.values.take n).reverse, ⟨s.values.drop n⟩) else none

def peek? (s : ValueStack) : Option Value := s.values.head?

/-- The value at a place counted from the bottom. -/
def peekAt? (s : ValueStack) (i : Nat) : Option Value := s.values.reverse[i]?

theorem popMany?_append (args : List Value) (s : ValueStack) :
    (ValueStack.mk (args.reverse ++ s.values)).popMany? args.length = some (args, s) := by
  have ht : (args.reverse ++ s.values).take args.length = args.reverse := by
    rw [← List.length_reverse, List.take_left]
  have hd : (args.reverse ++ s.values).drop args.length = s.values := by
    rw [← List.length_reverse, List.drop_left]
  simp only [popMany?, List.length_append, List.length_reverse, Nat.le_add_right, if_true, ht, hd,
    List.reverse_reverse]

end ValueStack

/-- What a program refers to. -/
structure Environment where
  valueOf : String → Option Value
  functions : String → Option Function
  strategy : Strategy

namespace Strategy

variable (s : Strategy)

def applyInfix : InfixOp → Value → Value → Result
  | .plus => s.add
  | .minus => s.sub
  | .star => s.mul
  | .slash => s.div
  | .percent => s.mod
  | .power => s.pow
  | .shiftLeft => s.lsh
  | .shiftRight => s.rsh
  | .equal => s.equal
  | .notEqual => s.notEqual
  | .more => s.more
  | .less => s.less
  | .moreEqual => s.moreEqual
  | .lessEqual => s.lessEqual
  | .and => s.and
  | .or => s.or
  | .xor => s.xor
  | .isIn => s.isIn
  | .notIn => s.notIn
  | .like => s.like
  | .notLike => s.notLike

def applyPrefix : PrefixOp → Value → Result
  | .negate => s.negative
  | .not => s.not

def applySuffix : SuffixOp → Value → Result
  | .isNull, v => .ok (.boolean v.isNull)
  | .isNotNull, v => .ok (.boolean (!v.isNull))

end Strategy

namespace Environment

variable (env : Environment)

def load (name : String) (p : Text.Position) : Result :=
  match env.valueOf name with
  | some v => .ok v
  | none => .error (.variableNotFound name p)

/-- Applies a function; its errors are told apart from those of the formula. -/
def call (f : Function) (name : String) (args : List Value) (p : Text.Position) : Result :=
  match f.apply env.strategy args with
  | .ok v => .ok v
  | .error e => .error (.functionFailed name p e)

abbrev StackResult := Except EvalError ValueStack

def pushResult (stack : ValueStack) (r : Result) : StackResult :=
  match r with
  | .ok v => .ok (stack.push v)
  | .error e => .error e

def unary (f : Value → Result) (op : Operator) (p : Text.Position) (stack : ValueStack) :
    StackResult :=
  match stack.pop? with
  | some (v, stack) => pushResult stack (f v)
  | none => .error (.internal (.missingOperand op.name) p)

def binary (f : Value → Value → Result) (op : Operator) (p : Text.Position)
    (stack : ValueStack) : StackResult :=
  match stack.pop? with
  | some (right, stack) =>
    match stack.pop? with
    | some (left, stack) => pushResult stack (f left right)
    | none => .error (.internal (.missingOperand op.name) p)
  | none => .error (.internal (.missingOperand op.name) p)

def applyOperator (op : Operator) (p : Text.Position) (stack : ValueStack) : StackResult :=
  match op with
  | .infixOp o => binary (env.strategy.applyInfix o) op p stack
  | .element => binary env.strategy.element op p stack
  | .prefixOp o => unary (env.strategy.applyPrefix o) op p stack
  | .suffixOp o => unary (Strategy.applySuffix o) op p stack

def step (stack : ValueStack) (i : Located Instr) : StackResult :=
  match i.value with
  | .push v => .ok (stack.push v)
  | .load name => pushResult stack (env.load name i.position)
  | .call name n =>
    match env.functions name with
    | none => .error (.functionNotFound name i.position)
    | some f =>
      match stack.popMany? n with
      | none => .error (.internal (.missingArguments name n) i.position)
      | some (args, stack) => pushResult stack (env.call f name args i.position)
  | .apply op => env.applyOperator op i.position stack

def run (stack : ValueStack) : Program → StackResult
  | [] => .ok stack
  | i :: steps =>
    match env.step stack i with
    | .ok stack => run stack steps
    | .error e => .error e

/-- The value of a program; the empty one has none. -/
def evaluate (program : Program) : Result :=
  match program.getLast? with
  | none => .error .emptyExpression
  | some last =>
    match env.run {} program with
    | .error e => .error e
    | .ok ⟨[v]⟩ => .ok v
    | .ok stack => .error (.internal (.leftOver stack.size) last.position)

theorem run_append (stack : ValueStack) (first second : Program) :
    env.run stack (first ++ second) =
      match env.run stack first with
      | .ok stack => env.run stack second
      | .error e => .error e := by
  induction first generalizing stack with
  | nil => rfl
  | cons i steps ih =>
    simp only [List.cons_append, run]
    cases env.step stack i with
    | ok next => exact ih next
    | error e => rfl

end Environment

end Formula
