import Formula.Expression.Item
import Formula.SyntaxError

/-!
# Programs

A program lists the steps of a formula in the order of evaluation: operands come before
the operator or the function that takes them. The items of a formula are arranged with a
stack of what is held back: operators that wait for their last operand, and open brackets.
Each item gives out the steps that it sets free, so a program is read off while the items
go by, and the first item that fits nowhere ends the work.
-/

namespace Formula

abbrev Program := List (Located Instr)

/-- What is held back: an operator, an open parenthesis with the function it belongs to and
the commas so far, or an open square bracket. -/
inductive Held
  | operator (op : Operator) (position : Text.Position)
  | group (opened : Text.Position) (function : Option (Located String)) (commas : Nat)
  | bracket (opened : Text.Position)

namespace Held

/-- Gives out the operators down to the innermost open bracket. -/
def release : List Held → Program × List Held
  | .operator op p :: below =>
    let (steps, rest) := release below
    (⟨.apply op, p⟩ :: steps, rest)
  | stack => ([], stack)

/-- Gives out the operators that take their operands before `incoming` is read on. -/
def yield (incoming : Operator) : List Held → Program × List Held
  | .operator op p :: below =>
    if op.Yields incoming then
      let (steps, rest) := yield incoming below
      (⟨.apply op, p⟩ :: steps, rest)
    else ([], .operator op p :: below)
  | stack => ([], stack)

/-- Gives out everything at the end; a bracket that is still open has no end. -/
def close : List Held → Except SyntaxError Program
  | [] => .ok []
  | .operator op p :: below =>
    match close below with
    | .ok steps => .ok (⟨.apply op, p⟩ :: steps)
    | .error e => .error e
  | .group opened _ _ :: _ => .error ⟨.unclosedParenthesis, opened⟩
  | .bracket opened :: _ => .error ⟨.unclosedBracket, opened⟩

end Held

/-- The state between two items. -/
structure Arranging where
  stack : List Held := []
  /-- A function whose parenthesis comes next. -/
  function : Option (Located String) := none
  operandDue : Bool := true
  /-- The last item was an opening parenthesis. -/
  justOpened : Bool := false

namespace Arranging

abbrev Step := Except SyntaxFault (Program × Arranging)

/-- After an operand with the given stack. -/
def operandDone (a : Arranging) (stack : List Held) : Arranging :=
  { a with stack := stack, operandDue := false, justOpened := false }

def awaitOperand (a : Arranging) (stack : List Held) : Arranging :=
  { a with stack := stack, operandDue := true, justOpened := false }

def operand (a : Arranging) (i : Located Instr) : Step :=
  if a.operandDue then .ok ([i], a.operandDone a.stack) else .error .missingOperator

def openParen (a : Arranging) (p : Text.Position) : Step :=
  if a.operandDue then
    .ok ([],
      { stack := .group p a.function 0 :: a.stack, function := none, operandDue := true,
        justOpened := true })
  else .error .missingOperator

def comma (a : Arranging) : Step :=
  if a.operandDue then .error .missingOperand
  else
    match Held.release a.stack with
    | (steps, .group p (some f) commas :: below) =>
      .ok (steps, a.awaitOperand (.group p (some f) (commas + 1) :: below))
    | _ => .error .commaOutsideCall

def closeParen (a : Arranging) : Step :=
  match Held.release a.stack with
  | (steps, .group _ (some f) commas :: below) =>
    if a.operandDue && !a.justOpened then .error .missingOperand
    else
      let arguments := if a.justOpened then 0 else commas + 1
      .ok (steps ++ [⟨.call f.value arguments, f.position⟩], a.operandDone below)
  | (steps, .group _ none _ :: below) =>
    if a.operandDue then .error .missingOperand else .ok (steps, a.operandDone below)
  | _ => .error .strayCloseParenthesis

def openBracket (a : Arranging) (p : Text.Position) : Step :=
  if a.operandDue then .error .missingOperand
  else .ok ([], a.awaitOperand (.bracket p :: a.stack))

def closeBracket (a : Arranging) : Step :=
  if a.operandDue then .error .missingOperand
  else
    match Held.release a.stack with
    | (steps, .bracket p :: below) =>
      .ok (steps ++ [⟨.apply .element, p⟩], a.operandDone below)
    | _ => .error .strayCloseBracket

def suffixOp (a : Arranging) (op : SuffixOp) (p : Text.Position) : Step :=
  if a.operandDue then .error .missingOperand
  else
    let (steps, below) := Held.yield (.suffixOp op) a.stack
    .ok (steps ++ [⟨.apply (.suffixOp op), p⟩], a.operandDone below)

def prefixOp (a : Arranging) (op : PrefixOp) (p : Text.Position) : Step :=
  if a.operandDue then .ok ([], a.awaitOperand (.operator (.prefixOp op) p :: a.stack))
  else .error .missingOperator

def infixOp (a : Arranging) (op : InfixOp) (p : Text.Position) : Step :=
  if a.operandDue then .error .missingOperand
  else
    let (steps, below) := Held.yield (.infixOp op) a.stack
    .ok (steps, a.awaitOperand (.operator (.infixOp op) p :: below))

/-- The steps that an item sets free, and the state after it. -/
def step (a : Arranging) (i : Located Item) : Step :=
  match i.value with
  | .constant v => a.operand ⟨.push v, i.position⟩
  | .variable name => a.operand ⟨.load name, i.position⟩
  | .function name =>
    if a.operandDue then
      .ok ([], { a with function := some ⟨name, i.position⟩, justOpened := false })
    else .error .missingOperator
  | .openParen => a.openParen i.position
  | .closeParen => a.closeParen
  | .openBracket => a.openBracket i.position
  | .closeBracket => a.closeBracket
  | .comma => a.comma
  | .infixOp op => a.infixOp op i.position
  | .prefixOp op => a.prefixOp op i.position
  | .suffixOp op => a.suffixOp op i.position

/-- The end of the items, the last of which stood at `last` if there was any. -/
def finish (a : Arranging) (last : Option Text.Position) : Except SyntaxError Program :=
  match last with
  | some p => if a.operandDue then .error ⟨.unexpectedEnd, p⟩ else Held.close a.stack
  | none => Held.close a.stack

def run (a : Arranging) (last : Option Text.Position) :
    List (Located Item) → Except SyntaxError Program
  | [] => a.finish last
  | i :: items =>
    match a.step i with
    | .error fault => .error ⟨fault, i.position⟩
    | .ok (steps, a) =>
      match run a (some i.position) items with
      | .ok more => .ok (steps ++ more)
      | .error e => .error e

end Arranging

/-- The program of a row of items; no items make the empty program. -/
def Program.ofItems (items : List (Located Item)) : Except SyntaxError Program :=
  Arranging.run {} none items

end Formula
