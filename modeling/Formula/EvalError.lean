import Formula.Text.Reader
import Formula.Value.Basic

/-!
# Errors of evaluation

An error tells what went wrong in terms of the formula: the operation, the kinds of the
operands, the name and the position where there is one. The wording is made from the cause
in one place, and every error has a stable upper-case code.
-/

namespace Formula

/-- The operations that can refuse a kind of operand or leave the range of a result. -/
inductive Operation
  | add | subtract | multiply | divide | remainder | power | shiftLeft | shiftRight
  | and | or | xor | not | more | less | moreEqual | lessEqual | isIn | like | element
  | absolute | makeSpan | truncate
  deriving DecidableEq, Repr

def Operation.symbol : Operation → String
  | .add => "+"
  | .subtract => "-"
  | .multiply => "*"
  | .divide => "/"
  | .remainder => "%"
  | .power => "^"
  | .shiftLeft => "<<"
  | .shiftRight => ">>"
  | .and => "AND"
  | .or => "OR"
  | .xor => "XOR"
  | .not => "NOT"
  | .more => ">"
  | .less => "<"
  | .moreEqual => ">="
  | .lessEqual => "<="
  | .isIn => "IN"
  | .like => "LIKE"
  | .element => "[]"
  | .absolute => "Abs"
  | .makeSpan => "TimeSpan"
  | .truncate => "Trunc"

/-- Why a value has no form of another kind. -/
inductive ConversionFault
  | outOfRange
  | notNumber (text : String)
  | notBoolean (text : String)
  | notDate (text : String)
  | notJson
  | noConversion
  | arrayWithoutText
  | disabled
  deriving DecidableEq, Repr

def ConversionFault.message : ConversionFault → String
  | .outOfRange => "value is out of range"
  | .notNumber text => s!"'{text}' is not a number"
  | .notBoolean text => s!"'{text}' is not a boolean"
  | .notDate text => s!"'{text}' is not a date"
  | .notJson => "invalid JSON"
  | .noConversion => "no conversion exists"
  | .arrayWithoutText => "arrays have no text form"
  | .disabled => "implicit conversions are disabled"

/-- What is wrong with an argument of the right kind. -/
inductive ArgumentFault
  | negativeShift (amount : Int)
  | notNumber (found : String)
  | outsideDates (millis : Int)
  | invalidDate (year month day : Int)
  | choiceBelowOne (index : Int)
  | negativeDigits (digits : Int)
  | notRoundable (number : String)
  | unreadablePattern (pattern : String)
  | refused (reason : String)
  deriving DecidableEq, Repr

def ArgumentFault.message : ArgumentFault → String
  | .negativeShift amount => s!"Negative shift amount {amount}"
  | .notNumber found => s!"expected a number, found {found}"
  | .outsideDates millis => s!"{millis} is out of the date range"
  | .invalidDate year month day => s!"invalid date {year}-{month}-{day}"
  | .choiceBelowOne index => s!"Choose index must be 1 or greater, found {index}"
  | .negativeDigits digits => s!"Round digits must not be negative, found {digits}"
  | .notRoundable number => s!"{number} cannot be rounded"
  | .unreadablePattern pattern => s!"{pattern} cannot be read as a pattern"
  | .refused reason => reason

/-- How many parameters a function takes. -/
inductive ParameterCount
  | exactly (n : Nat)
  | atLeast (n : Nat)
  | oneOf (counts : String)
  deriving DecidableEq, Repr

def ParameterCount.describe : ParameterCount → String
  | .exactly n => s!"{n}"
  | .atLeast n => s!"at least {n}"
  | .oneOf counts => counts

/-- Failures of the stack, which no program of a formula can cause. -/
inductive StackFault
  | missingOperand (instruction : String)
  | missingArguments (name : String) (count : Nat)
  | leftOver (count : Nat)
  deriving DecidableEq, Repr

def StackFault.message : StackFault → String
  | .missingOperand instruction => s!"Missing operand for {instruction}"
  | .missingArguments name count => s!"{name} expects {count} arguments on the stack"
  | .leftOver count => s!"Evaluation left {count} values on the stack"

inductive EvalError
  | variableNotFound (name : String) (position : Text.Position)
  | functionNotFound (name : String) (position : Text.Position)
  | functionFailed (name : String) (position : Text.Position) (cause : EvalError)
  | wrongParameterCount (expected : ParameterCount) (actual : Nat)
  | conversion (source target : Kind) (fault : ConversionFault)
  | unsupported (operation : Operation) (kind : Kind)
  | indexOutOfRange (index : Int) (length : Nat)
  | divisionByZero
  | overflow (operation : Operation)
  | invalidArgument (fault : ArgumentFault)
  | emptyExpression
  | internal (fault : StackFault) (position : Text.Position)
  deriving DecidableEq, Repr

namespace EvalError

def code : EvalError → String
  | .variableNotFound .. => "VAR_NOT_FOUND"
  | .functionNotFound .. => "FUNC_NOT_FOUND"
  | .functionFailed .. => "FUNC_FAILED"
  | .wrongParameterCount .. => "WRONG_PARAM_COUNT"
  | .conversion .. => "CONVERSION"
  | .unsupported .. => "UNSUPPORTED_OPERATION"
  | .indexOutOfRange .. => "INDEX_OUT_OF_RANGE"
  | .divisionByZero => "DIVISION_BY_ZERO"
  | .overflow .. => "OVERFLOW"
  | .invalidArgument .. => "INVALID_ARGUMENT"
  | .emptyExpression => "EMPTY_EXPRESSION"
  | .internal .. => "INTERNAL"

def message : EvalError → String
  | .variableNotFound name position =>
    s!"Variable {name} was not found at {position.describe}"
  | .functionNotFound name position =>
    s!"Function {name} was not found at {position.describe}"
  | .functionFailed name position cause =>
    s!"Function {name} failed at {position.describe}: {cause.message}"
  | .wrongParameterCount expected actual =>
    s!"Expected {expected.describe} parameters but found {actual}"
  | .conversion source target fault =>
    s!"Cannot convert {source.name} to {target.name}: {fault.message}"
  | .unsupported operation kind =>
    s!"Operation '{operation.symbol}' is not supported for type {kind.name}"
  | .indexOutOfRange index length => s!"Index {index} is out of range for length {length}"
  | .divisionByZero => "Division by zero"
  | .overflow operation => s!"Arithmetic overflow in '{operation.symbol}'"
  | .invalidArgument fault => s!"Invalid argument: {fault.message}"
  | .emptyExpression => "Expression is empty"
  | .internal fault position => s!"Internal error at {position.describe}: {fault.message}"

def position? : EvalError → Option Text.Position
  | .variableNotFound _ position => some position
  | .functionNotFound _ position => some position
  | .functionFailed _ position _ => some position
  | .internal _ position => some position
  | _ => none

def isInternal : EvalError → Bool
  | .internal .. => true
  | _ => false

end EvalError

end Formula
