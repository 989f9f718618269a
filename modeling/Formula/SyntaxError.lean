import Formula.Text.Reader

/-!
# Errors in the text of a formula

Reading a formula stops at the first error. An error has a cause and the position of the
characters that show it. Every cause belongs to a class, which has a stable upper-case code.
-/

namespace Formula

inductive SyntaxFault
  | unknownSymbol (text : String)
  | unknownKeyword (text : String)
  /-- `IS` without `NULL` or `NOT NULL`, at the end of the formula or before something else. -/
  | danglingIs (atEnd : Bool)
  | unknownCharacter (text : String)
  | unterminatedString (quote : Char)
  | unclosedParenthesis
  | strayCloseParenthesis
  | unclosedBracket
  | strayCloseBracket
  | commaOutsideCall
  | missingOperand
  | missingOperator
  | unexpectedEnd
  | danglingPlus
  | invalidNumber (text : String)
  /-- The number rule was led to a character that starts no number. -/
  | notNumeric
  /-- A rule was led to a character that it does not accept. -/
  | misuse (rule : String)
  /-- Reading went on without taking a character off the text. -/
  | stalled
  deriving DecidableEq, Repr

namespace SyntaxFault

def code : SyntaxFault → String
  | .unknownSymbol _ => "UNKNOWN_SYMBOL"
  | .unknownKeyword _ => "UNKNOWN_SYMBOL"
  | .danglingIs true => "UNEXPECTED_END"
  | .danglingIs false => "UNKNOWN_SYMBOL"
  | .unknownCharacter _ => "UNKNOWN_CHARACTER"
  | .unterminatedString _ => "UNTERMINATED_STRING"
  | .unclosedParenthesis => "MISSED_CLOSE_PARENTHESIS"
  | .strayCloseParenthesis => "UNEXPECTED_CLOSE_PARENTHESIS"
  | .unclosedBracket => "MISSED_CLOSE_SQUARE_BRACKET"
  | .strayCloseBracket => "UNEXPECTED_CLOSE_SQUARE_BRACKET"
  | .commaOutsideCall => "COMMA_OUTSIDE_CALL"
  | .missingOperand => "MISSING_OPERAND"
  | .missingOperator => "MISSING_OPERATOR"
  | .unexpectedEnd => "UNEXPECTED_END"
  | .danglingPlus => "UNEXPECTED_END"
  | .invalidNumber _ => "INVALID_NUMBER"
  | .notNumeric => "INVALID_NUMBER"
  | .misuse _ => "INTERNAL"
  | .stalled => "INTERNAL"

def message : SyntaxFault → String
  | .unknownSymbol text => s!"Unknown symbol '{text}'"
  | .unknownKeyword text => s!"Unknown keyword '{text}'"
  | .danglingIs _ => "Expected NULL or NOT NULL after IS"
  | .unknownCharacter text => s!"Unknown character '{text}'"
  | .unterminatedString quote => s!"Unterminated string: missing closing {quote}"
  | .unclosedParenthesis => "Missing ')'"
  | .strayCloseParenthesis => "Unexpected ')'"
  | .unclosedBracket => "Missing ']'"
  | .strayCloseBracket => "Unexpected ']'"
  | .commaOutsideCall => "Comma is only allowed between function arguments"
  | .missingOperand => "Missing operand"
  | .missingOperator => "Missing operator"
  | .unexpectedEnd => "Unexpected end of expression"
  | .danglingPlus => "Expected an operand after '+'"
  | .invalidNumber text => s!"Invalid number '{text}'"
  | .notNumeric => "Number state invoked on a non-numeric character"
  | .misuse rule => s!"Incorrect usage of {rule}"
  | .stalled => "No progress"

end SyntaxFault

structure SyntaxError where
  fault : SyntaxFault
  position : Text.Position
  deriving DecidableEq, Repr

def SyntaxError.message (e : SyntaxError) : String :=
  s!"{e.fault.message} at {e.position.describe}"

end Formula
