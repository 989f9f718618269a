import Formula.CommandLine.Arguments
import Formula.Evaluation.Calculator
import Formula.Value.Json

/-!
# Commands

`eval` reads a formula, takes its variables from a JSON object and prints the value as
JSON; `tokens` lists one of the forms of a formula with its variables; `functions` lists
the library. A command that fails says why and exits with 1, and a command line without
meaning exits with 2.
-/

namespace Formula.CommandLine

inductive CommandError
  | unreadable (e : SyntaxError)
  | evaluation (e : EvalError)
  | invalidJson
  | variablesNotObject (found : String)
  | unknownStage (word : String)
  deriving DecidableEq, Repr

namespace CommandError

def code : CommandError → String
  | .unreadable _ => "SYNTAX"
  | .evaluation _ => "EVAL"
  | .invalidJson => "JSON"
  | .variablesNotObject _ => "INVALID_VARIABLES"
  | .unknownStage _ => "UNKNOWN_STAGE"

def message : CommandError → String
  | .unreadable e => s!"Syntax error [{e.fault.code}]: {e.message}"
  | .evaluation e => s!"Evaluation error [{e.code}]: {e.message}"
  | .invalidJson => "Invalid JSON: the variables are not a JSON text"
  | .variablesNotObject found => s!"Variables must be a JSON object, found {found}"
  | .unknownStage word =>
    s!"Unknown token stage: '{word}'\nExpected one of: original, initial, postfix"

end CommandError

def describeJson : Json → String
  | .null => "null"
  | .bool _ => "a boolean"
  | .number _ => "a number"
  | .string _ => "a string"
  | .array _ => "an array"
  | .object _ => "an object"

/-- The variables in a JSON text, in the order of their names. -/
def variablesOf (text : String) : Except CommandError (List (String × Value)) :=
  match Json.parse? text with
  | none => .error .invalidJson
  | some (.object members) => .ok (members.map fun (name, j) => (name, j.toValue))
  | some j => .error (.variablesNotObject (describeJson j))

/-- The value of a formula. The formula is read before the variables. -/
def evaluate (around : Surroundings) (options : EvalOptions) : Except CommandError Value :=
  match (Calculator.new around).setText options.expression with
  | (_, some e) => .error (.unreadable e)
  | (c, none) => do
    let values ←
      match options.bindings with
      | some text => variablesOf text
      | none => .ok []
    let c :=
      { c with
        strategy := if options.strict then .strict else .coercing
        bindings := c.bindings.setAll values }
    match c.evaluate with
    | .ok v => .ok v
    | .error e => .error (.evaluation e)

structure Listing where
  lines : List String
  variableNames : List String
  deriving DecidableEq, Repr

def listTokens (expression : String) (stage : Stage) : Except CommandError Listing :=
  match Parsed.ofText expression with
  | .error e => .error (.unreadable e)
  | .ok p =>
    .ok
      { lines :=
          match stage with
          | .original => p.tokens.map Token.describe
          | .initial => p.items.map fun i => i.value.describe
          | .final => p.program.map fun i => i.value.describe
        variableNames := p.variableNames }

/-- What a run leaves behind. -/
structure Outcome where
  code : Nat
  out : String := ""
  err : String := ""
  deriving DecidableEq, Repr

def unlines (lines : List String) : String := String.join (lines.map (· ++ "\n"))

def Outcome.failed (e : CommandError) : Outcome := { code := 1, err := e.message ++ "\n" }

def versionLine : String := "exprcalc 0.2.0\n"

def helpText : String :=
  unlines
    ["Usage: exprcalc <COMMAND>", "",
      "  eval <EXPRESSION> [--vars <JSON>] [--strict] [-p]",
      "  tokens <EXPRESSION> [-s <STAGE>]",
      "  functions"]

/-- Variables that were not given with the command come from the input, unless it is blank. -/
def withInput (options : EvalOptions) (input : String) : EvalOptions :=
  match options.bindings with
  | some _ => options
  | none =>
    { options with
      bindings := if Text.trim input.toList = [] then none else some input }

def runEval (around : Surroundings) (options : EvalOptions) (input : String) : Outcome :=
  match evaluate around (withInput options input) with
  | .error e => .failed e
  | .ok v =>
    { code := 0
      out := (if options.pretty then v.toJson.indented else v.toJson.compact) ++ "\n" }

def runTokens (expression : String) (stage : Stage) : Outcome :=
  match listTokens expression stage with
  | .error e => .failed e
  | .ok l =>
    let names := ", ".intercalate l.variableNames
    { code := 0
      out := unlines l.lines ++ if l.variableNames = [] then "" else s!"variables: {names}\n" }

def run (around : Surroundings) (arguments : List String) (input : String) : Outcome :=
  match parse arguments with
  | .error e => { code := 2, err := s!"error: {e.message}\n" }
  | .ok (.evaluate options) => runEval around options input
  | .ok (.tokens expression stage) => runTokens expression stage
  | .ok .functions => { code := 0, out := unlines (Functions.library around).names }
  | .ok .version => { code := 0, out := versionLine }
  | .ok .help => { code := 0, out := helpText }

/-- The arguments lead to an evaluation that reads its variables from the input. -/
def readsInput (arguments : List String) : Bool :=
  match parse arguments with
  | .ok (.evaluate options) => options.bindings.isNone
  | _ => false

end Formula.CommandLine
