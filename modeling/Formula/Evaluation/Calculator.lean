import Formula.Evaluation.Machine
import Formula.Expression.Parsed
import Formula.Functions.Library

/-!
# Calculators

A calculator holds a parsed formula, variables, functions and a strategy, and evaluates the
formula any number of times. If it creates variables by itself, every variable of a formula
that was read is there, as null until it gets a value.
-/

namespace Formula

structure Calculator where
  parsed : Parsed := {}
  bindings : Variables := {}
  functions : Functions
  strategy : Strategy := .coercing
  createsVariables : Bool := true

namespace Calculator

/-- A calculator without a formula, with the library of functions. -/
def new (around : Surroundings) : Calculator := { functions := Functions.library around }

/-- Adds the missing variables of the formula, as nulls. -/
def createVariables (c : Calculator) (vs : Variables) : Variables :=
  vs.ensureAll c.parsed.variableNames

def take (c : Calculator) (outcome : Parsed × Option SyntaxError) :
    Calculator × Option SyntaxError :=
  let c := { c with parsed := outcome.1 }
  match outcome.2 with
  | some e => (c, some e)
  | none =>
    (if c.createsVariables then { c with bindings := c.createVariables c.bindings } else c, none)

def setText (c : Calculator) (text : String) : Calculator × Option SyntaxError :=
  c.take (c.parsed.setText text)

def setTokens (c : Calculator) (tokens : List Token) : Calculator × Option SyntaxError :=
  c.take (c.parsed.setTokens tokens)

def setVariable (c : Calculator) (name : String) (v : Value) : Calculator :=
  { c with bindings := c.bindings.set name v }

def clear (c : Calculator) : Calculator := { c with parsed := c.parsed.clear, bindings := {} }

def evaluateWith (c : Calculator) (vs : Variables) (functions : Functions) : Result :=
  Environment.evaluate ⟨vs.value?, functions.find?, c.strategy⟩ c.parsed.program

def evaluate (c : Calculator) : Result := c.evaluateWith c.bindings c.functions

end Calculator

end Formula
