import Formula.Expression.Program
import Formula.Expression.Reading
import Formula.Lexical.Tokenizer

/-!
# Parsed formulas

A formula is kept with its text and in three forms, as tokens, as items and as a program,
and with the names of its variables. A formula that could not be read keeps its text only.
-/

namespace Formula

structure Parsed where
  expression : String := ""
  tokens : List Token := []
  items : List (Located Item) := []
  program : Program := []
  variableNames : List String := []

namespace Parsed

/-- Layout is left out and strings are decoded. -/
def options : TokenOptions :=
  { skipWhitespace := true, skipComments := true, skipEof := true, decodeStrings := true }

def tokensOf (text : String) : Except SyntaxError (List Token) :=
  (Tokenizer.tokenize { lexicon := .formulas, options := options } text).1

/-- The text of tokens one after another, strings in single quotes. -/
def compose (tokens : List Token) : String :=
  String.join (tokens.map fun t =>
    match t.kind with
    | .quoted => String.ofList (Text.Quoted.encode '\'' t.text.toList)
    | _ => t.text)

def ofTokensNamed (expression : String) (tokens : List Token) : Except SyntaxError Parsed :=
  match Item.ofTokens tokens with
  | .error e => .error e
  | .ok items =>
    match Program.ofItems items with
    | .error e => .error e
    | .ok program => .ok { expression, tokens, items, program, variableNames := Item.variableNames items }

def ofText (text : String) : Except SyntaxError Parsed :=
  match tokensOf text with
  | .error e => .error e
  | .ok tokens => ofTokensNamed text tokens

/-- The formula of some tokens; its text is made from them. -/
def ofTokens (tokens : List Token) : Except SyntaxError Parsed :=
  ofTokensNamed (compose tokens) tokens

def clearTokens (p : Parsed) : Parsed :=
  { p with tokens := [], items := [], program := [], variableNames := [] }

def clear (p : Parsed) : Parsed := clearTokens { p with expression := "" }

/-- Reads tokens in place of what was read before. -/
def parseTokens (p : Parsed) (tokens : List Token) : Parsed × Option SyntaxError :=
  match Item.ofTokens tokens with
  | .error e => (p.clearTokens, some e)
  | .ok items =>
    match Program.ofItems items with
    | .error e => (p.clearTokens, some e)
    | .ok program =>
      ({ p with tokens, items, program, variableNames := Item.variableNames items }, none)

/-- Reads a text. One that cannot be cut into tokens stays all the same. -/
def setText (p : Parsed) (text : String) : Parsed × Option SyntaxError :=
  let p := { p.clear with expression := text }
  match tokensOf text with
  | .error e => (p, some e)
  | .ok tokens => p.parseTokens tokens

def setTokens (p : Parsed) (tokens : List Token) : Parsed × Option SyntaxError :=
  { p.clear with expression := compose tokens }.parseTokens tokens

theorem parseTokens_eq (p : Parsed) (tokens : List Token) :
    p.parseTokens tokens =
      match ofTokensNamed p.expression tokens with
      | .ok q => (q, none)
      | .error e => (p.clearTokens, some e) := by
  rw [parseTokens, ofTokensNamed]
  cases Item.ofTokens tokens with
  | error e => rfl
  | ok items =>
    dsimp only
    cases Program.ofItems items with
    | error e => rfl
    | ok program => rfl

/-- Whatever was read before, what is left is the formula of the text, or the text alone. -/
theorem setText_eq (p : Parsed) (text : String) :
    p.setText text =
      match ofText text with
      | .ok q => (q, none)
      | .error e => ({ expression := text }, some e) := by
  rw [setText, ofText]
  cases tokensOf text with
  | error e => rfl
  | ok tokens => exact parseTokens_eq _ tokens

theorem setTokens_eq (p : Parsed) (tokens : List Token) :
    p.setTokens tokens =
      match ofTokens tokens with
      | .ok q => (q, none)
      | .error e => ({ expression := compose tokens }, some e) :=
  parseTokens_eq _ tokens

end Parsed

end Formula
