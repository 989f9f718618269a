import Formula.Lexical.Token
import Formula.SyntaxError
import Formula.Text.Characters
import Formula.Text.CharMap
import Formula.Text.Quoted

/-!
# Lexical rules

A rule takes one lexeme off the front of a text, or refuses. It sees the whole unread text
and says how much of it belongs to the lexeme; what it only looked at stays unread. A rule
that finds something of another sort leaves it to the symbol rule.
-/

namespace Formula

/-- A piece of text taken off by a rule: its characters and what it means. -/
structure Lexeme where
  kind : TokenKind
  raw : List Char
  text : List Char := raw
  deriving DecidableEq, Repr

abbrev LexemeResult := Except SyntaxFault Lexeme

/-- The longest symbol, or a single character if no symbol begins the text. -/
def symbolRule (symbols : SymbolTree) (cs : List Char) : LexemeResult :=
  match cs with
  | [] => .error (.misuse "symbol state")
  | c :: _ =>
    match symbols.longest? cs with
    | some (n, kind) => .ok ⟨kind, cs.take n, cs.take n⟩
    | none => .ok ⟨.symbol, [c], [c]⟩

def runOf (letters : Text.CharMap Bool) (cs : List Char) : List Char :=
  cs.takeWhile fun c => (letters.lookup c).getD false

def whitespaceRule (blanks : Text.CharMap Bool) (cs : List Char) : LexemeResult :=
  let run := runOf blanks cs
  if run = [] then .error (.misuse "whitespace state") else .ok ⟨.whitespace, run, run⟩

def keywords : List String :=
  ["AND", "OR", "XOR", "NOT", "IN", "IS", "NULL", "LIKE", "TRUE", "FALSE"]

def isKeyword (word : String) : Bool :=
  keywords.any fun k => decide (Text.AsciiCase.Same k word)

/-- The letters of words, and whether reserved words are told apart. -/
structure WordRule where
  letters : Text.CharMap Bool
  reserved : Bool := false

def WordRule.apply (rule : WordRule) (cs : List Char) : LexemeResult :=
  let run := runOf rule.letters cs
  if run = [] then .error (.misuse "word state")
  else if rule.reserved && isKeyword (String.ofList run) then .ok ⟨.keyword, run, run⟩
  else .ok ⟨.word, run, run⟩

def spanDigits (cs : List Char) : List Char × List Char :=
  (cs.takeWhile Char.isDigit, cs.dropWhile Char.isDigit)

/-- An optional minus, digits, and a point with digits behind it; there are digits before
or behind the point. A minus or a point without digits is a symbol. -/
def plainNumberRule (symbols : SymbolTree) (cs : List Char) : LexemeResult :=
  let (sign, body) :=
    match cs with
    | '-' :: r => (['-'], r)
    | _ => ([], cs)
  let (whole, rest) := spanDigits body
  match rest with
  | '.' :: r =>
    let (fraction, _) := spanDigits r
    if whole = [] ∧ fraction = [] then symbolRule symbols cs
    else
      let run := sign ++ whole ++ '.' :: fraction
      .ok ⟨.float, run, run⟩
  | _ =>
    if whole = [] then
      if sign = [] then .error .notNumeric else symbolRule symbols cs
    else .ok ⟨.integer, sign ++ whole, sign ++ whole⟩

/-- An exponent mark with an optional sign and at least one digit, or nothing. -/
def exponentRun : List Char → List Char
  | [] => []
  | mark :: r =>
    if mark = 'e' ∨ mark = 'E' then
      let (sign, r) :=
        match r with
        | '+' :: r => (['+'], r)
        | '-' :: r => (['-'], r)
        | r => ([], r)
      let (ds, _) := spanDigits r
      if ds = [] then [] else mark :: sign ++ ds
    else []

/-- A plain number without a sign, and an exponent if one is complete. -/
def scientificNumberRule (symbols : SymbolTree) (cs : List Char) : LexemeResult :=
  if cs.head? = some '-' then symbolRule symbols cs
  else
    match plainNumberRule symbols cs with
    | .error e => .error e
    | .ok l =>
      if l.kind = .integer ∨ l.kind = .float then
        let e := exponentRun (cs.drop l.raw.length)
        if e = [] then .ok l else .ok ⟨.float, l.raw ++ e, l.text ++ e⟩
      else .ok l

/-- Text up to the closing quote, the first character being the quote. -/
def quotedRule (cs : List Char) : LexemeResult :=
  match cs with
  | [] => .error (.misuse "quote state")
  | quote :: r =>
    match Text.Quoted.scan? quote r with
    | some (body, _) => .ok ⟨.quoted, quote :: body, quote :: body⟩
    | none => .error (.unterminatedString quote)

/-- Text in double quotes is a word, whatever its characters. -/
def quotedWordRule (cs : List Char) : LexemeResult :=
  match quotedRule cs with
  | .error e => .error e
  | .ok l =>
    if cs.head? = some '"' then .ok ⟨.word, l.raw, Text.Quoted.decode '"' l.raw⟩ else .ok l

def isLineEnd (c : Char) : Bool := c = '\n' || c = '\r'

def lineRun (cs : List Char) : List Char := cs.takeWhile fun c => !isLineEnd c

/-- The rest of a block comment up to and with its end, or all of an open one; `star` tells
whether the character before was a star of its body. -/
def blockRun (star : Bool) : List Char → List Char
  | [] => []
  | c :: cs => if star && c = '/' then [c] else c :: blockRun (c = '*') cs

/-- Everything to the end of the line, whatever it starts with. -/
def lineCommentRule (cs : List Char) : LexemeResult :=
  .ok ⟨.comment, lineRun cs, lineRun cs⟩

/-- A block between slash and star, or, if `lines` is set, a line after two slashes. A
slash before anything else is a symbol. -/
def slashCommentRule (symbols : SymbolTree) (lines : Bool) (cs : List Char) : LexemeResult :=
  match cs with
  | '/' :: '*' :: r =>
    let run := '/' :: '*' :: blockRun false r
    .ok ⟨.comment, run, run⟩
  | '/' :: '/' :: r =>
    if lines then
      let run := '/' :: '/' :: lineRun r
      .ok ⟨.comment, run, run⟩
    else symbolRule symbols cs
  | '/' :: _ => symbolRule symbols cs
  | _ => .error (.misuse (if lines then "C++ comment state" else "C comment state"))

end Formula
