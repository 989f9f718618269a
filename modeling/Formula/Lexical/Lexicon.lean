import Formula.Lexical.Rules

/-!
# Lexicons

A lexicon says which rule takes over at which character and holds the choices that the
rules depend on. There are two ready ones, a general one and the one of formulas.
-/

namespace Formula

inductive RuleName
  | whitespace | word | number | quote | comment | symbol
  deriving DecidableEq, Repr

inductive NumberRule
  | plain
  | scientific
  deriving DecidableEq, Repr

inductive QuoteRule
  | plain
  /-- Double quotes hold words. -/
  | words
  deriving DecidableEq, Repr

inductive CommentRule
  | line
  | block
  | blockOrLine
  deriving DecidableEq, Repr

structure Lexicon where
  routes : Text.CharMap RuleName
  blanks : Text.CharMap Bool
  word : WordRule
  number : NumberRule
  quote : QuoteRule
  comment : CommentRule
  symbols : SymbolTree

namespace Lexicon

def usualBlanks : Text.CharMap Bool := Text.CharMap.empty.set 0 0x20 true

/-- Letters, digits, the underscore, and everything from `À` to the end of the first plane. -/
def usualLetters : Text.CharMap Bool :=
  Text.CharMap.empty
    |>.set 'a'.toNat 'z'.toNat true
    |>.set 'A'.toNat 'Z'.toNat true
    |>.set '0'.toNat '9'.toNat true
    |>.set '_'.toNat '_'.toNat true
    |>.set 0xc0 0xfffe true

def symbolsOf (symbols : List String) : SymbolTree :=
  .ofList (symbols.map fun s => (s.toList, .symbol))

/-- The plain rules, with no character led to any of them. -/
def unrouted : Lexicon where
  routes := .empty
  blanks := usualBlanks
  word := { letters := usualLetters }
  number := .plain
  quote := .plain
  comment := .line
  symbols := symbolsOf ["<>", "<=", ">=", "!=", "==", "&&", "||", ":="]

def route (l : Lexicon) (first last : Nat) (rule : RuleName) : Lexicon :=
  { l with routes := l.routes.set first last rule }

/-- The routes that all ready lexicons share. -/
def usualRoutes : Text.CharMap RuleName :=
  Text.CharMap.empty
    |>.set 0 0xff .symbol
    |>.set 0 0x20 .whitespace
    |>.set 'a'.toNat 'z'.toNat .word
    |>.set 'A'.toNat 'Z'.toNat .word
    |>.set '_'.toNat '_'.toNat .word
    |>.set 0xc0 0xfffe .word
    |>.setChar '.' .number
    |>.set '0'.toNat '9'.toNat .number
    |>.setChar '"' .quote
    |>.setChar '\'' .quote

def general : Lexicon :=
  { unrouted with routes := usualRoutes |>.setChar '-' .number |>.setChar '#' .comment }

/-- The lexicon of formulas: a minus is always a symbol, numbers may have an exponent,
reserved words are told apart, and double quotes hold words. -/
def formulas : Lexicon where
  routes := usualRoutes.setChar '/' .comment
  blanks := usualBlanks
  word := { letters := usualLetters, reserved := true }
  number := .scientific
  quote := .words
  comment := .blockOrLine
  symbols := symbolsOf ["<=", ">=", "<>", "!=", ">>", "<<"]

def apply (l : Lexicon) (rule : RuleName) (cs : List Char) : LexemeResult :=
  match rule with
  | .whitespace => whitespaceRule l.blanks cs
  | .word => l.word.apply cs
  | .number =>
    match l.number with
    | .plain => plainNumberRule l.symbols cs
    | .scientific => scientificNumberRule l.symbols cs
  | .quote =>
    match l.quote with
    | .plain => quotedRule cs
    | .words => quotedWordRule cs
  | .comment =>
    match l.comment with
    | .line => lineCommentRule cs
    | .block => slashCommentRule l.symbols false cs
    | .blockOrLine => slashCommentRule l.symbols true cs
  | .symbol => symbolRule l.symbols cs

/-- The next lexeme of a text. A character without a rule is unknown, and a text that is
used up has an empty last lexeme. -/
def next (l : Lexicon) (cs : List Char) : LexemeResult :=
  match cs with
  | [] => .ok ⟨.eof, [], []⟩
  | c :: _ =>
    match l.routes.lookup c with
    | some rule => l.apply rule cs
    | none => .ok ⟨.unknown, [c], [c]⟩

end Lexicon

end Formula
