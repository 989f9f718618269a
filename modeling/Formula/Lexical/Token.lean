import Formula.Text.Quoted
import Formula.Text.Reader

/-!
# Tokens and symbols

A token is a piece of text with its kind and the position of its first character. Tokens
are compared by kind and text, wherever they stand.

The symbols of a language are kept by their first characters: the symbols that begin with one
character hang below it, and characters that may follow one another stand side by side. A
walk down the tree along a text finds the longest symbol that the text begins with.
-/

namespace Formula

inductive TokenKind
  | unknown
  | eof
  | symbol
  /-- An integer or a float, when the tokenizer does not tell them apart. -/
  | number
  | integer
  | float
  | quoted
  | word
  | keyword
  | whitespace
  | comment
  | special
  deriving DecidableEq, Repr

def TokenKind.name : TokenKind → String
  | .unknown => "Unknown"
  | .eof => "Eof"
  | .symbol => "Symbol"
  | .number => "Number"
  | .integer => "Integer"
  | .float => "Float"
  | .quoted => "Quoted"
  | .word => "Word"
  | .keyword => "Keyword"
  | .whitespace => "Whitespace"
  | .comment => "Comment"
  | .special => "Special"

structure Token where
  kind : TokenKind
  text : String
  position : Text.Position
  deriving DecidableEq, Repr

namespace Token

def Same (a b : Token) : Prop := a.kind = b.kind ∧ a.text = b.text

instance (a b : Token) : Decidable (Same a b) := inferInstanceAs (Decidable (_ ∧ _))

/-- Kind, escaped text and place of the token on one line. -/
def describe (t : Token) : String :=
  let text := Text.Escaped.encode t.text
  s!"{t.kind.name} {text} ({t.position.line}:{t.position.column})"

end Token

inductive SymbolTree
  | leaf
  /-- Symbols that go on with `lead`, among them `lead` itself if it has a kind, and beside
  them those that go on with other characters. -/
  | branch (lead : Char) (kind : Option TokenKind) (below beside : SymbolTree)
  deriving DecidableEq, Repr

namespace SymbolTree

/-- What hangs below a character: the kind of the symbol ending there, and longer ones. -/
def child? (t : SymbolTree) (c : Char) : Option (Option TokenKind × SymbolTree) :=
  match t with
  | leaf => none
  | branch d kind below beside => if c = d then some (kind, below) else beside.child? c

/-- Replaces what hangs below a character, which starts out as nothing. -/
def adjust (c : Char) (f : Option TokenKind → SymbolTree → Option TokenKind × SymbolTree) :
    SymbolTree → SymbolTree
  | leaf =>
    let (kind, below) := f none leaf
    branch c kind below leaf
  | branch d kind below beside =>
    if c = d then
      let (kind, below) := f kind below
      branch d kind below beside
    else branch d kind below (adjust c f beside)

/-- Adds a symbol, in place of the same symbol with another kind. The empty one is none. -/
def add (kind : TokenKind) : List Char → SymbolTree → SymbolTree
  | [], t => t
  | [c], t => t.adjust c fun _ below => (some kind, below)
  | c :: d :: cs, t => t.adjust c fun old below => (old, add kind (d :: cs) below)

def ofList (symbols : List (List Char × TokenKind)) : SymbolTree :=
  symbols.foldl (fun t (symbol, kind) => t.add kind symbol) leaf

def kind? (t : SymbolTree) : List Char → Option TokenKind
  | [] => none
  | [c] => (t.child? c).bind (·.1)
  | c :: d :: cs => (t.child? c).bind fun (_, below) => below.kind? (d :: cs)

/-- The length and kind of the longest symbol that the text begins with. -/
def longest? (t : SymbolTree) : List Char → Option (Nat × TokenKind)
  | [] => none
  | c :: cs =>
    match t.child? c with
    | none => none
    | some (kind, below) =>
      match below.longest? cs with
      | some (n, k) => some (n + 1, k)
      | none => kind.map fun k => (1, k)

theorem child?_adjust (c d : Char)
    (f : Option TokenKind → SymbolTree → Option TokenKind × SymbolTree) (t : SymbolTree) :
    (t.adjust c f).child? d =
      if d = c then
        match t.child? c with
        | some (kind, below) => some (f kind below)
        | none => some (f none leaf)
      else t.child? d := by
  induction t with
  | leaf => by_cases h : d = c <;> simp [adjust, child?, h]
  | branch e kind below beside _ ih =>
    by_cases hc : c = e
    · subst hc
      by_cases hd : d = c <;> simp [adjust, child?, hd]
    · by_cases hd : d = e
      · subst hd
        have : ¬ d = c := fun h => hc h.symm
        simp [adjust, child?, hc, this]
      · simp [adjust, child?, hc, hd, ih]

end SymbolTree

end Formula
