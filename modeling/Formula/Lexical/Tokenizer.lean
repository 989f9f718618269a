import Formula.Lexical.Lexicon

/-!
# Tokenizers

A tokenizer takes tokens off a text one by one, under a lexicon and a choice of options.
It can look one token ahead. The options leave out some tokens and change others; they act
on each token as it comes, and whitespace is merged with the whitespace that was given out
last. A token that is left out must have taken something off the text; otherwise the
tokenizer would stand still, and it says so.
-/

namespace Formula

structure TokenOptions where
  skipUnknown : Bool := false
  skipWhitespace : Bool := false
  skipComments : Bool := false
  skipEof : Bool := false
  mergeWhitespace : Bool := false
  unifyNumbers : Bool := false
  decodeStrings : Bool := false
  deriving DecidableEq, Repr

namespace TokenOptions

/-- Tokens of this kind are left out, after one of the kind `last` was given out. -/
def drops (o : TokenOptions) (last : Option TokenKind) : TokenKind → Bool
  | .unknown => o.skipUnknown
  | .whitespace => o.skipWhitespace || (o.mergeWhitespace && last = some .whitespace)
  | .comment => o.skipComments
  | _ => false

/-- The token as it is given out. -/
def finish (o : TokenOptions) (t : Token) : Token :=
  match t.kind with
  | .integer => if o.unifyNumbers then { t with kind := .number } else t
  | .float => if o.unifyNumbers then { t with kind := .number } else t
  | .quoted =>
    match t.text.toList with
    | quote :: cs =>
      if o.decodeStrings then
        { t with text := String.ofList (Text.Quoted.decode quote (quote :: cs)) }
      else t
    | [] => t
  | _ => t

end TokenOptions

structure Tokenizer where
  lexicon : Lexicon
  options : TokenOptions := {}
  cursor : Text.Cursor := ⟨[], {}⟩
  ahead : Option Token := none
  last : Option TokenKind := none
  finished : Bool := false

namespace Tokenizer

def setInput (t : Tokenizer) (text : String) : Tokenizer :=
  { t with cursor := .ofString text, ahead := none, last := none, finished := false }

/-- Where the tokenizer stands after a fault: an open string has been read to the end. -/
def cursorAfter (c : Text.Cursor) : SyntaxFault → Text.Cursor
  | .unterminatedString _ => c.toEnd
  | _ => c

/-- Takes the next token off the text, past those that are left out; none at the end. -/
def advance (t : Tokenizer) : Except SyntaxError (Option Token) × Tokenizer :=
  if t.finished then (.ok none, t)
  else
    match t.lexicon.next t.cursor.rest with
    | .error fault =>
      (.error ⟨fault, t.cursor.position⟩, { t with cursor := cursorAfter t.cursor fault })
    | .ok lexeme =>
      let cursor := t.cursor.drop lexeme.raw.length
      let finished := t.cursor.rest.isEmpty
      if t.options.drops t.last lexeme.kind then
        if cursor.rest.length < t.cursor.rest.length then
          advance { t with cursor := cursor, finished := finished }
        else (.error ⟨.stalled, t.cursor.position⟩, t)
      else if lexeme.kind = .eof ∧ t.options.skipEof then
        (.ok none, { t with cursor := cursor, finished := finished })
      else
        let token := t.options.finish ⟨lexeme.kind, String.ofList lexeme.text, t.cursor.position⟩
        (.ok (some token),
          { t with cursor := cursor, finished := finished, last := some token.kind })
termination_by t.cursor.rest.length

def next (t : Tokenizer) : Except SyntaxError (Option Token) × Tokenizer :=
  match t.ahead with
  | some token => (.ok (some token), { t with ahead := none })
  | none => t.advance

def hasNext (t : Tokenizer) : Except SyntaxError Bool × Tokenizer :=
  match t.ahead with
  | some _ => (.ok true, t)
  | none =>
    match t.advance with
    | (.ok token, t) => (.ok token.isSome, { t with ahead := token })
    | (.error e, t) => (.error e, t)

/-- What is left to do: the unread text, the end that is still to be reported, and the
token looked ahead at. -/
def remaining (t : Tokenizer) : Nat :=
  2 * t.cursor.rest.length + (if t.finished then 0 else 1) + if t.ahead.isSome then 1 else 0

def tokens (t : Tokenizer) : Except SyntaxError (List Token) × Tokenizer :=
  match t.next with
  | (.error e, t') => (.error e, t')
  | (.ok none, t') => (.ok [], t')
  | (.ok (some token), t') =>
    if t'.remaining < t.remaining then
      match tokens t' with
      | (.ok more, t'') => (.ok (token :: more), t'')
      | (.error e, t'') => (.error e, t'')
    else (.error ⟨.stalled, token.position⟩, t')
termination_by t.remaining

def tokenize (t : Tokenizer) (text : String) : Except SyntaxError (List Token) × Tokenizer :=
  (t.setInput text).tokens

end Tokenizer

end Formula
