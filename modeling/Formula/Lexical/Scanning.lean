import Formula.Lexical.Tokenizer
import Formula.Text.Reader

/-!
# Scanning from a reader

The rules as they work on a reader, and a tokenizer that works with them. A rule reads ahead until it has seen
where its lexeme ends, and then puts back what it has read past the end. Quoted text looks no further than one
character ahead and puts nothing back.
-/

namespace Formula

open Text

theorem Text.Reader.length_unread_read {r : Reader} {c : Char} (h : r.unread.head? = some c) :
    r.read.2.unread.length < r.unread.length := by
  obtain ⟨cs, hcs⟩ := List.head?_eq_some_iff.mp h
  rw [Reader.unread_read, hcs]
  exact Nat.lt_succ_self cs.length

theorem Text.Reader.length_unread_of_read {r r' : Reader} {c : Char} (h : r.read = (some c, r')) :
    r'.unread.length < r.unread.length := by
  have hlength := length_unread_read (by rw [← read_fst, h])
  rwa [h] at hlength

def scanDigits (r : Reader) : List Char × Reader :=
  match _ : r.peek with
  | some c =>
    if c.isDigit then
      let (ds, r) := scanDigits r.read.2
      (c :: ds, r)
    else ([], r)
  | none => ([], r)
termination_by r.unread.length
decreasing_by exact Reader.length_unread_read ‹_›

/-- Reads the characters of one sort that come next, and the one behind them, which is put back. -/
def scanWhile (sort : Char → Bool) (r : Reader) : List Char × Reader :=
  match _ : r.read with
  | (none, r) => ([], r)
  | (some c, r) =>
    if sort c then
      let (cs, r) := scanWhile sort r
      (c :: cs, r)
    else ([], r.unreadChar c)
termination_by r.unread.length
decreasing_by exact Reader.length_unread_of_read ‹_›

def scanRun (letters : CharMap Bool) (r : Reader) : List Char × Reader :=
  scanWhile (fun c => (letters.lookup c).getD false) r

def scanWhitespace (blanks : CharMap Bool) (r : Reader) : LexemeResult × Reader :=
  let (run, r) := scanRun blanks r
  if run = [] then (.error (.misuse "whitespace state"), r) else (.ok ⟨.whitespace, run, run⟩, r)

def WordRule.scan (rule : WordRule) (r : Reader) : LexemeResult × Reader :=
  let (run, r) := scanRun rule.letters r
  if run = [] then (.error (.misuse "word state"), r)
  else if rule.reserved && isKeyword (String.ofList run) then (.ok ⟨.keyword, run, run⟩, r)
  else (.ok ⟨.word, run, run⟩, r)

/-- How far a walk down a tree has come: the characters read, how many of them make up the longest symbol
so far, and the kind of that symbol. -/
structure Walk where
  seen : List Char
  length : Nat
  kind : TokenKind

/-- One character further, which may be the last one of a symbol. -/
def Walk.step (w : Walk) (c : Char) (kind : Option TokenKind) : Walk :=
  let seen := w.seen ++ [c]
  match kind with
  | some k => ⟨seen, seen.length, k⟩
  | none => { w with seen }

namespace SymbolTree

/-- Goes down the tree as long as the characters read lead on. -/
def walk (below : SymbolTree) (w : Walk) (r : Reader) : Walk × Reader :=
  match _ : r.read with
  | (none, r) => (w, r)
  | (some c, r) =>
    match below.child? c with
    | some (kind, below) => below.walk (w.step c kind) r
    | none => (w, r.unreadChar c)
termination_by r.unread.length
decreasing_by exact Reader.length_unread_of_read ‹_›

/-- Takes the longest symbol off the reader, or one character where no symbol stands. There is nothing
to take at the end. -/
def scan (t : SymbolTree) (r : Reader) : Option Lexeme × Reader :=
  match r.read with
  | (none, r) => (none, r)
  | (some c, r) =>
    let (w, r) :=
      match t.child? c with
      | some (kind, below) => below.walk ⟨[c], 1, kind.getD .symbol⟩ r
      | none => (⟨[c], 1, .symbol⟩, r)
    let symbol := w.seen.take w.length
    (some ⟨w.kind, symbol, symbol⟩, r.pushBackAll (w.seen.drop w.length))

end SymbolTree

def scanSymbol (symbols : SymbolTree) (r : Reader) : LexemeResult × Reader :=
  match symbols.scan r with
  | (some x, r) => (.ok x, r)
  | (none, r) => (.error (.misuse "symbol state"), r)

/-- Digits, and a point with digits behind it, after a sign that has been read. What turns out to be no
number is put back and read as a symbol. -/
def scanAfterSign (symbols : SymbolTree) (sign : List Char) (r : Reader) : LexemeResult × Reader :=
  let (whole, r) := scanDigits r
  if r.peek = some '.' then
    let (fraction, r) := scanDigits r.read.2
    if whole = [] ∧ fraction = [] then
      scanSymbol symbols ((r.unreadChar '.').pushBackAll sign)
    else
      let run := sign ++ whole ++ '.' :: fraction
      (.ok ⟨.float, run, run⟩, r)
  else if whole = [] then
    if sign = [] then (.error .notNumeric, r) else scanSymbol symbols (r.pushBackAll sign)
  else (.ok ⟨.integer, sign ++ whole, sign ++ whole⟩, r)

/-- A plain number, with a minus if there is one. -/
def scanPlainNumber (symbols : SymbolTree) (r : Reader) : LexemeResult × Reader :=
  if r.peek = some '-' then scanAfterSign symbols ['-'] r.read.2 else scanAfterSign symbols [] r

def scanSign (r : Reader) : List Char × Reader :=
  match r.peek with
  | some '+' => (['+'], r.read.2)
  | some '-' => (['-'], r.read.2)
  | _ => ([], r)

/-- Reads an exponent with its mark, or puts back the mark and the sign of one that has no digits. -/
def scanExponent (r : Reader) : List Char × Reader :=
  match r.peek with
  | some mark =>
    if mark = 'e' ∨ mark = 'E' then
      let (sign, r) := scanSign r.read.2
      let (ds, r) := scanDigits r
      if ds = [] then ([], r.pushBackAll (mark :: sign)) else (mark :: sign ++ ds, r)
    else ([], r)
  | none => ([], r)

/-- A plain number without a sign, and an exponent if one is complete. -/
def scanScientificNumber (symbols : SymbolTree) (r : Reader) : LexemeResult × Reader :=
  if r.peek = some '-' then scanSymbol symbols r
  else
    match scanPlainNumber symbols r with
    | (.error e, r) => (.error e, r)
    | (.ok x, r) =>
      if x.kind = .integer ∨ x.kind = .float then
        let (e, r) := scanExponent r
        if e = [] then (.ok x, r) else (.ok ⟨.float, x.raw ++ e, x.text ++ e⟩, r)
      else (.ok x, r)

/-- Reads up to and with the quote that closes the text, or to the end if none does. Of two quotes in a row
the second is seen before it is read. -/
def scanToQuote (q : Char) (r : Reader) : Option (List Char) × Reader :=
  match _ : r.read with
  | (none, r) => (none, r)
  | (some c, r₁) =>
    if c = q then
      if r₁.peek = some q then
        let (body, r) := scanToQuote q r₁.read.2
        (body.map fun body => c :: q :: body, r)
      else (some [c], r₁)
    else
      let (body, r) := scanToQuote q r₁
      (body.map fun body => c :: body, r)
termination_by r.unread.length
decreasing_by
  · exact Nat.lt_trans (Reader.length_unread_read ‹_›) (Reader.length_unread_of_read ‹r.read = _›)
  · exact Reader.length_unread_of_read ‹r.read = _›

def scanQuoted (r : Reader) : LexemeResult × Reader :=
  match r.read with
  | (none, r) => (.error (.misuse "quote state"), r)
  | (some quote, r) =>
    match scanToQuote quote r with
    | (some body, r) => (.ok ⟨.quoted, quote :: body, quote :: body⟩, r)
    | (none, r) => (.error (.unterminatedString quote), r)

/-- A text in quotes, which is a word if the quotes are double ones. -/
def scanQuotedWord (r : Reader) : LexemeResult × Reader :=
  if r.peek = some '"' then
    match scanQuoted r with
    | (.ok x, r) => (.ok ⟨.word, x.raw, Quoted.decode '"' x.raw⟩, r)
    | (.error e, r) => (.error e, r)
  else scanQuoted r

/-- Reads up to the end of the line, which is put back. -/
def scanLine (r : Reader) : List Char × Reader :=
  scanWhile (fun c => !isLineEnd c) r

/-- Reads up to and with a slash behind a star, or to the end; `last` is what was read before. -/
def scanBlock (last : Option Char) (r : Reader) : List Char × Reader :=
  match _ : r.read with
  | (none, r) => ([], r)
  | (some c, r) =>
    if last = some '*' ∧ c = '/' then ([c], r)
    else
      let (cs, r) := scanBlock (some c) r
      (c :: cs, r)
termination_by r.unread.length
decreasing_by exact Reader.length_unread_of_read ‹_›

def scanLineComment (r : Reader) : LexemeResult × Reader :=
  let (line, r) := scanLine r
  (.ok ⟨.comment, line, line⟩, r)

/-- Looks at two characters. If they begin no comment, they are put back, and a slash is read as a symbol. -/
def scanSlashComment (symbols : SymbolTree) (lines : Bool) (r : Reader) : LexemeResult × Reader :=
  let (first, r) := r.read
  if first = some '/' then
    let (second, r) := r.read
    if second = some '*' then
      let (body, r) := scanBlock none r
      (.ok ⟨.comment, '/' :: '*' :: body, '/' :: '*' :: body⟩, r)
    else if second = some '/' ∧ lines then
      let (line, r) := scanLine r
      (.ok ⟨.comment, '/' :: '/' :: line, '/' :: '/' :: line⟩, r)
    else scanSymbol symbols ((r.pushBack second).unreadChar '/')
  else (.error (.misuse (if lines then "C++ comment state" else "C comment state")), r.pushBack first)

namespace Lexicon

def scan (l : Lexicon) (rule : RuleName) (r : Reader) : LexemeResult × Reader :=
  match rule with
  | .whitespace => scanWhitespace l.blanks r
  | .word => l.word.scan r
  | .number =>
    match l.number with
    | .plain => scanPlainNumber l.symbols r
    | .scientific => scanScientificNumber l.symbols r
  | .quote =>
    match l.quote with
    | .plain => scanQuoted r
    | .words => scanQuotedWord r
  | .comment =>
    match l.comment with
    | .line => scanLineComment r
    | .block => scanSlashComment l.symbols false r
    | .blockOrLine => scanSlashComment l.symbols true r
  | .symbol => scanSymbol l.symbols r

def scanNext (l : Lexicon) (r : Reader) : LexemeResult × Reader :=
  match r.peek with
  | none => (.ok ⟨.eof, [], []⟩, r)
  | some c =>
    match l.routes.lookup c with
    | some rule => l.scan rule r
    | none => (.ok ⟨.unknown, [c], [c]⟩, r.read.2)

end Lexicon

/-- A tokenizer that reads its text from a reader. -/
structure Scanner where
  lexicon : Lexicon
  options : TokenOptions := {}
  reader : Reader := .ofString ""
  ahead : Option Token := none
  last : Option TokenKind := none
  finished : Bool := false

namespace Scanner

def setInput (s : Scanner) (text : String) : Scanner :=
  { s with reader := .ofString text, ahead := none, last := none, finished := false }

/-- Takes the next token off the reader, past those that are left out; none at the end. -/
def advance (s : Scanner) : Except SyntaxError (Option Token) × Scanner :=
  if s.finished then (.ok none, s)
  else
    match s.lexicon.scanNext s.reader with
    | (.error fault, r) => (.error ⟨fault, s.reader.position⟩, { s with reader := r })
    | (.ok lexeme, r) =>
      let finished := s.reader.peek.isNone
      if s.options.drops s.last lexeme.kind then
        if r.unread.length < s.reader.unread.length then
          advance { s with reader := r, finished := finished }
        else (.error ⟨.stalled, s.reader.position⟩, s)
      else if lexeme.kind = .eof ∧ s.options.skipEof then
        (.ok none, { s with reader := r, finished := finished })
      else
        let token := s.options.finish ⟨lexeme.kind, String.ofList lexeme.text, s.reader.position⟩
        (.ok (some token), { s with reader := r, finished := finished, last := some token.kind })
termination_by s.reader.unread.length

def next (s : Scanner) : Except SyntaxError (Option Token) × Scanner :=
  match s.ahead with
  | some token => (.ok (some token), { s with ahead := none })
  | none => s.advance

def hasNext (s : Scanner) : Except SyntaxError Bool × Scanner :=
  match s.ahead with
  | some _ => (.ok true, s)
  | none =>
    match s.advance with
    | (.ok token, s) => (.ok token.isSome, { s with ahead := token })
    | (.error e, s) => (.error e, s)

def remaining (s : Scanner) : Nat :=
  2 * s.reader.unread.length + (if s.finished then 0 else 1) + if s.ahead.isSome then 1 else 0

def tokens (s : Scanner) : Except SyntaxError (List Token) × Scanner :=
  match s.next with
  | (.error e, s') => (.error e, s')
  | (.ok none, s') => (.ok [], s')
  | (.ok (some token), s') =>
    if s'.remaining < s.remaining then
      match tokens s' with
      | (.ok more, s'') => (.ok (token :: more), s'')
      | (.error e, s'') => (.error e, s'')
    else (.error ⟨.stalled, token.position⟩, s')
termination_by s.remaining

def tokenize (s : Scanner) (text : String) : Except SyntaxError (List Token) × Scanner :=
  (s.setInput text).tokens

end Scanner

end Formula
