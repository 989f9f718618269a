import Formula.Proofs.Lexical.LookAhead
import Formula.Proofs.Lexical.Scanning

/-!
# Tokenizers on a reader

A tokenizer that cuts lexemes off the unread text and one that reads the characters and puts some of them
back answer every request alike. What relates the two is the tape of the reader: it is the tape of a text of
which the unread part is what the other tokenizer has in front of it.
-/

namespace Formula

open Text

theorem Text.Tape.pass_ofText_take (before rest : List Char) (n : Nat) :
    (Tape.ofText before rest).pass n = .ofText (before ++ rest.take n) (rest.drop n) := by
  obtain hle | hle := Nat.le_total n rest.length
  · have hpass := Tape.pass_ofText before (rest.take n) (rest.drop n)
    rwa [List.take_append_drop, List.length_take, Nat.min_eq_left hle] at hpass
  · have hlength : (placed ((Position.after before)) rest).length ≤ n := by rwa [length_placed]
    rw [List.take_of_length_le hle, List.drop_of_length_le hle]
    simp only [Tape.pass, Tape.ofText, List.drop_of_length_le hlength, List.take_of_length_le hlength,
      placed_append, List.map_append, List.reverse_append, List.append_nil]
    rfl

namespace Text.Reader

/-- A reader stands where a cursor stands in a text, whatever it has kept aside. -/
def At (r : Reader) (c : Cursor) : Prop :=
  ∃ before, r.tape = .ofText before c.rest ∧ c.position = .after before

variable {r r' : Reader} {c : Cursor} {n : Nat}

theorem at_ofString (text : String) : (ofString text).At (.ofString text) := ⟨[], rfl, rfl⟩

theorem At.unread_eq (h : r.At c) : r.unread = c.rest := by
  obtain ⟨before, htape, -⟩ := h
  rw [← chars_tape, htape, Tape.chars_ofText]

theorem At.position_eq (h : r.At c) : r.position = c.position := by
  obtain ⟨before, htape, hposition⟩ := h
  rw [← position_tape, htape, Tape.position_ofText, hposition]

theorem At.isNone_peek (h : r.At c) : r.peek.isNone = c.rest.isEmpty := by
  rw [peek, h.unread_eq]
  cases c.rest <;> rfl

theorem At.drop (h : r.At c) (hr : r'.tape = r.tape.pass n) : r'.At (c.drop n) := by
  obtain ⟨before, htape, hposition⟩ := h
  refine ⟨before ++ c.rest.take n, by rw [hr, htape, Tape.pass_ofText_take]; rfl, ?_⟩
  rw [Position.after_append, ← hposition]
  rfl

end Text.Reader

theorem Tokenizer.cursorAfter_eq_drop (c : Cursor) (fault : SyntaxFault) :
    cursorAfter c fault = c.drop (LexemeResult.taken c.rest (.error fault)) := by
  cases fault with
  | unterminatedString _ => exact c.toEnd_eq_drop
  | _ => exact c.drop_zero.symm

namespace Scanner

/-- The tokenizer that has come as far as a scanner. -/
def withCursor (s : Scanner) (c : Cursor) : Tokenizer where
  lexicon := s.lexicon
  options := s.options
  cursor := c
  ahead := s.ahead
  last := s.last
  finished := s.finished

variable {s : Scanner} {c : Cursor}

theorem advance_withCursor {s : Scanner} {c : Cursor} (h : s.reader.At c) :
    ∃ c', s.advance.2.reader.At c' ∧
      (s.withCursor c).advance = (s.advance.1, s.advance.2.withCursor c') := by
  have hsame : (s.withCursor c).finished = s.finished := rfl
  rw [Scanner.advance.eq_def, Tokenizer.advance.eq_def]
  by_cases hfinished : s.finished = true
  · rw [if_pos hfinished, if_pos (hsame.trans hfinished)]
    exact ⟨c, h, rfl⟩
  rw [if_neg hfinished, if_neg (hsame ▸ hfinished), h.position_eq, h.isNone_peek, h.unread_eq]
  obtain ⟨hresult, htape⟩ := s.lexicon.scanNext_scans s.reader
  rw [h.unread_eq] at hresult htape
  have hpass := h.drop htape
  generalize s.lexicon.scanNext s.reader = scanned at *
  obtain ⟨result, r⟩ := scanned
  dsimp only [withCursor] at hresult hpass ⊢
  subst hresult
  cases hnext : s.lexicon.next c.rest with
  | error fault =>
    rw [hnext, ← Tokenizer.cursorAfter_eq_drop] at hpass
    exact ⟨_, hpass, rfl⟩
  | ok x =>
    rw [hnext] at hpass
    dsimp only
    rw [hpass.unread_eq, LexemeResult.taken]
    by_cases hdrops : s.options.drops s.last x.kind = true
    · by_cases hless : (c.drop x.raw.length).rest.length < c.rest.length
      · simp only [hdrops, hless, if_true]
        exact advance_withCursor (s := { s with reader := r, finished := c.rest.isEmpty }) hpass
      · simp only [hdrops, hless, if_true, if_false]
        exact ⟨c, h, rfl⟩
    · by_cases heof : x.kind = .eof ∧ s.options.skipEof = true
      · simp only [heof]
        exact ⟨_, hpass, rfl⟩
      · simp only [hdrops, heof, if_false]
        exact ⟨_, hpass, rfl⟩
termination_by c.rest.length

theorem next_withCursor (h : s.reader.At c) :
    ∃ c', s.next.2.reader.At c' ∧ (s.withCursor c).next = (s.next.1, s.next.2.withCursor c') := by
  have hsame : (s.withCursor c).ahead = s.ahead := rfl
  unfold next Tokenizer.next
  rw [hsame]
  cases s.ahead with
  | some token => exact ⟨c, h, rfl⟩
  | none => exact advance_withCursor h

theorem hasNext_withCursor (h : s.reader.At c) :
    ∃ c', s.hasNext.2.reader.At c' ∧
      (s.withCursor c).hasNext = (s.hasNext.1, s.hasNext.2.withCursor c') := by
  have hsame : (s.withCursor c).ahead = s.ahead := rfl
  unfold hasNext Tokenizer.hasNext
  rw [hsame]
  cases s.ahead with
  | some token => exact ⟨c, h, rfl⟩
  | none =>
    obtain ⟨c', hreader, hadvance⟩ := advance_withCursor h
    dsimp only
    rw [hadvance]
    generalize s.advance = advanced at *
    obtain ⟨result, s'⟩ := advanced
    cases result with
    | error e => exact ⟨c', hreader, rfl⟩
    | ok token => exact ⟨c', hreader, rfl⟩

theorem remaining_withCursor (h : s.reader.At c) : (s.withCursor c).remaining = s.remaining := by
  rw [remaining, h.unread_eq]
  rfl

theorem tokens_withCursor {s : Scanner} {c : Cursor} (h : s.reader.At c) :
    ∃ c', s.tokens.2.reader.At c' ∧
      (s.withCursor c).tokens = (s.tokens.1, s.tokens.2.withCursor c') := by
  obtain ⟨c', hreader, hnext⟩ := next_withCursor h
  rw [Scanner.tokens.eq_def, Tokenizer.tokens.eq_def, hnext, remaining_withCursor h]
  generalize s.next = given at *
  obtain ⟨result, s'⟩ := given
  match result with
  | .error e => exact ⟨c', hreader, rfl⟩
  | .ok none => exact ⟨c', hreader, rfl⟩
  | .ok (some token) =>
    dsimp only
    rw [remaining_withCursor hreader]
    split_ifs with hless
    · obtain ⟨c'', hreader', htokens⟩ := tokens_withCursor hreader
      dsimp only at htokens
      rw [htokens]
      generalize s'.tokens = more at *
      obtain ⟨result, s''⟩ := more
      cases result with
      | error e => exact ⟨c'', hreader', rfl⟩
      | ok more => exact ⟨c'', hreader', rfl⟩
    · exact ⟨c', hreader, rfl⟩
termination_by s.remaining

end Scanner

/-- What can be asked of a tokenizer. -/
inductive Tokenizer.Request
  | input (text : String)
  | options (o : TokenOptions)
  | lexicon (l : Lexicon)
  | call (c : Call)
  | all (text : String)

inductive Tokenizer.Reply
  | done
  | answer (a : Answer)
  | tokens (r : Except SyntaxError (List Token))

def Tokenizer.serve (t : Tokenizer) : Request → Reply × Tokenizer
  | .input text => (.done, t.setInput text)
  | .options o => (.done, { t with options := o })
  | .lexicon l => (.done, { t with lexicon := l })
  | .call c => (.answer (t.perform c).1, (t.perform c).2)
  | .all text => (.tokens (t.tokenize text).1, (t.tokenize text).2)

namespace Scanner

def serve (s : Scanner) : Tokenizer.Request → Tokenizer.Reply × Scanner
  | .input text => (.done, s.setInput text)
  | .options o => (.done, { s with options := o })
  | .lexicon l => (.done, { s with lexicon := l })
  | .call .hasNext => (.answer (.looked s.hasNext.1), s.hasNext.2)
  | .call .next => (.answer (.given s.next.1), s.next.2)
  | .all text => (.tokens (s.tokenize text).1, (s.tokenize text).2)

def Follows (s : Scanner) (t : Tokenizer) : Prop :=
  ∃ c, s.reader.At c ∧ t = s.withCursor c

theorem Follows.serve {s : Scanner} {t : Tokenizer} (h : s.Follows t) (request : Tokenizer.Request) :
    (s.serve request).1 = (t.serve request).1 ∧
      (s.serve request).2.Follows (t.serve request).2 := by
  obtain ⟨c, hc, rfl⟩ := h
  cases request with
  | input text => exact ⟨rfl, .ofString text, Reader.at_ofString text, rfl⟩
  | options o => exact ⟨rfl, c, hc, rfl⟩
  | lexicon l => exact ⟨rfl, c, hc, rfl⟩
  | call call =>
    cases call with
    | hasNext =>
      obtain ⟨c', hreader, hlooked⟩ := hasNext_withCursor hc
      rw [Tokenizer.serve, Tokenizer.perform, hlooked]
      exact ⟨rfl, c', hreader, rfl⟩
    | next =>
      obtain ⟨c', hreader, hgiven⟩ := next_withCursor hc
      rw [Tokenizer.serve, Tokenizer.perform, hgiven]
      exact ⟨rfl, c', hreader, rfl⟩
  | all text =>
    obtain ⟨c', hreader, htokens⟩ :=
      tokens_withCursor (s := s.setInput text) (Reader.at_ofString text)
    have hall : (s.withCursor c).tokenize text =
        ((s.tokenize text).1, (s.tokenize text).2.withCursor c') := htokens
    rw [Tokenizer.serve, hall]
    exact ⟨rfl, c', hreader, rfl⟩

/-- Whatever is asked, and in whichever order, a tokenizer on a reader answers as one that cuts lexemes off
its text, and its reader stands where the other one has come to. -/
theorem answers_eq (l : Lexicon) (o : TokenOptions) (requests : List Tokenizer.Request) :
    let s : Scanner := { lexicon := l, options := o }
    let t : Tokenizer := { lexicon := l, options := o }
    answers serve s requests = answers Tokenizer.serve t requests ∧
      (stateAfter serve s requests).Follows (stateAfter Tokenizer.serve t requests) :=
  answers_eq_of_step (fun _ _ request h => h.serve request)
    ⟨.ofString "", Reader.at_ofString "", rfl⟩ requests

end Scanner

end Formula
