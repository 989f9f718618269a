/-!
# Reading a text

Lines and columns count from one and count characters. Only a line feed starts a new line, so a carriage
return is a character of its line like any other. A cursor is the unread part of a text with the position of
its first character. A reader can take characters back without a limit: they are read again before the text
goes on, the last one first. It remembers where each character it handed out stood, so a character that is
put back regains its position; one put back with nothing to remember takes the position of the character in
front of which it lands.
-/

namespace Formula.Text

structure Position where
  line : Nat := 1
  column : Nat := 1
  deriving DecidableEq, Repr, Inhabited

namespace Position

def advance (p : Position) (c : Char) : Position :=
  if c = '\n' then ⟨p.line + 1, 1⟩ else ⟨p.line, p.column + 1⟩

def advanceAll (p : Position) (cs : List Char) : Position :=
  cs.foldl advance p

@[simp] theorem advanceAll_nil (p : Position) : p.advanceAll [] = p := rfl

@[simp] theorem advanceAll_cons (p : Position) (c : Char) (cs : List Char) :
    p.advanceAll (c :: cs) = (p.advance c).advanceAll cs := rfl

@[simp] theorem advanceAll_append (p : Position) (xs ys : List Char) :
    p.advanceAll (xs ++ ys) = (p.advanceAll xs).advanceAll ys := by
  simp [advanceAll]

theorem advance_newline (p : Position) : p.advance '\n' = ⟨p.line + 1, 1⟩ := rfl

theorem advance_of_ne {c : Char} (h : c ≠ '\n') (p : Position) :
    p.advance c = ⟨p.line, p.column + 1⟩ := by
  simp [advance, h]

/-- The position just past `cs`, for a text that begins with `cs`. -/
def after (cs : List Char) : Position :=
  advanceAll {} cs

theorem after_append (xs ys : List Char) : after (xs ++ ys) = (after xs).advanceAll ys :=
  advanceAll_append _ xs ys

def describe (p : Position) : String :=
  s!"line {p.line}, column {p.column}"

end Position

structure Cursor where
  rest : List Char
  position : Position := {}
  deriving DecidableEq, Repr

namespace Cursor

def ofString (text : String) : Cursor := ⟨text.toList, {}⟩

/-- The cursor after `n` characters, or at the end of a shorter text. -/
def drop (c : Cursor) (n : Nat) : Cursor :=
  ⟨c.rest.drop n, c.position.advanceAll (c.rest.take n)⟩

def toEnd (c : Cursor) : Cursor :=
  ⟨[], c.position.advanceAll c.rest⟩

@[simp] theorem drop_zero (c : Cursor) : c.drop 0 = c := by
  simp [drop]

theorem drop_append (xs ys : List Char) (p : Position) :
    (⟨xs ++ ys, p⟩ : Cursor).drop xs.length = ⟨ys, p.advanceAll xs⟩ := by
  simp [drop]

theorem toEnd_eq_drop (c : Cursor) : c.toEnd = c.drop c.rest.length := by
  simp [toEnd, drop]

theorem length_rest_drop (c : Cursor) (n : Nat) :
    (c.drop n).rest.length = c.rest.length - n := by
  simp [drop]

end Cursor

structure Reader where
  source : Cursor
  /-- Characters put back and not yet read again, the next one first. -/
  pending : List (Char × Position) := []
  /-- Positions of the characters handed out and not put back, the latest first. -/
  history : List Position := []
  deriving Repr

namespace Reader

def ofString (text : String) : Reader := { source := .ofString text }

def unread (r : Reader) : List Char :=
  r.pending.map (·.1) ++ r.source.rest

def position (r : Reader) : Position :=
  match r.pending with
  | (_, p) :: _ => p
  | [] => r.source.position

def peek (r : Reader) : Option Char := r.unread.head?

def read (r : Reader) : Option Char × Reader :=
  match r.pending with
  | (c, p) :: rest => (some c, { r with pending := rest, history := p :: r.history })
  | [] =>
    match r.source.rest with
    | [] => (none, r)
    | c :: _ =>
      (some c, { r with source := r.source.drop 1, history := r.source.position :: r.history })

def unreadChar (r : Reader) (c : Char) : Reader :=
  match r.history with
  | p :: older => { r with pending := (c, p) :: r.pending, history := older }
  | [] => { r with pending := (c, r.position) :: r.pending }

/-- Puts a character back; putting back the end of the text does nothing. -/
def pushBack (r : Reader) : Option Char → Reader
  | some c => r.unreadChar c
  | none => r

/-- Puts characters back so that the first of them is read next. -/
def pushBackAll (r : Reader) (cs : List Char) : Reader :=
  cs.foldr (fun c r => r.unreadChar c) r

theorem unread_ofString (text : String) : (ofString text).unread = text.toList := by
  simp [ofString, unread, Cursor.ofString]

theorem unread_unreadChar (r : Reader) (c : Char) :
    (r.unreadChar c).unread = c :: r.unread := by
  unfold unreadChar
  split <;> simp [unread]

theorem unread_pushBackAll (r : Reader) (cs : List Char) :
    (r.pushBackAll cs).unread = cs ++ r.unread := by
  induction cs with
  | nil => rfl
  | cons c cs ih =>
    simp only [pushBackAll, List.foldr_cons, unread_unreadChar, List.cons_append]
    exact congrArg (c :: ·) ih

theorem read_fst (r : Reader) : r.read.1 = r.unread.head? := by
  rcases hp : r.pending with _ | ⟨⟨c, p⟩, rest⟩
  · rcases hs : r.source.rest with _ | ⟨c, cs⟩ <;> simp [read, unread, hp, hs]
  · simp [read, unread, hp]

theorem unread_read (r : Reader) : r.read.2.unread = r.unread.tail := by
  rcases hp : r.pending with _ | ⟨⟨c, p⟩, rest⟩
  · rcases hs : r.source.rest with _ | ⟨c, cs⟩ <;> simp [read, unread, hp, hs, Cursor.drop]
  · simp [read, unread, hp]

end Reader

end Formula.Text
