import Formula.Proofs.Lexical.Splitting
import Formula.Proofs.Runs
import Formula.Proofs.Text.Tape

/-!
# Runs of a reader

A reader is a pile of characters: what is put back lies on top of what is still to come, whatever it
is. As long as only characters are put back that have been read, the last one first, the reader is a
bookmark in its text: what is in front of the bookmark has been read, and where the next character
stands is counted from that.
-/

namespace Formula.Text

/-- What can be done with a reader. -/
inductive Reader.Call
  | read
  | peek
  | pushBack (c : Option Char)
  | pushBackAll (cs : List Char)
  deriving DecidableEq, Repr

/-- The answer of a reader, and the reader after it. There is none when something is put back. -/
def Reader.perform (r : Reader) : Call → Option Char × Reader
  | .read => r.read
  | .peek => (r.peek, r)
  | .pushBack c => (none, r.pushBack c)
  | .pushBackAll cs => (none, r.pushBackAll cs)

/-- A pile of characters, the top one first. -/
abbrev Pile := List Char

def Pile.perform (pile : Pile) : Reader.Call → Option Char × Pile
  | .read => (pile.head?, pile.tail)
  | .peek => (pile.head?, pile)
  | .pushBack c => (none, c.toList ++ pile)
  | .pushBackAll cs => (none, cs ++ pile)

theorem Reader.perform_eq_pile (r : Reader) (call : Call) :
    (r.perform call).1 = (Pile.perform r.unread call).1 ∧
      (r.perform call).2.unread = (Pile.perform r.unread call).2 := by
  cases call with
  | read => exact ⟨r.read_fst, r.unread_read⟩
  | peek => exact ⟨rfl, rfl⟩
  | pushBack c =>
    cases c with
    | none => exact ⟨rfl, rfl⟩
    | some c => exact ⟨rfl, r.unread_unreadChar c⟩
  | pushBackAll cs => exact ⟨rfl, r.unread_pushBackAll cs⟩

/-- What has been read of a text and not been put back, and what is still to come. -/
structure Bookmark where
  before : List Char
  rest : List Char
  deriving DecidableEq, Repr

namespace Bookmark

/-- Puts the last character back that has been read, if it is the given one. -/
def putBack? (b : Bookmark) (c : Char) : Option Bookmark :=
  if b.before.getLast? = some c then some ⟨b.before.dropLast, c :: b.rest⟩ else none

/-- Puts characters back, the last one first. -/
def putBackAll? (b : Bookmark) (cs : List Char) : Option Bookmark :=
  cs.foldr (fun c b => b.bind (putBack? · c)) (some b)

/-- The bookmark moves unless a character is put back that is not the last one read. -/
def move? (b : Bookmark) : Reader.Call → Option Bookmark
  | .read =>
    match b.rest with
    | [] => some b
    | c :: cs => some ⟨b.before ++ [c], cs⟩
  | .peek => some b
  | .pushBack none => some b
  | .pushBack (some c) => b.putBack? c
  | .pushBackAll cs => b.putBackAll? cs

def moveAll? (b : Bookmark) (calls : List Reader.Call) : Option Bookmark := calls.foldlM move? b

variable {b b' : Bookmark} {r : Reader} {c : Char}

/-- The bookmark is one of the text, and the reader stands where it is. -/
structure Marks (b : Bookmark) (text : List Char) (r : Reader) : Prop where
  text_eq : text = b.before ++ b.rest
  tape_eq : r.tape = .ofText b.before b.rest

theorem putBack?_eq_some (h : b.putBack? c = some b') :
    b.before = b'.before ++ [c] ∧ b'.rest = c :: b.rest := by
  unfold putBack? at h
  split at h
  · next hlast =>
    obtain ⟨front, hfront⟩ := List.getLast?_eq_some_iff.mp hlast
    cases h
    simp [hfront]
  · cases h

namespace Marks

variable {text : List Char}

theorem unread_eq (h : b.Marks text r) : r.unread = b.rest := by
  rw [← r.chars_tape, h.tape_eq, Tape.chars_ofText]

theorem position_eq (h : b.Marks text r) : r.position = Position.counted b.before := by
  rw [← r.position_tape, h.tape_eq, Tape.position_ofText, Position.after_eq_counted]

theorem putBack? (h : b.Marks text r) (hback : b.putBack? c = some b') :
    b'.Marks text (r.unreadChar c) := by
  obtain ⟨hbefore, hrest⟩ := putBack?_eq_some hback
  refine ⟨by rw [h.text_eq, hbefore, hrest, List.append_assoc, List.singleton_append], ?_⟩
  have htape : r.tape = (Tape.ofText b'.before b'.rest).pass (0 + 1) := by
    rw [h.tape_eq, hbefore, hrest]
    exact (Tape.pass_ofText b'.before [c] b.rest).symm
  have hc : (Tape.ofText b'.before b'.rest).chars[0]? = some c := by
    rw [Tape.chars_ofText, hrest]
    rfl
  exact Reader.tape_unreadChar htape hc

theorem putBackAll? {cs : List Char} (h : b.Marks text r) (hback : b.putBackAll? cs = some b') :
    b'.Marks text (r.pushBackAll cs) := by
  induction cs generalizing b' with
  | nil =>
    cases hback
    exact h
  | cons c cs ih =>
    obtain ⟨b₁, hcs, hc⟩ := Option.bind_eq_some_iff.mp hback
    exact (ih hcs).putBack? hc

theorem move? {call : Reader.Call} (h : b.Marks text r) (hmove : b.move? call = some b') :
    b'.Marks text (r.perform call).2 := by
  cases call with
  | read =>
    have hunread := h.unread_eq
    unfold Bookmark.move? at hmove
    cases hrest : b.rest with
    | nil =>
      rw [hrest] at hmove hunread
      cases hmove
      rwa [Reader.perform, Reader.read_of_unread_eq_nil hunread]
    | cons c cs =>
      rw [hrest] at hmove hunread
      cases hmove
      refine ⟨by rw [h.text_eq, hrest, List.append_assoc, List.singleton_append], ?_⟩
      rw [Reader.perform, Reader.tape_read hunread, h.tape_eq, hrest]
      exact Tape.pass_ofText b.before [c] cs
  | peek =>
    cases hmove
    exact h
  | pushBack c =>
    cases c with
    | none =>
      cases hmove
      exact h
    | some c => exact h.putBack? hmove
  | pushBackAll cs => exact h.putBackAll? hmove

theorem moveAll? {calls : List Reader.Call} (h : b.Marks text r)
    (hmoves : b.moveAll? calls = some b') : b'.Marks text (stateAfter Reader.perform r calls) := by
  induction calls generalizing b r with
  | nil =>
    cases hmoves
    exact h
  | cons call calls ih =>
    obtain ⟨b₁, hmove, hmoves⟩ := Option.bind_eq_some_iff.mp hmoves
    exact ih (h.move? hmove) hmoves

end Marks

end Bookmark

namespace Reader

theorem marks_ofString (text : String) :
    Bookmark.Marks ⟨[], text.toList⟩ text.toList (ofString text) :=
  ⟨rfl, tape_ofString text⟩

/-- Whatever is put back, a reader answers as a pile of characters with its text at the bottom. While only
what has been read is put back, the last character first, it stands at the bookmark in the text: what is to
come is what follows the bookmark, and the place is the one behind what goes before. -/
theorem reads_as_pile (text : String) (calls : List Call) :
    answers perform (ofString text) calls = answers Pile.perform text.toList calls ∧
      (stateAfter perform (ofString text) calls).unread =
        stateAfter Pile.perform text.toList calls ∧
      ∀ b, Bookmark.moveAll? ⟨[], text.toList⟩ calls = some b →
        text.toList = b.before ++ b.rest ∧
          (stateAfter perform (ofString text) calls).unread = b.rest ∧
          (stateAfter perform (ofString text) calls).position = Position.counted b.before := by
  have hpile : ∀ (r : Reader) (pile : Pile) (call : Call), r.unread = pile →
      (r.perform call).1 = (Pile.perform pile call).1 ∧
        (r.perform call).2.unread = (Pile.perform pile call).2 := by
    rintro r pile call rfl
    exact r.perform_eq_pile call
  obtain ⟨hanswers, hunread⟩ := answers_eq_of_step hpile (unread_ofString text) calls
  refine ⟨hanswers, hunread, fun b hmoves => ?_⟩
  have hmarks := (marks_ofString text).moveAll? hmoves
  exact ⟨hmarks.text_eq, hmarks.unread_eq, hmarks.position_eq⟩

/-- Past the end of the text, back over the end of its first line, and on to the second again. -/
theorem reads_as_pile_two_lines :
    let calls : List Call :=
      [.read, .read, .read, .read, .pushBack none, .pushBackAll ['\n', 'b'], .peek, .read]
    answers perform (ofString "a\nb") calls =
        [some 'a', some '\n', some 'b', none, none, none, some '\n', some '\n'] ∧
      Bookmark.moveAll? ⟨[], "a\nb".toList⟩ calls = some ⟨['a', '\n'], ['b']⟩ ∧
      (stateAfter perform (ofString "a\nb") calls).unread = ['b'] ∧
      (stateAfter perform (ofString "a\nb") calls).position = ⟨2, 1⟩ := by
  intro calls
  obtain ⟨hanswers, -, hmarks⟩ := reads_as_pile "a\nb" calls
  have hmoves : Bookmark.moveAll? ⟨[], "a\nb".toList⟩ calls = some ⟨['a', '\n'], ['b']⟩ := by
    decide
  obtain ⟨-, hunread, hposition⟩ := hmarks _ hmoves
  exact ⟨hanswers.trans (by decide), hmoves, hunread, hposition.trans (by decide)⟩

end Reader

end Formula.Text
