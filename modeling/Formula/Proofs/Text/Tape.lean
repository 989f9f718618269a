import Formula.Text.Reader

/-!
# The tape of a reader

What a reader does depends on its tape alone: the characters to come with their places, and the places of
those it has handed out. Reading moves along the tape, and putting back what has been read moves back, no
matter which characters are kept aside on the way.
-/

namespace Formula.Text

def placed (p : Position) : List Char → List (Char × Position)
  | [] => []
  | c :: cs => (c, p) :: placed (p.advance c) cs

theorem placed_append (p : Position) (xs ys : List Char) :
    placed p (xs ++ ys) = placed p xs ++ placed (p.advanceAll xs) ys := by
  induction xs generalizing p with
  | nil => rfl
  | cons x xs ih => exact congrArg ((x, p) :: ·) (ih (p.advance x))

theorem length_placed (p : Position) (cs : List Char) : (placed p cs).length = cs.length := by
  induction cs generalizing p with
  | nil => rfl
  | cons c cs ih => exact congrArg (· + 1) (ih (p.advance c))

theorem map_fst_placed (p : Position) (cs : List Char) : (placed p cs).map (·.1) = cs := by
  induction cs generalizing p with
  | nil => rfl
  | cons c cs ih => exact congrArg (c :: ·) (ih (p.advance c))

structure Tape where
  ahead : List (Char × Position)
  /-- The latest first. -/
  behind : List Position
  /-- Where the text ends. -/
  last : Position

namespace Tape

def chars (t : Tape) : List Char := t.ahead.map (·.1)

def position (t : Tape) : Position :=
  match t.ahead with
  | (_, p) :: _ => p
  | [] => t.last

def pass (t : Tape) (n : Nat) : Tape :=
  { t with
    ahead := t.ahead.drop n
    behind := ((t.ahead.take n).map (·.2)).reverse ++ t.behind }

/-- The tape of a text of which some has been read. -/
def ofText (before rest : List Char) : Tape where
  ahead := placed (.after before) rest
  behind := ((placed {} before).map (·.2)).reverse
  last := .after (before ++ rest)

theorem pass_pass (t : Tape) (m n : Nat) : (t.pass m).pass n = t.pass (m + n) := by
  simp [pass, List.take_add, List.drop_drop]

theorem chars_pass (t : Tape) (n : Nat) : (t.pass n).chars = t.chars.drop n :=
  List.map_drop

theorem pass_ofText (before w rest : List Char) :
    (ofText before (w ++ rest)).pass w.length = ofText (before ++ w) rest := by
  have hlength : w.length = (placed (.after before) w).length := (length_placed _ w).symm
  simp only [pass, ofText, placed_append, Position.after_append, List.append_assoc]
  rw [hlength, List.take_left, List.drop_left]
  simp [Position.after]

theorem chars_ofText (before rest : List Char) : (ofText before rest).chars = rest :=
  map_fst_placed _ rest

theorem position_ofText (before rest : List Char) :
    (ofText before rest).position = .after before := by
  cases rest with
  | nil => simp [ofText, position, placed]
  | cons c rest => rfl

end Tape

namespace Reader

variable {r : Reader} {t : Tape} {c : Char} {cs : List Char} {n : Nat}

def tape (r : Reader) : Tape where
  ahead := r.pending ++ placed r.source.position r.source.rest
  behind := r.history
  last := r.source.toEnd.position

theorem tape_ofString (text : String) : (ofString text).tape = .ofText [] text.toList := rfl

theorem chars_tape (r : Reader) : r.tape.chars = r.unread := by
  simp [Tape.chars, tape, unread, map_fst_placed]

theorem unread_eq_drop {r' : Reader} (h : r'.tape = r.tape.pass n) :
    r'.unread = r.unread.drop n := by
  rw [← chars_tape, h, Tape.chars_pass, chars_tape]

theorem position_tape (r : Reader) : r.tape.position = r.position := by
  unfold Tape.position tape position
  cases r.pending with
  | nil =>
    cases hs : r.source.rest with
    | nil => simp [placed, Cursor.toEnd, hs]
    | cons c cs => rfl
  | cons x rest => rfl

theorem read_of_unread_eq_nil (h : r.unread = []) : r.read = (none, r) := by
  obtain ⟨hpending, hrest⟩ := List.append_eq_nil_iff.mp h
  rw [List.map_eq_nil_iff] at hpending
  unfold read
  rw [hpending, hrest]

theorem unread_read_of_cons (h : r.unread = c :: cs) : r.read.2.unread = cs := by
  rw [unread_read, h, List.tail_cons]

theorem tape_read (h : r.unread = c :: cs) : r.read.2.tape = r.tape.pass 1 := by
  unfold read tape Tape.pass
  rcases hpending : r.pending with _ | ⟨x, rest⟩
  · rcases hrest : r.source.rest with _ | ⟨d, ds⟩
    · simp [unread, hpending, hrest] at h
    · simp [hrest, placed, Cursor.drop, Cursor.toEnd]
  · rfl

theorem of_read_eq_none {r' : Reader} (h : r.read = (none, r')) : r.unread = [] ∧ r' = r := by
  have hnil : r.unread = [] := by
    rw [← List.head?_eq_none_iff, ← read_fst, h]
  rw [read_of_unread_eq_nil hnil] at h
  exact ⟨hnil, (Prod.mk.inj h).2.symm⟩

theorem of_read_eq_some {r' : Reader} (h : r.read = (some c, r')) :
    r.unread = c :: r'.unread ∧ r'.tape = r.tape.pass 1 := by
  have hhead : r.unread.head? = some c := by rw [← read_fst, h]
  obtain ⟨cs, hcs⟩ := List.head?_eq_some_iff.mp hhead
  have hrest := unread_read_of_cons hcs
  have htape := tape_read hcs
  rw [h] at hrest htape
  exact ⟨by rw [hcs, hrest], htape⟩

/-- Putting a character back that has just been read undoes the reading. -/
theorem tape_unreadChar (h : r.tape = t.pass (n + 1)) (hc : t.chars[n]? = some c) :
    (r.unreadChar c).tape = t.pass n := by
  obtain ⟨⟨d, p⟩, hx, rfl⟩ : ∃ x, t.ahead[n]? = some x ∧ x.1 = c := by
    simpa only [Tape.chars, List.getElem?_map, Option.map_eq_some_iff] using hc
  have htake : t.ahead.take (n + 1) = t.ahead.take n ++ [(d, p)] := by
    rw [List.take_add_one, hx]
    rfl
  have hdrop : t.ahead.drop n = (d, p) :: t.ahead.drop (n + 1) := by
    rw [List.drop_eq_getElem?_toList_append, hx]
    rfl
  have hahead : r.pending ++ placed r.source.position r.source.rest = t.ahead.drop (n + 1) :=
    congrArg Tape.ahead h
  have hbehind : r.history = p :: (((t.ahead.take n).map (·.2)).reverse ++ t.behind) := by
    have hpass : r.history = ((t.ahead.take (n + 1)).map (·.2)).reverse ++ t.behind :=
      congrArg Tape.behind h
    simpa [htake] using hpass
  have hlast : r.source.toEnd.position = t.last := congrArg Tape.last h
  unfold unreadChar
  rw [hbehind]
  simp [tape, Tape.pass, hdrop, hahead, hlast]

theorem tape_pushBackAll (h : r.tape = t.pass (n + cs.length)) (hcs : cs <+: t.chars.drop n) :
    (r.pushBackAll cs).tape = t.pass n := by
  induction cs generalizing n with
  | nil => exact h
  | cons c cs ih =>
    obtain ⟨rest, hrest⟩ := hcs
    have hc : t.chars[n]? = some c := by
      rw [← List.head?_drop, ← hrest]
      rfl
    have hmore : cs <+: t.chars.drop (n + 1) := by
      rw [← List.tail_drop, ← hrest]
      exact List.prefix_append cs rest
    rw [List.length_cons, Nat.add_comm cs.length, ← Nat.add_assoc] at h
    exact tape_unreadChar (ih h hmore) hc

end Reader

end Formula.Text
