import Formula.Proofs.Lexical.Progress

/-!
# How a text is cut

Under a lexicon that leads its rules well, a text falls into lexemes one after another, up to
its end or to a quote that nothing closes. A tokenizer moves along this cut: each step that gives
out a token leaves less to do, so the run over a text is that of its steps.
-/

namespace Formula

open Text

/-- How a lexicon cuts the text at a cursor: every lexeme makes a token, and the end of the
text makes the last one. -/
inductive Lexicon.Cut (l : Lexicon) : Cursor → Except SyntaxError (List Token) → Prop
  | atEnd (p : Position) : Cut l ⟨[], p⟩ (.ok [⟨.eof, "", p⟩])
  | fault {c : Char} {cs : List Char} (p : Position) {f : SyntaxFault}
    (h : l.next (c :: cs) = .error f) : Cut l ⟨c :: cs, p⟩ (.error ⟨f, p⟩)
  | lexeme {x : Lexeme} {rest : List Char} {p : Position} {r : Except SyntaxError (List Token)}
    (h : l.next (x.raw ++ rest) = .ok x) (hx : l.Takes x (x.raw ++ rest))
    (more : Cut l ⟨rest, p.advanceAll x.raw⟩ r) :
    Cut l ⟨x.raw ++ rest, p⟩ (r.map (⟨x.kind, String.ofList x.text, p⟩ :: ·))

theorem Lexicon.WellRouted.exists_cut {l : Lexicon} (hl : l.WellRouted) (cs : List Char)
    (p : Position) : ∃ r, l.Cut ⟨cs, p⟩ r := by
  induction hn : cs.length using Nat.strongRecOn generalizing cs p with
  | ind n ih =>
    cases cs with
    | nil => exact ⟨_, .atEnd p⟩
    | cons c cs =>
      obtain ⟨x, hnext, hx⟩ | ⟨-, -, hfault⟩ := hl.next_cons c cs
      · obtain ⟨rest, hrest⟩ := hx.raw_front
        have hshorter : rest.length < n := by
          have := List.length_pos_iff.mpr hx.raw_ne_nil
          rw [← hn, ← hrest, List.length_append]
          omega
        obtain ⟨r, hr⟩ := ih rest.length hshorter rest (p.advanceAll x.raw) rfl
        rw [← hrest] at hnext hx ⊢
        exact ⟨_, .lexeme hnext hx hr⟩
      · exact ⟨_, .fault p hfault⟩

namespace Tokenizer

theorem tokens_of_finished {t : Tokenizer} (hahead : t.ahead = none) (h : t.finished = true) :
    t.tokens.1 = .ok [] := by
  have hadvance : t.advance = (.ok none, t) := by rw [advance.eq_def, if_pos h]
  rw [tokens.eq_def, next, hahead]
  dsimp only
  rw [hadvance]

/-- The tokenizer in the middle of a text. -/
def reading (l : Lexicon) (o : TokenOptions) (c : Cursor) (last : Option TokenKind) :
    Tokenizer :=
  { lexicon := l, options := o, cursor := c, last := last }

theorem moves_reading {l : Lexicon} (hl : l.WellRouted) (o : TokenOptions) (c : Cursor)
    (last : Option TokenKind) : (reading l o c last).Moves :=
  fun c _ => hl.not_standsStill c

theorem setInput_eq_reading (t : Tokenizer) (text : String) :
    t.setInput text = reading t.lexicon t.options (.ofString text) none := rfl

section

variable {l : Lexicon} (hl : l.WellRouted) (o : TokenOptions) (p : Position)
  (last : Option TokenKind)
include hl

theorem tokens_fault {c : Char} {cs : List Char} {f : SyntaxFault}
    (h : l.next (c :: cs) = .error f) :
    (reading l o ⟨c :: cs, p⟩ last).tokens.1 = .error ⟨f, p⟩ := by
  rw [(moves_reading hl o _ last).tokens_eq rfl, advance.eq_def]
  simp [reading, h]

theorem tokens_atEnd :
    (reading l o ⟨[], p⟩ last).tokens.1 =
      .ok (if o.skipEof then [] else [⟨.eof, "", p⟩]) := by
  rw [(moves_reading hl o _ last).tokens_eq rfl, advance.eq_def]
  by_cases hskip : o.skipEof = true
  · simp [reading, Lexicon.next, TokenOptions.drops, hskip]
  · have hmore : ({ reading l o ⟨[], p⟩ (some .eof) with finished := true }).tokens.1.map
        ((⟨.eof, "", p⟩ : Token) :: ·) = .ok [⟨.eof, "", p⟩] := by
      rw [tokens_of_finished rfl rfl]
      rfl
    simpa [reading, Lexicon.next, TokenOptions.drops, TokenOptions.finish, hskip] using hmore

variable {x : Lexeme} {rest : List Char} (h : l.next (x.raw ++ rest) = .ok x)
  (hx : l.Takes x (x.raw ++ rest))
include h hx

/-- A lexeme that the options drop leaves the run as it would be behind it. -/
theorem tokens_dropped (hdrops : o.drops last x.kind = true) :
    (reading l o ⟨x.raw ++ rest, p⟩ last).tokens.1 =
      (reading l o ⟨rest, p.advanceAll x.raw⟩ last).tokens.1 := by
  have hempty : (x.raw ++ rest).isEmpty = false := by simp [hx.raw_ne_nil]
  have hshorter : rest.length < (x.raw ++ rest).length := by
    have := List.length_pos_iff.mpr hx.raw_ne_nil
    rw [List.length_append]
    omega
  have hadvance : (reading l o ⟨x.raw ++ rest, p⟩ last).advance =
      (reading l o ⟨rest, p.advanceAll x.raw⟩ last).advance := by
    rw [advance.eq_def]
    simp only [reading, Bool.false_eq_true, if_false, h, hdrops, Cursor.drop_append, hempty,
      hshorter, if_true]
  rw [(moves_reading hl o _ last).tokens_eq rfl, (moves_reading hl o _ last).tokens_eq rfl, hadvance]

theorem tokens_kept (hdrops : o.drops last x.kind = false) :
    (reading l o ⟨x.raw ++ rest, p⟩ last).tokens.1 =
      let token := o.finish ⟨x.kind, String.ofList x.text, p⟩
      (reading l o ⟨rest, p.advanceAll x.raw⟩ (some token.kind)).tokens.1.map (token :: ·) := by
  have hempty : (x.raw ++ rest).isEmpty = false := by simp [hx.raw_ne_nil]
  rw [(moves_reading hl o _ last).tokens_eq rfl, advance.eq_def]
  simp only [reading, Bool.false_eq_true, if_false, h, hdrops, Cursor.drop_append, hempty,
    hx.kind_ne_eof, false_and]

end

end Tokenizer

end Formula
