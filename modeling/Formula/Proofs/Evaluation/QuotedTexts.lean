import Formula.Proofs.Evaluation.Literals
import Formula.Proofs.Lexical.Scanning

/-!
# Quoted texts

Writing a text in quotes and reading it off undo each other, whichever character the quote is and
whatever the text holds. Reading fails only where every quote behind the first one has a partner.
A text in single quotes is a formula, and the text is its value.
-/

namespace Formula

open Text Lexicon

section

variable {q : Char} {r : Reader}

/-- An encoded text is read off, and the reader stands behind it. -/
theorem scanQuoted_encode {s rest : List Char} (hr : r.unread = Quoted.encode q s ++ rest)
    (hrest : rest.head? ≠ some q) :
    (scanQuoted r).1 = .ok ⟨.quoted, Quoted.encode q s, Quoted.encode q s⟩ ∧
      (scanQuoted r).2.unread = rest := by
  obtain ⟨hresult, htape⟩ := scanQuoted_scans r
  have hrule := quotedRule_encode q s hrest
  rw [hr, hrule] at hresult htape
  refine ⟨hresult, ?_⟩
  rw [Reader.unread_eq_drop htape, hr]
  exact List.drop_left

theorem scanQuoted_of_unread {cs : List Char} (hr : r.unread = q :: cs) :
    (scanQuoted r).1 = match Quoted.scan? q cs with
      | some (body, _) => .ok ⟨.quoted, q :: body, q :: body⟩
      | none => .error (.unterminatedString q) := by
  rw [(scanQuoted_scans r).1, hr]
  rfl

theorem encode_decode_of_scanQuoted {cs : List Char} {x : Lexeme} (hr : r.unread = q :: cs)
    (h : (scanQuoted r).1 = .ok x) : Quoted.encode q (Quoted.decode q x.raw) = x.raw := by
  rw [scanQuoted_of_unread hr] at h
  split at h
  · next body rest hscan =>
    cases h
    obtain ⟨s, hs⟩ := Quoted.exists_encode_of_scan? hscan
    rw [hs, Quoted.decode_encode]
  · cases h

theorem scanQuoted_fails_iff {cs : List Char} (hr : r.unread = q :: cs) :
    (∃ e, (scanQuoted r).1 = .error e) ↔ ¬∃ before after, Quoted.Closes q cs before after := by
  rw [scanQuoted_of_unread hr, ← Quoted.scan?_eq_none_iff]
  cases Quoted.scan? q cs with
  | none => simp
  | some found => simp

end

theorem Piece.lexed (p : Piece) : Lexed p.spelling [p.token {}] := by
  have hend : EndsToken [] := nofun
  obtain ⟨x, hx⟩ := p.exists_lexes hend
  obtain ⟨c, cs, hspelling, -⟩ := p.exists_spelling_eq_cons
  have hnext := hx.next
  have hkeep : Parsed.options.drops none x.kind = false := by
    rw [hx.kind]
    cases p <;> rfl
  have htoken : (x.token {}).Same (p.token {}) := by
    rw [Lexeme.token, hx.text]
    exact ⟨rfl, rfl⟩
  rw [← hx.raw] at hspelling hnext ⊢
  have hlexed := Lexed.token hnext (by simp [hspelling]) hkeep htoken .nil
  rwa [List.append_nil] at hlexed

namespace Calculator

theorem calculate_text (c : Calculator) (s : String) :
    c.calculate (Quoted.encode '\'' s.toList) = .ok (.string s) := by
  have hreads : Reads none none [(Piece.text s).token {}] [⟨.constant (.string s), {}⟩] :=
    .single rfl (.done _)
  have hprogram : Program.ofItems [⟨.constant (.string s), {}⟩] = .ok [⟨.push (.string s), {}⟩] :=
    rfl
  obtain ⟨p, hp, hsteps⟩ := (Piece.text s).lexed.exists_ofText hreads hprogram
  obtain ⟨vs, hvs⟩ := c.calculate_eq hp
  exact hvs.trans (Environment.evaluate_push _ hsteps)

end Calculator

/-- Writing in quotes and reading off undo each other. An encoded text is read off in front of
anything but one more quote and is decoded to what was written; what is read off anywhere is an
encoded text; and reading fails just where no quote behind the first one closes the text. In single
quotes a text is a formula with itself as the value. -/
theorem quoted_texts_read_back :
    (∀ (q : Char) (s rest : List Char) (r : Reader), r.unread = Quoted.encode q s ++ rest →
      rest.head? ≠ some q →
      (scanQuoted r).1 = .ok ⟨.quoted, Quoted.encode q s, Quoted.encode q s⟩ ∧
        (scanQuoted r).2.unread = rest ∧ Quoted.decode q (Quoted.encode q s) = s) ∧
    (∀ (q : Char) (cs : List Char) (r : Reader), r.unread = q :: cs →
      (∀ x, (scanQuoted r).1 = .ok x → Quoted.encode q (Quoted.decode q x.raw) = x.raw) ∧
      ((∃ e, (scanQuoted r).1 = .error e) ↔ ¬∃ before after, Quoted.Closes q cs before after)) ∧
    ∀ (c : Calculator) (s : String), c.calculate (Quoted.encode '\'' s.toList) = .ok (.string s) := by
  refine ⟨fun q s rest r hr hrest => ?_, fun q cs r hr => ⟨fun x h => ?_, ?_⟩, fun c s => ?_⟩
  · obtain ⟨hresult, hunread⟩ := scanQuoted_encode hr hrest
    exact ⟨hresult, hunread, Quoted.decode_encode q s⟩
  · exact encode_decode_of_scanQuoted hr h
  · exact scanQuoted_fails_iff hr
  · exact c.calculate_text s

/-- A quote inside, one that is left open behind a pair, and a formula of quotes alone. -/
theorem quoted_texts_read_back_pairs :
    let r := Reader.ofString "'it''s'+1"
    let r' := Reader.ofString "'a''"
    let c : Calculator := { functions := {} }
    r.unread = Quoted.encode '\'' "it's".toList ++ "+1".toList ∧ "+1".toList.head? ≠ some '\'' ∧
      (scanQuoted r).1 = .ok ⟨.quoted, "'it''s'".toList, "'it''s'".toList⟩ ∧
      (scanQuoted r).2.unread = "+1".toList ∧ r.unread = '\'' :: "it''s'+1".toList ∧
      Quoted.encode '\'' (Quoted.decode '\'' "'it''s'".toList) = "'it''s'".toList ∧
      r'.unread = '\'' :: "a''".toList ∧ (∃ e, (scanQuoted r').1 = .error e) ∧
      (¬∃ before after, Quoted.Closes '\'' "a''".toList before after) ∧
      c.calculate "''''".toList = .ok (.string "'") := by
  intro r r' c
  obtain ⟨hencoded, hquoted, hformula⟩ := quoted_texts_read_back
  have hr : r.unread = Quoted.encode '\'' "it's".toList ++ "+1".toList := by decide
  have hrest : "+1".toList.head? ≠ some '\'' := by decide
  have hr' : r'.unread = '\'' :: "a''".toList := by decide
  obtain ⟨hresult, hunread, -⟩ := hencoded '\'' "it's".toList "+1".toList r hr hrest
  have hopened : r.unread = '\'' :: "it''s'+1".toList := by decide
  obtain ⟨hback, -⟩ := hquoted '\'' "it''s'+1".toList r hopened
  obtain ⟨-, hfails⟩ := hquoted '\'' "a''".toList r' hr'
  have hopen : ∃ e, (scanQuoted r').1 = .error e := ⟨_, scanQuoted_of_unread hr'⟩
  exact ⟨hr, hrest, hresult, hunread, hopened, hback _ hresult, hr', hopen, hfails.mp hopen,
    hformula c "'"⟩

end Formula
