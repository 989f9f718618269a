import Formula.Proofs.Expression.FaultPlaces
import Formula.Proofs.Lexical.Case

/-!
# Tokens in any case

Two texts that differ in the case of letters only, and in no string, have the same tokens up to
the case of names, of reserved words and of the exponent marks of numbers; or the same quote is
open in both.
-/

namespace Formula

open Text

/-- Outcomes that `f` makes the same are the same error, or values that `f` makes the same. -/
theorem error_or_ok_of_map_eq {ε α β : Type} {f : α → β} {r s : Except ε α}
    (h : r.map f = s.map f) :
    (∃ e, r = .error e ∧ s = .error e) ∨ ∃ x y, r = .ok x ∧ s = .ok y ∧ f x = f y := by
  cases r with
  | error e =>
    cases s with
    | error e' => exact .inl ⟨e, rfl, congrArg Except.error (Except.error.inj h).symm⟩
    | ok y => cases h
  | ok x =>
    cases s with
    | error e' => cases h
    | ok y => exact .inr ⟨x, y, rfl, rfl, Except.ok.inj h⟩

/-- The token with what may be written in any case made small. -/
def Token.folded (t : Token) : Token :=
  match t.kind with
  | .word => { t with text := AsciiCase.folded t.text }
  | .keyword => { t with text := AsciiCase.folded t.text }
  | .float => { t with text := AsciiCase.folded t.text }
  | _ => t

namespace Lexicon

/-- Where a string of formulas stands in the one text, the same characters stand in the other. -/
def AgreesInStrings (cs ds : List Char) : Prop :=
  ∀ lexemes w rest, formulas.Peels rest (lexemes ++ [w]) → (lexemes ++ [w]).flatten ++ rest = cs →
    w.head? = some '\'' → w <+: ds.drop lexemes.flatten.length

namespace AgreesInStrings

section

variable {x : Lexeme} {rest raw rest' : List Char}
  (h : AgreesInStrings (x.raw ++ rest) (raw ++ rest')) (hlength : x.raw.length = raw.length)
  (hnext : formulas.next (x.raw ++ rest) = .ok x)
include h hlength hnext

theorem head (hquote : x.raw.head? = some '\'') : x.raw = raw := by
  have hpeels : formulas.Peels rest ([] ++ [x.raw]) := .next (by simpa using hnext) .done
  obtain ⟨more, hmore⟩ := h [] x.raw rest hpeels (by simp) hquote
  exact List.append_inj_left hmore hlength

theorem tail : AgreesInStrings rest rest' := by
  intro lexemes w more hpeels hflat hquote
  have hhead : formulas.next (x.raw ++ ((lexemes ++ [w]).flatten ++ more)) = .ok x := by
    rwa [hflat]
  have hfront := h (x.raw :: lexemes) w more (.next hhead hpeels) (by simp [← hflat]) hquote
  rw [List.flatten_cons, List.length_append, hlength] at hfront
  rwa [List.drop_append, List.drop_eq_nil_of_le (by omega), List.nil_append,
    Nat.add_sub_cancel_left] at hfront

end

/-- Texts that are the same from the first apostrophe on agree in all strings. -/
theorem of_drop_eq {cs ds : List Char} (n : Nat) (hfront : '\'' ∉ cs.take n)
    (hrest : cs.drop n = ds.drop n) : AgreesInStrings cs ds := by
  intro lexemes w rest hpeels hflat hquote
  rw [List.flatten_append, List.flatten_singleton, List.append_assoc] at hflat
  obtain ⟨body, rfl⟩ : ∃ body, w = '\'' :: body := List.head?_eq_some_iff.mp hquote
  have hlater : n ≤ lexemes.flatten.length := by
    by_contra hlt
    refine hfront ?_
    rw [← hflat, List.take_append, List.mem_append]
    obtain ⟨k, hk⟩ : ∃ k, n - lexemes.flatten.length = k + 1 := ⟨n - lexemes.flatten.length - 1, by omega⟩
    exact .inr (by rw [hk]; exact List.mem_cons_self)
  have hdrop : ds.drop lexemes.flatten.length = cs.drop lexemes.flatten.length := by
    rw [← Nat.add_sub_cancel' hlater, ← List.drop_drop, ← List.drop_drop, hrest]
  rw [hdrop, ← hflat, List.drop_left]
  exact List.prefix_append _ _

end AgreesInStrings

/-- Lexemes that are equal made small have texts that are equal but where case does not matter. -/
theorem folded_finish_eq {x y : Lexeme} (hx : x.Shaped) (hy : y.Shaped) (h : x.lowered = y.lowered)
    (hstring : x.kind = .quoted → x.raw = y.raw) (hkept : Parsed.options.skips x.kind = false)
    (p : Position) :
    (Parsed.options.finish ⟨x.kind, String.ofList x.text, p⟩).folded =
      (Parsed.options.finish ⟨y.kind, String.ofList y.text, p⟩).folded := by
  have hkind : y.kind = x.kind := (congrArg Lexeme.kind h).symm
  have htext : x.text.map Char.toLower = y.text.map Char.toLower := congrArg Lexeme.text h
  have hfolded : AsciiCase.folded (String.ofList x.text) = AsciiCase.folded (String.ofList y.text) :=
    AsciiCase.folded_eq_iff.mpr (AsciiCase.same_ofList.mpr htext)
  have hletters : (∀ c ∈ x.text, c.isAlpha = false) → x.text = y.text := eq_of_map_toLower_eq htext
  unfold Lexeme.Shaped at hx hy
  rw [hkind] at hy ⊢
  cases hk : x.kind with
  | word => simp only [TokenOptions.finish, Token.folded, hfolded]
  | keyword => simp only [TokenOptions.finish, Token.folded, hfolded]
  | float =>
    simp only [TokenOptions.finish, Parsed.options, Token.folded, hfolded, Bool.false_eq_true,
      if_false]
  | integer =>
    rw [hk] at hx
    rw [hletters fun c hc => not_isAlpha_of_isDigit (hx.isDigit hk c hc)]
  | symbol =>
    rw [hk] at hx
    rw [hletters hx]
  | unknown =>
    rw [hk] at hx
    rw [hletters hx]
  | quoted =>
    rw [hk] at hx hy
    rw [hx.1, hy.1, hstring hk]
  | number =>
    rw [hk] at hx
    exact hx.elim
  | special =>
    rw [hk] at hx
    exact hx.elim
  | whitespace =>
    rw [hk] at hkept
    cases hkept
  | comment =>
    rw [hk] at hkept
    cases hkept
  | eof =>
    rw [hk] at hkept
    cases hkept

theorem map_lowered_next_eq {cs ds : List Char} (h : cs.map Char.toLower = ds.map Char.toLower) :
    (formulas.next cs).map Lexeme.lowered = (formulas.next ds).map Lexeme.lowered := by
  rw [← next_map_toLower, ← next_map_toLower, h]

/-- Of the tokens of a cut a formula keeps the first one as it gives it out, or leaves it out. -/
theorem process_cons (t : Token) (ts : List Token) : Parsed.options.process (t :: ts) =
    if Parsed.options.skips t.kind then Parsed.options.process ts
    else Parsed.options.finish t :: Parsed.options.process ts := by
  rw [TokenOptions.process_eq, TokenOptions.process_eq, TokenOptions.processAfter,
    TokenOptions.processAfter, List.filter_cons]
  cases Parsed.options.skips t.kind <;> rfl

theorem folded_process_cons {x y : Lexeme} (hx : x.Shaped) (hy : y.Shaped)
    (h : x.lowered = y.lowered) (hstring : x.kind = .quoted → x.raw = y.raw) (p : Position)
    {ts us : List Token} (hrest : (Parsed.options.process ts).map Token.folded =
      (Parsed.options.process us).map Token.folded) :
    (Parsed.options.process (⟨x.kind, String.ofList x.text, p⟩ :: ts)).map Token.folded =
      (Parsed.options.process (⟨y.kind, String.ofList y.text, p⟩ :: us)).map Token.folded := by
  have hkind : x.lowered.kind = y.lowered.kind := congrArg Lexeme.kind h
  change x.kind = y.kind at hkind
  rw [process_cons, process_cons]
  dsimp only
  rw [← hkind]
  cases hskips : Parsed.options.skips x.kind with
  | true => exact hrest
  | false =>
    have hfirst := folded_finish_eq hx hy h hstring hskips p
    rw [← hkind] at hfirst
    simp only [Bool.false_eq_true, if_false, List.map_cons, hfirst, hrest]

/-- A text that differs in the case of letters only, and in no string, is cut at the same places,
and the tokens that a formula keeps are the same up to case. -/
theorem Cut.exists_folded {c : Cursor} {r : Except SyntaxError (List Token)}
    (h : formulas.Cut c r) {ds : List Char}
    (hcase : c.rest.map Char.toLower = ds.map Char.toLower)
    (hstrings : AgreesInStrings c.rest ds) : ∃ r', formulas.Cut ⟨ds, c.position⟩ r' ∧
      r.map (fun tokens => (Parsed.options.process tokens).map Token.folded) =
        r'.map fun tokens => (Parsed.options.process tokens).map Token.folded := by
  induction h generalizing ds with
  | atEnd p =>
    obtain rfl : ds = [] := List.map_eq_nil_iff.mp hcase.symm
    exact ⟨_, .atEnd p, rfl⟩
  | @fault c cs p f hf =>
    obtain ⟨g, hg, hds⟩ | ⟨x, y, hx, -⟩ := error_or_ok_of_map_eq (map_lowered_next_eq hcase)
    · cases ds with
      | nil => cases hcase
      | cons d ds =>
        rw [hf] at hg
        cases hg
        exact ⟨_, .fault p hds, rfl⟩
    · rw [hf] at hx
      cases hx
  | @lexeme x rest p r hnext hx more ih =>
    obtain ⟨g, hg, -⟩ | ⟨x', y, hx', hy, hxy⟩ := error_or_ok_of_map_eq (map_lowered_next_eq hcase)
    · rw [hnext] at hg
      cases hg
    obtain rfl : x = x' := Except.ok.inj (hnext.symm.trans hx')
    have hraw : x.raw.map Char.toLower = y.raw.map Char.toLower := congrArg Lexeme.raw hxy
    have hlength : x.raw.length = y.raw.length := by
      simpa using congrArg List.length hraw
    have hne : ds ≠ [] := by
      rintro rfl
      exact hx.raw_ne_nil (List.append_eq_nil_iff.mp (List.map_eq_nil_iff.mp hcase)).1
    have htakes := formulas_wellRouted.takes_of_next hne hy
    obtain ⟨rest', rfl⟩ := htakes.raw_front
    dsimp only at hcase hstrings
    rw [List.map_append, List.map_append] at hcase
    have hplace : p.advanceAll x.raw = p.advanceAll y.raw := by
      rw [← Position.advanceAll_map_toLower, hraw, Position.advanceAll_map_toLower]
    have hshaped := shaped_of_next hnext
    have hstring : x.kind = .quoted → x.raw = y.raw := by
      intro hquoted
      unfold Lexeme.Shaped at hshaped
      rw [hquoted] at hshaped
      exact hstrings.head hlength hnext hshaped.2
    obtain ⟨r', hr', hsame⟩ := ih (List.append_inj_right hcase (by simpa using hlength))
      (hstrings.tail hlength hnext)
    refine ⟨_, .lexeme hy htakes (hplace ▸ hr'), ?_⟩
    obtain ⟨e, rfl, rfl⟩ | ⟨ts, us, rfl, rfl, hrest⟩ := error_or_ok_of_map_eq hsame
    · rfl
    · exact congrArg Except.ok
        (folded_process_cons hshaped (shaped_of_next hy) hxy hstring p hrest)

end Lexicon

/-- The tokens of two such texts are the same up to case, or the same quote is open in both. -/
theorem Parsed.tokensOf_folded {a b : String} (hcase : AsciiCase.Same a b)
    (hstrings : Lexicon.AgreesInStrings a.toList b.toList) :
    (tokensOf a).map (List.map Token.folded) = (tokensOf b).map (List.map Token.folded) := by
  obtain ⟨r, hcut⟩ := Lexicon.formulas_wellRouted.exists_cut a.toList {}
  obtain ⟨r', hcut', hsame⟩ := hcut.exists_folded hcase hstrings
  rw [tokensOf_of_cut hcut, tokensOf_of_cut hcut']
  cases r <;> cases r' <;> exact hsame

end Formula
