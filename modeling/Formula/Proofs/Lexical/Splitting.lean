import Formula.Proofs.Lexical.Options
import Mathlib.Data.List.DropRight

/-!
# Texts as lexemes

A tokenizer without options loses nothing of its text. The text is a row of lexemes, each lexeme
makes one token at the place where it begins, and the end of the text makes the last one; or the
row comes to a quote that nothing closes, and the fault is placed there.
-/

namespace Formula

open Text

namespace Text.Position

/-- The place behind a front of a text: line feeds and the characters since the last are counted. -/
def counted (front : List Char) : Position where
  line := front.count '\n' + 1
  column := (front.rtakeWhile (· ≠ '\n')).length + 1

theorem after_eq_counted (front : List Char) : after front = counted front := by
  induction front using List.reverseRecOn with
  | nil => rfl
  | append_singleton front c ih =>
    rw [after_append, ih]
    by_cases hc : c = '\n'
    · subst hc
      rw [advanceAll_cons, advanceAll_nil, advance_newline]
      simp [counted]
    · rw [advanceAll_cons, advanceAll_nil, advance_of_ne hc]
      simp [counted, hc]

end Text.Position

namespace Lexicon

/-- The lexicon takes the lexemes off a text one after another, down to `rest`. -/
inductive Peels (l : Lexicon) (rest : List Char) : List (List Char) → Prop
  | done : Peels l rest []
  | next {x : Lexeme} {more : List (List Char)}
    (h : l.next (x.raw ++ (more.flatten ++ rest)) = .ok x) (hmore : Peels l rest more) :
    Peels l rest (x.raw :: more)

/-- Each lexeme makes a token, and the end of the text makes one more; a token stands where the
lexemes in front of it lead to. -/
structure Spells (l : Lexicon) (place : List Char → Position) (lexemes : List (List Char))
    (tokens : List Token) : Prop where
  nonempty : [] ∉ lexemes
  length_eq : tokens.length = lexemes.length + 1
  token {i : Nat} {w : List Char} : lexemes[i]? = some w → ∃ kind, kind ≠ .eof ∧
    tokens[i]? = some ⟨kind, String.ofList (l.value w), place (lexemes.take i).flatten⟩
  eof : tokens[lexemes.length]? = some ⟨.eof, "", place lexemes.flatten⟩

theorem Spells.nil (l : Lexicon) (place : List Char → Position) :
    l.Spells place [] [⟨.eof, "", place []⟩] :=
  ⟨by simp, rfl, by simp, rfl⟩

theorem Spells.cons {l : Lexicon} {place : List Char → Position} {w : List Char}
    {lexemes : List (List Char)} {tokens : List Token} {kind : TokenKind} (hw : w ≠ [])
    (hkind : kind ≠ .eof) (h : l.Spells (fun front => place (w ++ front)) lexemes tokens) :
    l.Spells place (w :: lexemes) (⟨kind, String.ofList (l.value w), place []⟩ :: tokens) := by
  refine ⟨?_, by simp [h.length_eq], ?_, h.eof⟩
  · rw [List.mem_cons, not_or]
    exact ⟨Ne.symm hw, h.nonempty⟩
  · intro i v hv
    cases i with
    | zero =>
      obtain rfl : w = v := by simpa using hv
      exact ⟨kind, hkind, rfl⟩
    | succ i => exact h.token hv

theorem Cut.lexemes {l : Lexicon} (hl : l.WellRouted) {c : Cursor}
    {r : Except SyntaxError (List Token)} (h : l.Cut c r) :
    (∃ lexemes tokens, r = .ok tokens ∧ lexemes.flatten = c.rest ∧ l.Peels [] lexemes ∧
      l.Spells c.position.advanceAll lexemes tokens) ∨
    ∃ lexemes quote rest, lexemes.flatten ++ quote :: rest = c.rest ∧
      l.Peels (quote :: rest) lexemes ∧ (quote = '"' ∨ quote = '\'') ∧
      Quoted.scan? quote rest = none ∧
      r = .error ⟨.unterminatedString quote, c.position.advanceAll lexemes.flatten⟩ := by
  induction h with
  | atEnd p => exact .inl ⟨[], _, rfl, rfl, .done, .nil l p.advanceAll⟩
  | @fault c cs p f hf =>
    obtain ⟨x, hx, -⟩ | ⟨hquote, hscan, hopen⟩ := hl.next_cons c cs
    · rw [hf] at hx
      cases hx
    · rw [hf] at hopen
      cases hopen
      exact .inr ⟨[], c, cs, rfl, .done, hquote, hscan, rfl⟩
  | @lexeme x rest p r hnext hx more ih =>
    rcases ih with ⟨ws, tokens, rfl, hflat, hpeels, hspells⟩ |
      ⟨ws, quote, open', hflat, hpeels, hquote, hscan, rfl⟩
    · dsimp only at hflat hspells
      refine .inl ⟨x.raw :: ws, _, rfl, by simp [hflat], ?_, ?_⟩
      · exact .next (by rwa [List.append_nil, hflat]) hpeels
      · have hplace : (p.advanceAll x.raw).advanceAll = fun front => p.advanceAll (x.raw ++ front) :=
          funext fun front => (Position.advanceAll_append p x.raw front).symm
        rw [hplace] at hspells
        rw [hx.text_eq]
        exact .cons hx.raw_ne_nil hx.kind_ne_eof hspells
    · dsimp only at hflat
      refine .inr ⟨x.raw :: ws, quote, open', by simp [← hflat], ?_, hquote, hscan, ?_⟩
      · exact .next (by rwa [hflat]) hpeels
      · rw [List.flatten_cons, Position.advanceAll_append]
        rfl

end Lexicon

namespace Tokenizer

/-- A tokenizer without options cuts a text into lexemes and gives out a token for each, or it
fails at the first place where a lexeme should begin and a quote is open. -/
theorem tokenize_spells (t : Tokenizer) (hl : t.lexicon.Ready) (ho : t.options = {})
    (text : String) :
    (∃ lexemes tokens, (t.tokenize text).1 = .ok tokens ∧ lexemes.flatten = text.toList ∧
      t.lexicon.Peels [] lexemes ∧ t.lexicon.Spells Position.counted lexemes tokens) ∨
    ∃ lexemes quote rest, lexemes.flatten ++ quote :: rest = text.toList ∧
      t.lexicon.Peels (quote :: rest) lexemes ∧ (quote = '"' ∨ quote = '\'') ∧
      Quoted.scan? quote rest = none ∧ (t.tokenize text).1 =
        .error ⟨.unterminatedString quote, Position.counted lexemes.flatten⟩ := by
  obtain ⟨r, hr⟩ := hl.wellRouted.exists_cut text.toList {}
  have hcounted : Position.counted = Position.advanceAll {} :=
    funext fun front => (Position.after_eq_counted front).symm
  have hrun : (t.tokenize text).1 = r := by
    rw [tokenize, setInput_eq_reading, ho]
    exact hr.tokens_reading_plain hl.wellRouted
  rw [hrun, hcounted]
  exact hr.lexemes hl.wellRouted

/-- A word over two lines, a number, and a point and a comment that come to nothing more. -/
theorem tokenize_spells_two_lines :
    Lexicon.formulas.Ready ∧ ∃ lexemes, lexemes.flatten = "\"a\n\"\"\".5./*".toList ∧
      Lexicon.formulas.Peels [] lexemes ∧
      Lexicon.formulas.Spells Position.counted lexemes
        [⟨.word, "a\n\"", ⟨1, 1⟩⟩, ⟨.float, ".5", ⟨2, 4⟩⟩, ⟨.symbol, ".", ⟨2, 6⟩⟩,
          ⟨.comment, "/*", ⟨2, 7⟩⟩, ⟨.eof, "", ⟨2, 9⟩⟩] := by
  have htokens : (tokenize { lexicon := .formulas } "\"a\n\"\"\".5./*").1.toOption =
      some [⟨.word, "a\n\"", ⟨1, 1⟩⟩, ⟨.float, ".5", ⟨2, 4⟩⟩, ⟨.symbol, ".", ⟨2, 6⟩⟩,
        ⟨.comment, "/*", ⟨2, 7⟩⟩, ⟨.eof, "", ⟨2, 9⟩⟩] := by
    rw [Lexicon.formulas_eq_ofRanges]
    decide +kernel
  obtain ⟨lexemes, tokens, hok, hflat, hpeels, hspells⟩ | ⟨_, _, _, _, _, _, _, herror⟩ :=
    tokenize_spells { lexicon := .formulas } (.inr rfl) rfl "\"a\n\"\"\".5./*"
  · rw [hok] at htokens
    obtain rfl := Option.some.inj htokens
    exact ⟨.inr rfl, lexemes, hflat, hpeels, hspells⟩
  · rw [herror] at htokens
    cases htokens

end Tokenizer

end Formula
