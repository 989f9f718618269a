import Formula.Proofs.Lexical.Cutting
import Formula.Proofs.Lexical.Pieces
import Mathlib.Data.List.Forall2

/-!
# Tokens of spaced pieces

Pieces with blanks between are read back one by one, so a text made of them has one token for
each piece.
-/

namespace Formula

open Text Lexicon

/-- The text consists of the pieces with at least one blank between two of them. -/
inductive Spaced : List Piece → List Char → Prop
  | last (p : Piece) : Spaced [p] p.spelling
  | cons (p : Piece) {blanks : List Char} (hne : blanks ≠ [])
    (hblanks : ∀ c ∈ blanks, c.toNat ≤ 32) {ps : List Piece} {text : List Char}
    (h : Spaced ps text) : Spaced (p :: ps) (p.spelling ++ (blanks ++ text))

theorem endsToken_append {blanks : List Char} (hne : blanks ≠ [])
    (hblanks : ∀ c ∈ blanks, c.toNat ≤ 32) (text : List Char) : EndsToken (blanks ++ text) := by
  cases blanks with
  | nil => exact absurd rfl hne
  | cons c blanks =>
    intro d hd
    cases hd
    exact hblanks c (.head _)

namespace Tokenizer

def overFormula (cs : List Char) (q : Position) (last : Option TokenKind) : Tokenizer :=
  { lexicon := .formulas, options := Parsed.options, cursor := ⟨cs, q⟩, last := last }

theorem overFormula_eq_reading (cs : List Char) (q : Position) (last : Option TokenKind) :
    overFormula cs q last = reading .formulas Parsed.options ⟨cs, q⟩ last := rfl

theorem tokens_piece (p : Piece) {rest : List Char} (h : EndsToken rest) (q : Position)
    (last : Option TokenKind) : (overFormula (p.spelling ++ rest) q last).tokens.1 =
      (overFormula rest (q.advanceAll p.spelling) (some p.kind)).tokens.1.map
        (⟨p.kind, p.content, q⟩ :: ·) := by
  obtain ⟨l, hl⟩ := p.exists_lexes h
  obtain ⟨c, cs, hc, -⟩ := p.exists_spelling_eq_cons
  have hne : p.spelling ++ rest ≠ [] := by simp [hc]
  have htakes := formulas_wellRouted.takes_of_next hne hl.next
  have hnext := hl.next
  have hdrops : Parsed.options.drops last l.kind = false := by
    rw [hl.kind]
    cases p <;> rfl
  rw [← hl.raw] at hnext htakes ⊢
  rw [overFormula_eq_reading, tokens_kept formulas_wellRouted _ q last hnext htakes hdrops,
    hl.text]
  rfl

theorem tokens_blanks {blanks rest : List Char} (hblanks : ∀ c ∈ blanks, c.toNat ≤ 32)
    (hrest : ∀ c ∈ rest.head?, 32 < c.toNat) (q : Position) (last : Option TokenKind) :
    (overFormula (blanks ++ rest) q last).tokens.1 =
      (overFormula rest (q.advanceAll blanks) last).tokens.1 := by
  by_cases hne : blanks = []
  · subst hne
    rfl
  · have hnext := next_blanks hne hblanks hrest
    have htakes := formulas_wellRouted.takes_of_next (List.append_ne_nil_of_left_ne_nil hne rest)
      hnext
    exact tokens_dropped formulas_wellRouted _ q last hnext htakes rfl

theorem tokens_spaced {blanks : List Char} (hblanks : ∀ c ∈ blanks, c.toNat ≤ 32) (p : Piece)
    {rest : List Char} (h : EndsToken rest) (q : Position) (last : Option TokenKind) :
    ∃ q' q'', (overFormula (blanks ++ (p.spelling ++ rest)) q last).tokens.1 =
      (overFormula rest q'' (some p.kind)).tokens.1.map (⟨p.kind, p.content, q'⟩ :: ·) := by
  have hrest : ∀ c ∈ (p.spelling ++ rest).head?, 32 < c.toNat := by
    obtain ⟨c, cs, hc, hcode⟩ := p.exists_spelling_eq_cons
    rw [hc]
    intro d hd
    cases hd
    exact hcode
  rw [tokens_blanks hblanks hrest]
  exact ⟨_, _, tokens_piece p h _ last⟩

theorem exists_tokens {ps : List Piece} {text : List Char} (h : Spaced ps text)
    {blanks : List Char} (hblanks : ∀ c ∈ blanks, c.toNat ≤ 32) (q : Position)
    (last : Option TokenKind) :
    ∃ tokens, (overFormula (blanks ++ text) q last).tokens.1 = .ok tokens ∧
      List.Forall₂ Piece.Matches ps tokens := by
  induction h generalizing blanks q last with
  | last p =>
    have hend : EndsToken [] := nofun
    obtain ⟨q', q'', htokens⟩ := tokens_spaced hblanks p hend q last
    rw [List.append_nil, overFormula_eq_reading [], tokens_atEnd formulas_wellRouted] at htokens
    exact ⟨_, htokens, .cons ⟨q', rfl⟩ .nil⟩
  | @cons p gap hne hgap ps text h ih =>
    have hend := endsToken_append hne hgap text
    obtain ⟨q', q'', htokens⟩ := tokens_spaced hblanks p hend q last
    obtain ⟨more, hmore, hmatches⟩ := ih hgap q'' (some p.kind)
    rw [hmore] at htokens
    exact ⟨_, htokens, .cons ⟨q', rfl⟩ hmatches⟩

end Tokenizer

theorem Spaced.exists_tokensOf {ps : List Piece} {text : List Char} (h : Spaced ps text) :
    ∃ tokens, Parsed.tokensOf (String.ofList text) = .ok tokens ∧
      List.Forall₂ Piece.Matches ps tokens := by
  have hempty : ∀ c ∈ ([] : List Char), c.toNat ≤ 32 := nofun
  obtain ⟨tokens, htokens, hmatches⟩ := Tokenizer.exists_tokens h hempty {} none
  refine ⟨tokens, ?_, hmatches⟩
  rw [← htokens, Parsed.tokensOf, Tokenizer.tokenize, Tokenizer.setInput, Cursor.ofString,
    String.toList_ofList]
  rfl

end Formula
