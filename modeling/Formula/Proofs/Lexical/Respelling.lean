import Formula.Proofs.Lexical.Options
import Formula.Proofs.Lexical.Shapes
import Mathlib.Data.List.Forall2

/-!
# Tokens that are spelled again

A token is put down as its text, a string with quotes around it. Tokens put down one after another
are read back if the lexicon takes each of them off the text as it was put down, without anything
of the next one. When they are read back at all, this is so: a lexeme is never shorter than what
its token is put down as, so there is no room for a lexeme that leaves no token or for a name in
quotes.
-/

namespace Formula

open Text Lexicon

/-- What the lexicon of formulas finds at the front of a text that is not used up. -/
inductive Lexeme.Found : List Char → Lexeme → Prop
  | word {c : Char} {cs run : List Char} (hroute : formulas.routes.lookup c = some .word)
    (hrun : run = runOf formulas.word.letters (c :: cs)) :
    Found (c :: cs) ⟨if isKeyword (String.ofList run) then .keyword else .word, run, run⟩
  | numeric {cs raw : List Char} {kind : TokenKind} (h : NumericForm kind raw) :
    Found cs ⟨kind, raw, raw⟩
  | string {cs : List Char} (s : List Char) :
    Found cs ⟨.quoted, Quoted.encode '\'' s, Quoted.encode '\'' s⟩
  | name {cs : List Char} (s : List Char) : Found cs ⟨.word, Quoted.encode '"' s, s⟩
  | other {cs raw : List Char} {kind : TokenKind}
    (hkind : kind ∈ [.symbol, .whitespace, .comment, .unknown]) : Found cs ⟨kind, raw, raw⟩

theorem symbolRule_found {cs front : List Char} {x : Lexeme}
    (h : symbolRule formulas.symbols cs = .ok x) : x.Found front := by
  cases cs with
  | nil => cases h
  | cons c cs =>
    obtain ⟨y, hy, hkind, hverbatim⟩ := symbolRule_cons formulas_wellRouted.symbols c cs
    rw [h] at hy
    cases hy
    obtain ⟨kind, raw, text⟩ := x
    obtain rfl : text = raw := hverbatim.text_eq
    obtain rfl : kind = .symbol := hkind
    exact .other (by decide)

theorem quotedWordRule_found {c : Char} {cs : List Char} {x : Lexeme} (hc : c = '"' ∨ c = '\'')
    (h : quotedWordRule (c :: cs) = .ok x) : x.Found (c :: cs) := by
  unfold quotedWordRule quotedRule at h
  dsimp only at h
  cases hscan : Quoted.scan? c cs with
  | none =>
    rw [hscan] at h
    cases h
  | some found =>
    obtain ⟨body, rest⟩ := found
    obtain ⟨s, hs⟩ := Quoted.exists_encode_of_scan? hscan
    rw [hscan] at h
    obtain rfl | rfl := hc
    · cases h
      rw [hs, Quoted.decode_encode]
      exact .name s
    · cases h
      rw [hs]
      exact .string s

theorem slashCommentRule_found {cs front : List Char} {x : Lexeme}
    (h : slashCommentRule formulas.symbols true cs = .ok x) : x.Found front := by
  unfold slashCommentRule at h
  split at h
  · cases h
    exact .other (by decide)
  · rw [if_pos rfl] at h
    cases h
    exact .other (by decide)
  · exact symbolRule_found h
  · cases h

theorem found_of_next {c : Char} {cs : List Char} {x : Lexeme}
    (h : formulas.next (c :: cs) = .ok x) : x.Found (c :: cs) := by
  cases hroute : formulas.routes.lookup c with
  | none =>
    simp only [next, hroute] at h
    cases h
    exact .other (by decide)
  | some rule =>
    rw [next_cons hroute] at h
    have hstarts := formulas_wellRouted.starts hroute
    cases rule with
    | whitespace =>
      change whitespaceRule formulas.blanks (c :: cs) = _ at h
      unfold whitespaceRule at h
      dsimp only at h
      split_ifs at h
      cases h
      exact .other (by decide)
    | word =>
      change formulas.word.apply (c :: cs) = _ at h
      have hreserved : formulas.word.reserved = true := rfl
      unfold WordRule.apply at h
      simp only [hreserved, Bool.true_and] at h
      have hfound := @Lexeme.Found.word c cs _ hroute rfl
      split_ifs at h with hempty hkeyword
      · cases h
        rw [hkeyword] at hfound
        exact hfound
      · cases h
        rw [if_neg hkeyword] at hfound
        exact hfound
    | number =>
      obtain hsymbol | ⟨hnumeric, htext⟩ :=
        scientificNumberRule_numeric formulas_wellRouted.symbols h
      · exact symbolRule_found hsymbol
      · obtain ⟨kind, raw, text⟩ := x
        obtain rfl : text = raw := htext
        exact .numeric hnumeric
    | quote => exact quotedWordRule_found hstarts h
    | comment => exact slashCommentRule_found h
    | symbol =>
      change symbolRule formulas.symbols (c :: cs) = _ at h
      exact symbolRule_found h

theorem found_of_next_append {x : Lexeme} {cs rest : List Char}
    (h : formulas.next (cs ++ rest) = .ok x) (hne : cs ≠ []) : x.Found (cs ++ rest) := by
  cases cs with
  | nil => exact absurd rfl hne
  | cons c cs => exact found_of_next h

/-- What the token is put down as when a text is made from tokens. -/
def Token.spelling (t : Token) : List Char :=
  match t.kind with
  | .quoted => Quoted.encode '\'' t.text.toList
  | _ => t.text.toList

/-- The characters of tokens that are put down one after another. -/
def spelled (ts : List Token) : List Char := ts.flatMap Token.spelling

theorem spelled_cons (t : Token) (ts : List Token) :
    spelled (t :: ts) = t.spelling ++ spelled ts :=
  List.flatMap_cons

theorem Token.Same.trans {t u v : Token} (h : t.Same u) (k : u.Same v) : t.Same v :=
  ⟨h.1.trans k.1, h.2.trans k.2⟩

theorem Token.Same.spelling_eq {t u : Token} (h : t.Same u) : t.spelling = u.spelling := by
  rw [spelling, spelling, h.1, h.2]

theorem spelled_congr {ts us : List Token} (h : List.Forall₂ Token.Same ts us) :
    spelled ts = spelled us := by
  induction h with
  | nil => rfl
  | cons ht h ih => rw [spelled_cons, spelled_cons, ht.spelling_eq, ih]

theorem Parsed.toList_compose (ts : List Token) : (compose ts).toList = spelled ts := by
  rw [compose]
  induction ts with
  | nil => rfl
  | cons t ts ih =>
    rw [List.map_cons, String.join_cons, String.toList_append, ih, spelled_cons]
    refine congrArg (· ++ spelled ts) ?_
    obtain ⟨kind, text, p⟩ := t
    cases kind with
    | quoted => exact String.toList_ofList
    | _ => rfl

def Lexeme.token (x : Lexeme) (p : Position) : Token :=
  Parsed.options.finish ⟨x.kind, String.ofList x.text, p⟩

theorem Lexeme.kind_token (x : Lexeme) (p : Position) : (x.token p).kind = x.kind := by
  obtain ⟨kind, raw, text⟩ := x
  cases kind with
  | quoted =>
    simp only [token, TokenOptions.finish]
    split <;> rfl
  | _ => rfl

theorem Lexeme.token_same (x : Lexeme) (p q : Position) : (x.token p).Same (x.token q) := by
  obtain ⟨kind, raw, text⟩ := x
  cases kind with
  | quoted =>
    simp only [token, TokenOptions.finish]
    split
    · exact ⟨rfl, rfl⟩
    · exact ⟨rfl, rfl⟩
  | _ => exact ⟨rfl, rfl⟩

theorem Lexeme.token_of_ne_quoted {kind : TokenKind} (hkind : kind ≠ .quoted) (raw text : List Char)
    (p : Position) : Lexeme.token ⟨kind, raw, text⟩ p = ⟨kind, String.ofList text, p⟩ := by
  cases kind with
  | quoted => exact absurd rfl hkind
  | _ => rfl

theorem Lexeme.token_string (s : List Char) (p : Position) :
    Lexeme.token ⟨.quoted, Quoted.encode '\'' s, Quoted.encode '\'' s⟩ p =
      ⟨.quoted, String.ofList s, p⟩ := by
  have hchars : (String.ofList (Quoted.encode '\'' s)).toList =
      '\'' :: (Quoted.double '\'' s ++ ['\'']) := String.toList_ofList
  have hdecode : Quoted.decode '\'' ('\'' :: (Quoted.double '\'' s ++ ['\''])) = s :=
    Quoted.decode_encode '\'' s
  simp only [token, TokenOptions.finish, hchars, hdecode]
  rfl

/-- A token is put down as its lexeme was written, but without the quotes around a name. -/
theorem Lexeme.Found.spelling {cs : List Char} {x : Lexeme} (h : x.Found cs) (p : Position) :
    (x.token p).spelling = x.raw ∨
      x.kind = .word ∧ (x.token p).spelling = x.text ∧ x.raw = Quoted.encode '"' x.text := by
  have hplain : ∀ {kind : TokenKind} (raw : List Char), kind ≠ .quoted →
      (Lexeme.token ⟨kind, raw, raw⟩ p).spelling = raw := by
    intro kind raw hkind
    rw [Lexeme.token_of_ne_quoted hkind, Token.spelling]
    cases kind with
    | quoted => exact absurd rfl hkind
    | _ => exact String.toList_ofList
  cases h with
  | word hroute hrun => exact .inl (hplain _ (by split <;> decide))
  | numeric h => exact .inl (hplain _ h.kind_ne_quoted)
  | string s =>
    rw [Lexeme.token_string, Token.spelling]
    exact .inl (congrArg (Quoted.encode '\'') String.toList_ofList)
  | name s => exact .inr ⟨rfl, String.toList_ofList, rfl⟩
  | other hkind =>
    refine .inl (hplain _ ?_)
    rintro rfl
    revert hkind
    decide

/-- The tokens of a formula, wherever they stand, with the characters it is made of; layout leaves
no token. -/
inductive Lexed : List Char → List Token → Prop
  | nil : Lexed [] []
  | layout {x : Lexeme} {rest : List Char} {ts : List Token}
    (h : formulas.next (x.raw ++ rest) = .ok x) (hne : x.raw ≠ [])
    (hdrop : Parsed.options.drops none x.kind = true) (more : Lexed rest ts) :
    Lexed (x.raw ++ rest) ts
  | token {x : Lexeme} {rest : List Char} {t : Token} {ts : List Token}
    (h : formulas.next (x.raw ++ rest) = .ok x) (hne : x.raw ≠ [])
    (hkeep : Parsed.options.drops none x.kind = false) (ht : (x.token {}).Same t)
    (more : Lexed rest ts) : Lexed (x.raw ++ rest) (t :: ts)

/-- Whitespace is left out altogether, so it never matters what came before. -/
theorem Parsed.drops_options (last : Option TokenKind) (kind : TokenKind) :
    options.drops last kind = options.drops none kind := by
  cases kind <;> rfl

theorem Lexicon.Cut.lexed {c : Cursor} {all : List Token} (h : formulas.Cut c (.ok all))
    (last : Option TokenKind) : Lexed c.rest (Parsed.options.processAfter last all) := by
  generalize hr : (Except.ok all : Except SyntaxError _) = r at h
  induction h generalizing all last with
  | atEnd p =>
    cases hr
    exact .nil
  | fault p h => cases hr
  | @lexeme x rest p r h hx more ih =>
    cases r with
    | error e => cases hr
    | ok ts =>
      cases hr
      cases hdrops : Parsed.options.drops last x.kind with
      | true =>
        rw [TokenOptions.processAfter_cons_of_drops (t := ⟨x.kind, _, p⟩) hx.kind_ne_eof hdrops]
        exact .layout h hx.raw_ne_nil (Parsed.drops_options last _ ▸ hdrops) (ih last rfl)
      | false =>
        rw [TokenOptions.processAfter_cons (t := ⟨x.kind, _, p⟩) hx.kind_ne_eof hdrops]
        exact .token h hx.raw_ne_nil (Parsed.drops_options last _ ▸ hdrops) (x.token_same {} p)
          (ih _ rfl)

theorem Parsed.tokensOf_eq_reading (text : String) :
    tokensOf text = (Tokenizer.reading formulas options ⟨text.toList, {}⟩ none).tokens.1 := rfl

theorem Parsed.lexed_of_tokensOf {text : String} {ts : List Token} (h : tokensOf text = .ok ts) :
    Lexed text.toList ts := by
  obtain ⟨r, hcut⟩ := formulas_wellRouted.exists_cut text.toList {}
  have hreading := hcut.tokens_reading formulas_wellRouted options none
  rw [← tokensOf_eq_reading, h] at hreading
  cases r with
  | error e => cases hreading
  | ok all =>
    cases hreading
    exact hcut.lexed none

namespace Lexed

variable {cs : List Char} {ts : List Token}

theorem exists_tokens_reading (h : Lexed cs ts) (p : Position) (last : Option TokenKind) :
    ∃ us, (Tokenizer.reading formulas Parsed.options ⟨cs, p⟩ last).tokens.1 = .ok us ∧
      List.Forall₂ Token.Same us ts := by
  induction h generalizing p last with
  | nil =>
    rw [Tokenizer.tokens_atEnd formulas_wellRouted]
    exact ⟨[], rfl, .nil⟩
  | @layout x rest ts h hne hdrop more ih =>
    have htakes := formulas_wellRouted.takes_of_next (List.append_ne_nil_of_left_ne_nil hne rest) h
    have hdrops : Parsed.options.drops last x.kind = true := by
      rw [Parsed.drops_options, hdrop]
    rw [Tokenizer.tokens_dropped formulas_wellRouted _ p last h htakes hdrops]
    exact ih _ last
  | @token x rest t ts h hne hkeep ht more ih =>
    have htakes := formulas_wellRouted.takes_of_next (List.append_ne_nil_of_left_ne_nil hne rest) h
    have hdrops : Parsed.options.drops last x.kind = false := by
      rw [Parsed.drops_options, hkeep]
    obtain ⟨us, hus, hsame⟩ := ih (p.advanceAll x.raw) (some (x.token p).kind)
    rw [Tokenizer.tokens_kept formulas_wellRouted _ p last h htakes hdrops]
    refine ⟨x.token p :: us, ?_, .cons ((x.token_same p {}).trans ht) hsame⟩
    change (Tokenizer.reading formulas Parsed.options _ (some (x.token p).kind)).tokens.1.map
      (x.token p :: ·) = _
    rw [hus]
    rfl

theorem exists_tokensOf (h : Lexed cs ts) :
    ∃ us, Parsed.tokensOf (String.ofList cs) = .ok us ∧ List.Forall₂ Token.Same us ts := by
  rw [Parsed.tokensOf_eq_reading, String.toList_ofList]
  exact h.exists_tokens_reading {} none

theorem exists_found (h : Lexed cs ts) : ∀ t ∈ ts, ∃ (x : Lexeme) (front : List Char),
    x.Found front ∧ Parsed.options.drops none x.kind = false ∧ (x.token {}).Same t := by
  induction h with
  | nil => exact nofun
  | layout h hne hdrop more ih => exact ih
  | token h hne hkeep ht more ih =>
    exact List.forall_mem_cons.mpr ⟨⟨_, _, found_of_next_append h hne, hkeep, ht⟩, ih⟩

end Lexed

/-- Before the characters `rest` the lexeme of the token is what the token was put down as. -/
structure Token.TakenAs (t : Token) (rest : List Char) (x : Lexeme) : Prop where
  next : formulas.next (t.spelling ++ rest) = .ok x
  raw : x.raw = t.spelling
  ne_nil : t.spelling ≠ []
  keep : Parsed.options.drops none x.kind = false
  same : (x.token {}).Same t

/-- Each token is taken off before the ones behind it. -/
inductive Respelled : List Token → Prop
  | nil : Respelled []
  | cons {t : Token} {ts : List Token} {x : Lexeme} (h : t.TakenAs (spelled ts) x)
    (more : Respelled ts) : Respelled (t :: ts)

theorem Respelled.congr {ts us : List Token} (h : Respelled ts)
    (hsame : List.Forall₂ Token.Same ts us) : Respelled us := by
  induction hsame with
  | nil => exact .nil
  | @cons t u ts us ht hsame ih =>
    cases h with
    | @cons _ _ x htaken more =>
      have hspelling := ht.spelling_eq
      have hspelled := spelled_congr hsame
      refine .cons (x := x) ⟨?_, ?_, ?_, htaken.keep, htaken.same.trans ht⟩ (ih more)
      · rw [← hspelling, ← hspelled]
        exact htaken.next
      · rw [← hspelling]
        exact htaken.raw
      · rw [← hspelling]
        exact htaken.ne_nil

theorem Respelled.lexed {ts : List Token} (h : Respelled ts) : Lexed (spelled ts) ts := by
  induction h with
  | nil => exact .nil
  | @cons t ts x h more ih =>
    have hnext := h.next
    have hne := h.ne_nil
    rw [← h.raw] at hnext hne
    rw [spelled_cons, ← h.raw]
    exact .token hnext hne h.keep h.same ih

/-- Tokens never take more room than the text they were read from, and when they take as much,
each of them is taken off as it is put down. -/
theorem Lexed.length_spelled_le {cs : List Char} {ts : List Token} (h : Lexed cs ts) :
    (spelled ts).length ≤ cs.length ∧
      (cs.length ≤ (spelled ts).length → cs = spelled ts ∧ Respelled ts) := by
  induction h with
  | nil => exact ⟨Nat.le_refl 0, fun _ => ⟨rfl, .nil⟩⟩
  | @layout x rest ts h hne hdrop more ih =>
    have hpos := List.length_pos_iff.mpr hne
    rw [List.length_append]
    refine ⟨by omega, fun hle => ?_⟩
    omega
  | @token x rest t ts h hne hkeep ht more ih =>
    obtain ⟨hle, hequal⟩ := ih
    rw [spelled_cons, List.length_append, List.length_append, ← ht.spelling_eq]
    obtain hspelling | ⟨-, hspelling, hquoted⟩ := (found_of_next_append h hne).spelling {}
    · rw [hspelling]
      refine ⟨by omega, fun hmore => ?_⟩
      obtain ⟨rfl, hrespelled⟩ := hequal (by omega)
      rw [ht.spelling_eq] at hspelling
      rw [← hspelling] at h hne ⊢
      exact ⟨rfl, .cons ⟨h, hspelling.symm, hne, hkeep, ht⟩ hrespelled⟩
    · have hshorter := Quoted.length_lt_encode '"' x.text
      rw [← hquoted] at hshorter
      rw [hspelling]
      refine ⟨by omega, fun hmore => ?_⟩
      omega

/-- The text made from some tokens has the same tokens if each of them is taken off as it was put
down, and only then. -/
theorem Parsed.tokensOf_compose_iff (ts : List Token) :
    (∃ us, tokensOf (compose ts) = .ok us ∧ List.Forall₂ Token.Same us ts) ↔ Respelled ts := by
  constructor
  · rintro ⟨us, hus, hsame⟩
    have hlexed := lexed_of_tokensOf hus
    rw [toList_compose, ← spelled_congr hsame] at hlexed
    exact (hlexed.length_spelled_le.2 (Nat.le_refl _)).2.congr hsame
  · intro h
    have htokens := h.lexed.exists_tokensOf
    rwa [← toList_compose, String.ofList_toList] at htokens

end Formula
