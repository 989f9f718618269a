import Formula.Expression.Parsed
import Formula.Proofs.Lexical.Formulas
import Formula.Proofs.Text.Quoted
import Formula.Proofs.Number.Decimal

/-!
# The pieces of a written formula

A formula is written as symbols, reserved words, numbers, strings in single quotes and names
in double quotes. Before a blank or at the end each piece is one lexeme, and its token has
the text that the piece stands for.
-/

namespace Formula

open Text Lexicon

/-- The symbols of formulas. -/
def marks : List String :=
  ["(", ")", "[", "]", ",", "+", "-", "*", "/", "%", "^", "=", "<>", "!=", ">", "<", ">=", "<=",
    "<<", ">>"]

/-- The symbols that stand between two operands and nowhere else. -/
def infixMarks : List String :=
  ["*", "/", "%", "^", "=", "<>", "!=", ">", "<", ">=", "<=", "<<", ">>"]

/-- The characters that these symbols begin with. -/
def infixLeads : List Char := ['*', '/', '%', '^', '=', '<', '!', '>']

inductive Piece
  | mark (s : String) (h : s ∈ marks := by decide)
  | reserved (word : String) (h : word ∈ keywords := by decide)
  | number (n : Nat)
  | text (s : String)
  | name (s : String)

namespace Piece

def spelling : Piece → List Char
  | mark s _ => s.toList
  | reserved word _ => word.toList
  | number n => Number.digits n
  | text s => Quoted.encode '\'' s.toList
  | name s => Quoted.encode '"' s.toList

def kind : Piece → TokenKind
  | mark _ _ => .symbol
  | reserved _ _ => .keyword
  | number _ => .integer
  | text _ => .quoted
  | name _ => .word

def content : Piece → String
  | mark s _ => s
  | reserved word _ => word
  | number n => String.ofList (Number.digits n)
  | text s => s
  | name s => s

def token (p : Piece) (q : Position) : Token := ⟨p.kind, p.content, q⟩

/-- The token stands for the piece, wherever it was read. -/
def Matches (p : Piece) (t : Token) : Prop := ∃ q, t = p.token q

/-- At the beginning of the characters `cs` the piece is one lexeme. -/
structure Lexes (p : Piece) (cs : List Char) (l : Lexeme) : Prop where
  next : formulas.next cs = .ok l
  raw : l.raw = p.spelling
  kind : l.kind = p.kind
  text (q : Position) : Parsed.options.finish ⟨l.kind, String.ofList l.text, q⟩ =
    ⟨p.kind, p.content, q⟩

end Piece

theorem formulas_symbols : formulas.symbols =
    .branch '<' none
      (.branch '=' (some .symbol) .leaf
        (.branch '>' (some .symbol) .leaf (.branch '<' (some .symbol) .leaf .leaf)))
      (.branch '>' none
        (.branch '=' (some .symbol) .leaf (.branch '>' (some .symbol) .leaf .leaf))
        (.branch '!' none (.branch '=' (some .symbol) .leaf .leaf) .leaf)) := by
  decide

theorem Lexicon.EndsToken.not_mem_infixLeads {rest : List Char} (h : EndsToken rest) :
    ∀ c ∈ rest.head?, c ∉ infixLeads := by
  have hleads : ∀ c ∈ infixLeads, 32 < c.toNat := by simp [infixLeads]
  intro c hc hlead
  have := h c hc
  have := hleads c hlead
  omega

theorem symbolRule_infixMark {rest : List Char} (h : ∀ c ∈ rest.head?, c ∉ infixLeads) :
    ∀ s ∈ infixMarks,
      symbolRule formulas.symbols (s.toList ++ rest) = .ok ⟨.symbol, s.toList, s.toList⟩ := by
  rw [formulas_symbols]
  cases rest with
  | nil =>
    simp [infixMarks, symbolRule, SymbolTree.longest?, SymbolTree.child?]
  | cons c rest =>
    have hlead := h c rfl
    have heq : c ≠ '=' := by
      rintro rfl
      exact hlead (by decide)
    have hmore : c ≠ '>' := by
      rintro rfl
      exact hlead (by decide)
    have hless : c ≠ '<' := by
      rintro rfl
      exact hlead (by decide)
    simp [infixMarks, symbolRule, SymbolTree.longest?, SymbolTree.child?, heq, hmore, hless]

/-- A symbol is one lexeme, unless it is an infix symbol and another one follows. -/
theorem symbolRule_mark {rest : List Char} : ∀ s ∈ marks,
    (s ∈ infixMarks → ∀ c ∈ rest.head?, c ∉ infixLeads) →
      symbolRule formulas.symbols (s.toList ++ rest) = .ok ⟨.symbol, s.toList, s.toList⟩ := by
  intro s hs h
  by_cases hinfix : s ∈ infixMarks
  · exact symbolRule_infixMark (h hinfix) s hinfix
  · have hother : ∀ s ∈ marks, s ∉ infixMarks →
        symbolRule formulas.symbols (s.toList ++ rest) = .ok ⟨.symbol, s.toList, s.toList⟩ := by
      rw [formulas_symbols]
      simp [marks, infixMarks, symbolRule, SymbolTree.longest?, SymbolTree.child?]
    exact hother s hs hinfix

theorem route_mark : ∀ s ∈ marks, s ≠ "/" →
    ∃ c cs, s.toList = c :: cs ∧ formulas.routes.lookup c = some .symbol := by
  simp [marks, lookup_routes]

theorem next_mark {s : String} (hs : s ∈ marks) {rest : List Char}
    (h : s ∈ infixMarks → ∀ c ∈ rest.head?, c ∉ infixLeads) :
    formulas.next (s.toList ++ rest) = .ok ⟨.symbol, s.toList, s.toList⟩ := by
  have hrule := symbolRule_mark s hs h
  by_cases hslash : s = "/"
  · subst hslash
    have hroute : formulas.routes.lookup '/' = some .comment := by
      rw [lookup_routes]
      rfl
    have hlead := h (by decide)
    change formulas.next ('/' :: rest) = _
    rw [next_cons hroute]
    change slashCommentRule formulas.symbols true ('/' :: rest) = _
    rw [slashCommentRule.eq_def]
    split
    · next heq =>
      cases heq
      exact absurd (by decide) (hlead '*' rfl)
    · next heq =>
      cases heq
      exact absurd (by decide) (hlead '/' rfl)
    · exact hrule
    · next hno => exact absurd rfl (hno rest)
  · obtain ⟨c, cs, hc, hroute⟩ := route_mark s hs hslash
    rw [hc] at hrule ⊢
    rw [List.cons_append, next_cons hroute]
    exact hrule

theorem exists_same_of_isKeyword {text : String} (h : isKeyword text = true) :
    ∃ word ∈ keywords, AsciiCase.Same word text := by
  simpa [isKeyword] using h

theorem lookup_keyword : ∀ word ∈ keywords, isKeyword word = true ∧
    (∃ c cs, word.toList = c :: cs ∧ formulas.routes.lookup c = some .word) ∧
    ∀ c ∈ word.toList, formulas.word.letters.lookup c = some true := by
  simp [keywords, lookup_routes, lookup_letters]
  decide

theorem lookup_letters_of_endsToken {rest : List Char} (h : EndsToken rest) :
    ∀ c ∈ rest.head?, formulas.word.letters.lookup c = none := by
  intro c hc
  have hc := h c hc
  rw [lookup_letters]
  repeat rw [if_neg (by omega)]

/-- A run of letters that can begin a word is one lexeme where no letter follows. -/
theorem next_run {c : Char} {cs rest : List Char}
    (hroute : formulas.routes.lookup c = some .word)
    (hletters : ∀ d ∈ c :: cs, formulas.word.letters.lookup d = some true)
    (hrest : ∀ d ∈ rest.head?, formulas.word.letters.lookup d = none) :
    formulas.next (c :: cs ++ rest) =
      .ok ⟨if isKeyword (String.ofList (c :: cs)) then .keyword else .word, c :: cs, c :: cs⟩ := by
  have hrun := runOf_append hletters hrest
  have hreserved : formulas.word.reserved = true := rfl
  rw [List.cons_append, next_cons hroute]
  change formulas.word.apply (c :: cs ++ rest) = _
  rw [WordRule.apply, hrun, if_neg (List.cons_ne_nil c cs), hreserved, Bool.true_and]
  cases isKeyword (String.ofList (c :: cs)) <;> rfl

theorem next_keyword {word : String} (hw : word ∈ keywords) {rest : List Char}
    (h : EndsToken rest) :
    formulas.next (word.toList ++ rest) = .ok ⟨.keyword, word.toList, word.toList⟩ := by
  obtain ⟨hkeyword, ⟨c, cs, hc, hroute⟩, hletters⟩ := lookup_keyword word hw
  have hword : isKeyword (String.ofList (c :: cs)) = true := by
    rw [← hc, String.ofList_toList]
    exact hkeyword
  rw [hc] at hletters ⊢
  rw [next_run hroute hletters (lookup_letters_of_endsToken h), hword]
  rfl

theorem route_digit {c : Char} (h : c.isDigit = true) :
    formulas.routes.lookup c = some .number := by
  obtain ⟨hlow, hhigh⟩ := Char.isDigit_iff_toNat.mp h
  have hlow : 48 ≤ c.toNat := hlow
  have hhigh : c.toNat ≤ 57 := hhigh
  rw [lookup_routes]
  repeat rw [if_neg (by omega)]
  rw [if_pos ⟨hlow, hhigh⟩]

/-- Nothing follows, or a character that no number goes on with. -/
def EndsNumber (rest : List Char) : Prop :=
  ∀ c ∈ rest.head?, c.isDigit = false ∧ c ≠ '.' ∧ c ≠ 'e' ∧ c ≠ 'E'

theorem Lexicon.EndsToken.endsNumber {rest : List Char} (h : EndsToken rest) :
    EndsNumber rest := by
  intro c hc
  have hblank := h c hc
  have hother : ∀ d : Char, 32 < d.toNat → c ≠ d := by
    rintro d hd rfl
    omega
  refine ⟨?_, hother _ (by decide), hother _ (by decide), hother _ (by decide)⟩
  cases hdigit : c.isDigit with
  | false => rfl
  | true =>
    have hlow : 48 ≤ c.toNat := (Char.isDigit_iff_toNat.mp hdigit).1
    omega

theorem spanDigits_append {ds rest : List Char} (hds : ∀ c ∈ ds, c.isDigit = true)
    (hrest : ∀ c ∈ rest.head?, c.isDigit = false) : spanDigits (ds ++ rest) = (ds, rest) := by
  rw [spanDigits, List.takeWhile_append_of_pos hds, List.dropWhile_append_of_pos hds]
  cases rest with
  | nil => rw [List.takeWhile_nil, List.append_nil, List.dropWhile_nil]
  | cons c rest =>
    have hc : ¬ c.isDigit = true := by
      rw [hrest c rfl]
      exact Bool.false_ne_true
    rw [List.takeWhile_cons_of_neg hc, List.dropWhile_cons_of_neg hc, List.append_nil]

theorem exponentRun_of_endsNumber {rest : List Char} (h : EndsNumber rest) :
    exponentRun rest = [] := by
  cases rest with
  | nil => rfl
  | cons c rest =>
    obtain ⟨-, -, hsmall, hbig⟩ := h c rfl
    rw [exponentRun.eq_def]
    exact if_neg (not_or.mpr ⟨hsmall, hbig⟩)

theorem plainNumberRule_digits {ds rest : List Char} (hne : ds ≠ [])
    (hds : ∀ c ∈ ds, c.isDigit = true) (h : ∀ c ∈ rest.head?, c.isDigit = false ∧ c ≠ '.')
    (symbols : SymbolTree) : plainNumberRule symbols (ds ++ rest) = .ok ⟨.integer, ds, ds⟩ := by
  have hspan := spanDigits_append hds fun c hc => (h c hc).1
  cases ds with
  | nil => exact absurd rfl hne
  | cons d ds =>
    have hminus : d ≠ '-' := by
      rintro rfl
      cases hds '-' (.head _)
    rw [List.cons_append] at hspan ⊢
    cases rest with
    | nil =>
      rw [List.append_nil] at hspan ⊢
      simp [plainNumberRule, hminus, hspan]
    | cons c rest =>
      have hc : c ≠ '.' := (h c rfl).2
      simp [plainNumberRule, hminus, hspan, hc]

theorem next_digits {ds rest : List Char} (hne : ds ≠ []) (hds : ∀ c ∈ ds, c.isDigit = true)
    (h : EndsNumber rest) : formulas.next (ds ++ rest) = .ok ⟨.integer, ds, ds⟩ := by
  have hrule := plainNumberRule_digits hne hds (fun c hc => ⟨(h c hc).1, (h c hc).2.1⟩)
    formulas.symbols
  have hend : exponentRun ((ds ++ rest).drop ds.length) = [] := by
    rw [List.drop_left]
    exact exponentRun_of_endsNumber h
  cases ds with
  | nil => exact absurd rfl hne
  | cons d ds =>
    have hdigit := hds d (.head _)
    have hminus : (d :: ds ++ rest).head? ≠ some '-' := by
      rintro ⟨⟩
      cases hdigit
    rw [List.cons_append, next_cons (route_digit hdigit), ← List.cons_append]
    change scientificNumberRule formulas.symbols (d :: ds ++ rest) = _
    rw [scientificNumberRule, if_neg hminus, hrule]
    dsimp only
    rw [if_pos (.inl rfl), if_pos hend]

theorem quotedRule_encode (q : Char) (cs : List Char) {rest : List Char}
    (h : rest.head? ≠ some q) : quotedRule (Quoted.encode q cs ++ rest) =
      .ok ⟨.quoted, Quoted.encode q cs, Quoted.encode q cs⟩ := by
  have hscan := Quoted.scan?_double cs h
  rw [Quoted.encode, List.cons_append, List.cons_append, List.append_assoc,
    List.singleton_append, quotedRule, hscan]

theorem next_text (s : String) {rest : List Char} (h : rest.head? ≠ some '\'') :
    formulas.next (Quoted.encode '\'' s.toList ++ rest) =
      .ok ⟨.quoted, Quoted.encode '\'' s.toList, Quoted.encode '\'' s.toList⟩ := by
  have hroute : formulas.routes.lookup '\'' = some .quote := by
    rw [lookup_routes]
    rfl
  have hrule := quotedRule_encode '\'' s.toList h
  have happly : quotedWordRule (Quoted.encode '\'' s.toList ++ rest) =
      .ok ⟨.quoted, Quoted.encode '\'' s.toList, Quoted.encode '\'' s.toList⟩ := by
    rw [quotedWordRule, hrule]
    rfl
  exact (next_cons hroute _).trans happly

theorem next_name (s : String) {rest : List Char} (h : rest.head? ≠ some '"') :
    formulas.next (Quoted.encode '"' s.toList ++ rest) =
      .ok ⟨.word, Quoted.encode '"' s.toList, s.toList⟩ := by
  have hroute : formulas.routes.lookup '"' = some .quote := by
    rw [lookup_routes]
    rfl
  have hrule := quotedRule_encode '"' s.toList h
  have happly : quotedWordRule (Quoted.encode '"' s.toList ++ rest) =
      .ok ⟨.word, Quoted.encode '"' s.toList, s.toList⟩ := by
    rw [quotedWordRule, hrule]
    dsimp only
    rw [Quoted.decode_encode]
    rfl
  exact (next_cons hroute _).trans happly

namespace Piece

theorem exists_lexes (p : Piece) {rest : List Char} (h : EndsToken rest) :
    ∃ l, p.Lexes (p.spelling ++ rest) l := by
  cases p with
  | mark s hs =>
    refine ⟨_, next_mark hs fun _ => h.not_mem_infixLeads, rfl, rfl, ?_⟩
    intro q
    rw [String.ofList_toList]
    rfl
  | reserved word hw =>
    refine ⟨_, next_keyword hw h, rfl, rfl, ?_⟩
    intro q
    rw [String.ofList_toList]
    rfl
  | number n => exact ⟨_, next_digits (Number.digits_ne_nil n)
    (fun c hc => Number.isDigit_of_mem_digits hc) h.endsNumber, rfl, rfl, fun q => rfl⟩
  | text s =>
    refine ⟨_, next_text s (h.head_ne (by decide)), rfl, rfl, ?_⟩
    intro q
    have hchars : (String.ofList (Quoted.encode '\'' s.toList)).toList =
        '\'' :: (Quoted.double '\'' s.toList ++ ['\'']) :=
      String.toList_ofList
    have hdecode : Quoted.decode '\'' ('\'' :: (Quoted.double '\'' s.toList ++ ['\''])) =
        s.toList :=
      Quoted.decode_encode '\'' s.toList
    simp only [TokenOptions.finish, hchars, hdecode, String.ofList_toList]
    rfl
  | name s =>
    refine ⟨_, next_name s (h.head_ne (by decide)), rfl, rfl, ?_⟩
    intro q
    rw [String.ofList_toList]
    rfl

theorem exists_spelling_eq_cons (p : Piece) :
    ∃ c cs, p.spelling = c :: cs ∧ 32 < c.toNat := by
  cases p with
  | mark s hs =>
    have hmarks : ∀ s ∈ marks, ∃ c cs, s.toList = c :: cs ∧ 32 < c.toNat := by
      simp [marks]
    exact hmarks s hs
  | reserved word hw =>
    have hkeywords : ∀ word ∈ keywords, ∃ c cs, word.toList = c :: cs ∧ 32 < c.toNat := by
      simp [keywords]
    exact hkeywords word hw
  | number n =>
    cases hd : Number.digits n with
    | nil => exact absurd hd (Number.digits_ne_nil n)
    | cons d ds =>
      have hdigit : d.isDigit = true := Number.isDigit_of_mem_digits (hd ▸ List.mem_cons_self)
      have hlow : 48 ≤ d.toNat := (Char.isDigit_iff_toNat.mp hdigit).1
      exact ⟨d, ds, hd, by omega⟩
  | text s => exact ⟨_, _, rfl, by decide⟩
  | name s => exact ⟨_, _, rfl, by decide⟩

end Piece

end Formula
