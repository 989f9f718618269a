import Formula.Proofs.Lexical.Numbers

/-!
# What lexemes look like

The kind of a lexeme of formulas tells what it looks like. Numbers have the form of literals,
keywords are the reserved words, there are no letters in symbols, in blanks and in what is unknown,
and a string stands in single quotes.
-/

namespace Formula

open Text

theorem Text.isAlpha_iff_toNat {c : Char} : c.isAlpha = true ↔
    (65 ≤ c.toNat ∧ c.toNat ≤ 90) ∨ (97 ≤ c.toNat ∧ c.toNat ≤ 122) := by
  have hupper : c.isUpper = true ↔ 'A'.val ≤ c.val ∧ c.val ≤ 'Z'.val := decide_eq_true_iff
  have hlower : c.isLower = true ↔ 'a'.val ≤ c.val ∧ c.val ≤ 'z'.val := by
    change (decide ('a'.val ≤ c.val) && decide (c.val ≤ 'z'.val)) = true ↔ _
    rw [Bool.and_eq_true, decide_eq_true_iff, decide_eq_true_iff]
  change (c.isUpper || c.isLower) = true ↔ _
  rw [Bool.or_eq_true, hupper, hlower]
  rfl

theorem Text.not_isAlpha_of_isDigit {c : Char} (h : c.isDigit = true) : c.isAlpha = false := by
  have hdigit : 48 ≤ c.toNat ∧ c.toNat ≤ 57 := Char.isDigit_iff_toNat.mp h
  rw [← Bool.not_eq_true, isAlpha_iff_toNat]
  omega

namespace SymbolTree

/-- No symbol of the tree has a letter in it. -/
def NoLetters : SymbolTree → Prop
  | leaf => True
  | branch lead _ below beside => lead.isAlpha = false ∧ below.NoLetters ∧ beside.NoLetters

theorem NoLetters.of_child? {t below : SymbolTree} {c : Char} {kind : Option TokenKind}
    (h : t.NoLetters) (hc : t.child? c = some (kind, below)) :
    c.isAlpha = false ∧ below.NoLetters := by
  induction t with
  | leaf => cases hc
  | branch lead own down beside _ ih =>
    unfold child? at hc
    split_ifs at hc with hlead
    · cases hc
      subst hlead
      exact ⟨h.1, h.2.1⟩
    · exact ih h.2.2 hc

theorem NoLetters.of_longest? {t : SymbolTree} (h : t.NoLetters) {cs : List Char} {n : Nat}
    {kind : TokenKind} (hn : t.longest? cs = some (n, kind)) :
    ∀ c ∈ cs.take n, c.isAlpha = false := by
  induction cs generalizing t n with
  | nil => cases hn
  | cons d cs ih =>
    unfold longest? at hn
    split at hn
    · cases hn
    · next own below hchild =>
      obtain ⟨hd, hbelow⟩ := h.of_child? hchild
      split at hn
      · next m k hlonger =>
        cases hn
        rw [List.take_succ_cons]
        exact List.forall_mem_cons.mpr ⟨hd, ih hbelow hlonger⟩
      · cases own with
        | none => cases hn
        | some k =>
          cases hn
          simpa using hd

theorem noLetters_formulas : Lexicon.formulas.symbols.NoLetters := by
  rw [formulas_symbols]
  simp only [NoLetters]
  decide

end SymbolTree

theorem symbolRule_noLetters {symbols : SymbolTree} (hs : symbols.NoLetters) {c : Char}
    (hc : c.isAlpha = false) {cs : List Char} {x : Lexeme}
    (h : symbolRule symbols (c :: cs) = .ok x) : ∀ d ∈ x.text, d.isAlpha = false := by
  cases hn : symbols.longest? (c :: cs) with
  | none =>
    simp only [symbolRule, hn] at h
    cases h
    simpa using hc
  | some found =>
    simp only [symbolRule, hn] at h
    cases h
    exact hs.of_longest? hn

def Lexeme.Shaped (x : Lexeme) : Prop :=
  match x.kind with
  | .integer => x.Number
  | .float => x.Number
  | .keyword => isKeyword (String.ofList x.text) = true
  | .symbol => ∀ c ∈ x.text, c.isAlpha = false
  | .whitespace => ∀ c ∈ x.text, c.isAlpha = false
  | .unknown => ∀ c ∈ x.text, c.isAlpha = false
  | .quoted => x.text = x.raw ∧ x.raw.head? = some '\''
  | .number => False
  | .special => False
  | _ => True

namespace Lexicon

theorem lookup_routes_of_isAlpha {c : Char} (h : c.isAlpha = true) :
    formulas.routes.lookup c = some .word := by
  rw [isAlpha_iff_toNat] at h
  rw [lookup_routes]
  repeat rw [if_neg (by omega)]
  split_ifs <;> first | rfl | omega

theorem symbolRule_shaped {c : Char} (hc : formulas.routes.lookup c ≠ some .word)
    {cs : List Char} {x : Lexeme} (h : symbolRule formulas.symbols (c :: cs) = .ok x) :
    x.Shaped := by
  have hletter : c.isAlpha = false := by
    rw [← Bool.not_eq_true]
    exact fun halpha => hc (lookup_routes_of_isAlpha halpha)
  have hkind : x.kind = .symbol := by
    obtain ⟨y, hy, hkind, -⟩ := symbolRule_cons formulas_wellRouted.symbols c cs
    rw [hy] at h
    cases h
    exact hkind
  have hno := symbolRule_noLetters SymbolTree.noLetters_formulas hletter h
  simpa only [Lexeme.Shaped, hkind] using hno

end Lexicon

theorem Lexeme.Number.shaped {x : Lexeme} (h : x.Number) : x.Shaped := by
  cases h with
  | integer hne hds => exact .integer hne hds
  | float h => exact .float h

namespace Lexicon

theorem whitespaceRule_shaped {cs : List Char} {x : Lexeme}
    (h : whitespaceRule formulas.blanks cs = .ok x) : x.Shaped := by
  unfold whitespaceRule at h
  dsimp only at h
  split_ifs at h
  cases h
  intro c hc
  have hblank := List.all_eq_true.mp List.all_takeWhile c hc
  rw [lookup_blanks] at hblank
  rw [← Bool.not_eq_true, isAlpha_iff_toNat]
  split_ifs at hblank
  · omega
  · cases hblank

theorem wordRule_shaped {rule : WordRule} {cs : List Char} {x : Lexeme}
    (h : rule.apply cs = .ok x) : x.Shaped := by
  unfold WordRule.apply at h
  dsimp only at h
  split_ifs at h with hempty hkeyword
  · cases h
    exact (Bool.and_eq_true_iff.mp hkeyword).2
  · cases h
    trivial

theorem quotedWordRule_shaped {c : Char} (hc : c = '"' ∨ c = '\'') {cs : List Char} {x : Lexeme}
    (h : quotedWordRule (c :: cs) = .ok x) : x.Shaped := by
  unfold quotedWordRule quotedRule at h
  dsimp only at h
  cases hscan : Quoted.scan? c cs with
  | none =>
    rw [hscan] at h
    cases h
  | some found =>
    rw [hscan] at h
    obtain rfl | rfl := hc
    · cases h
      trivial
    · cases h
      exact ⟨rfl, rfl⟩

theorem slashCommentRule_shaped {cs : List Char} {x : Lexeme}
    (h : slashCommentRule formulas.symbols true ('/' :: cs) = .ok x) : x.Shaped := by
  have hslash : formulas.routes.lookup '/' ≠ some .word := by
    rw [lookup_routes]
    decide
  unfold slashCommentRule at h
  split at h
  · cases h
    trivial
  · rw [if_pos rfl] at h
    cases h
    trivial
  · exact symbolRule_shaped hslash h
  · cases h

theorem shaped_of_next {cs : List Char} {x : Lexeme} (h : formulas.next cs = .ok x) :
    x.Shaped := by
  cases cs with
  | nil =>
    cases h
    trivial
  | cons c cs =>
    cases hroute : formulas.routes.lookup c with
    | none =>
      simp only [next, hroute] at h
      cases h
      have hc : c.isAlpha = false := by
        rw [← Bool.not_eq_true]
        intro halpha
        rw [lookup_routes_of_isAlpha halpha] at hroute
        cases hroute
      simpa [Lexeme.Shaped] using hc
    | some rule =>
      rw [next_cons hroute] at h
      have hstarts := formulas_wellRouted.starts hroute
      cases rule with
      | whitespace => exact whitespaceRule_shaped h
      | word => exact wordRule_shaped h
      | number =>
        obtain hsymbol | hnumber := scientificNumberRule_number formulas_wellRouted.symbols h
        · exact symbolRule_shaped (by simp [hroute]) hsymbol
        · exact hnumber.shaped
      | quote => exact quotedWordRule_shaped hstarts h
      | comment =>
        obtain rfl : c = '/' := hstarts
        exact slashCommentRule_shaped h
      | symbol => exact symbolRule_shaped (by simp [hroute]) h

end Lexicon

end Formula
