import Formula.Proofs.Lexical.Formulas
import Formula.Proofs.Lexical.Symbols
import Mathlib.Tactic.SplitIfs

/-!
# What a lexeme takes

A rule that is led to a character it can start with always finds a lexeme, the quote rule
apart, and the lexeme is the front of the text. Each ready lexicon leads its rules to such
characters only, so the one thing that can go wrong is an open quote.
-/

namespace Formula

open Text

/-- The lexeme stands at the front of the text and means the characters it is made of. -/
structure Lexeme.Verbatim (x : Lexeme) (cs : List Char) : Prop where
  raw_ne_nil : x.raw ≠ []
  raw_front : x.raw <+: cs
  kind_ne_eof : x.kind ≠ .eof
  text_eq : x.text = x.raw

theorem symbolRule_cons {symbols : SymbolTree} (hs : symbols.AllSymbols) (c : Char)
    (cs : List Char) :
    ∃ x, symbolRule symbols (c :: cs) = .ok x ∧ x.kind = .symbol ∧ x.Verbatim (c :: cs) := by
  cases h : symbols.longest? (c :: cs) with
  | none =>
    refine ⟨⟨.symbol, [c], [c]⟩, by simp [symbolRule, h], rfl, ?_⟩
    exact ⟨by simp, by simp, by simp, rfl⟩
  | some found =>
    obtain ⟨n, kind⟩ := found
    obtain ⟨hpos, -, hkind⟩ := SymbolTree.longest?_eq_some h
    have hkind := hs _ _ hkind
    subst hkind
    refine ⟨⟨.symbol, (c :: cs).take n, (c :: cs).take n⟩, by simp [symbolRule, h], rfl, ?_⟩
    refine ⟨?_, List.take_prefix _ _, by simp, rfl⟩
    simp only [ne_eq, List.take_eq_nil_iff, reduceCtorEq, or_false]
    omega

theorem runOf_front (letters : CharMap Bool) (cs : List Char) : runOf letters cs <+: cs :=
  List.takeWhile_prefix _

theorem runOf_ne_nil {letters : CharMap Bool} {c : Char} (h : letters.lookup c = some true)
    (cs : List Char) : runOf letters (c :: cs) ≠ [] := by
  simp [runOf, h]

theorem whitespaceRule_cons {blanks : CharMap Bool} {c : Char} (h : blanks.lookup c = some true)
    (cs : List Char) : ∃ x, whitespaceRule blanks (c :: cs) = .ok x ∧ x.Verbatim (c :: cs) := by
  have hne := runOf_ne_nil h cs
  refine ⟨⟨.whitespace, runOf blanks (c :: cs), runOf blanks (c :: cs)⟩, ?_, ?_⟩
  · simp [whitespaceRule, hne]
  · exact ⟨hne, runOf_front _ _, by simp, rfl⟩

theorem WordRule.apply_cons {rule : WordRule} {c : Char} (h : rule.letters.lookup c = some true)
    (cs : List Char) : ∃ x, rule.apply (c :: cs) = .ok x ∧ x.Verbatim (c :: cs) := by
  have hne := runOf_ne_nil h cs
  have hfront := runOf_front rule.letters (c :: cs)
  unfold WordRule.apply
  simp only [hne, if_false]
  split_ifs
  · exact ⟨_, rfl, hne, hfront, by simp, rfl⟩
  · exact ⟨_, rfl, hne, hfront, by simp, rfl⟩

theorem spanDigits_append_eq (cs : List Char) : (spanDigits cs).1 ++ (spanDigits cs).2 = cs :=
  List.takeWhile_append_dropWhile

/-- A digit, a point or a minus. -/
def StartsNumber (c : Char) : Prop := c.isDigit = true ∨ c = '.' ∨ c = '-'

/-- A number whose sign has been read, or the symbol that stands there instead. -/
def numberAfterSign (symbols : SymbolTree) (sign body : List Char) : LexemeResult :=
  match (spanDigits body).2 with
  | '.' :: r =>
    if (spanDigits body).1 = [] ∧ (spanDigits r).1 = [] then symbolRule symbols (sign ++ body)
    else
      let run := sign ++ (spanDigits body).1 ++ '.' :: (spanDigits r).1
      .ok ⟨.float, run, run⟩
  | _ =>
    if (spanDigits body).1 = [] then
      if sign = [] then .error .notNumeric else symbolRule symbols (sign ++ body)
    else .ok ⟨.integer, sign ++ (spanDigits body).1, sign ++ (spanDigits body).1⟩

theorem plainNumberRule_minus (symbols : SymbolTree) (cs : List Char) :
    plainNumberRule symbols ('-' :: cs) = numberAfterSign symbols ['-'] cs := rfl

theorem plainNumberRule_of_ne (symbols : SymbolTree) {c : Char} (hc : c ≠ '-') (cs : List Char) :
    plainNumberRule symbols (c :: cs) = numberAfterSign symbols [] (c :: cs) := by
  unfold plainNumberRule
  split
  · next heq => 
    split at heq
    · next h => exact absurd (List.cons.inj h).1 hc
    · cases heq
      rfl

theorem pointRun_front {sign body r : List Char} (h : (spanDigits body).2 = '.' :: r) :
    sign ++ (spanDigits body).1 ++ '.' :: (spanDigits r).1 <+: sign ++ body := by
  refine ⟨(spanDigits r).2, ?_⟩
  calc sign ++ (spanDigits body).1 ++ '.' :: (spanDigits r).1 ++ (spanDigits r).2
      = sign ++ ((spanDigits body).1 ++ '.' :: ((spanDigits r).1 ++ (spanDigits r).2)) := by
        simp
    _ = sign ++ body := by rw [spanDigits_append_eq r, ← h, spanDigits_append_eq body]

theorem numberAfterSign_front {symbols : SymbolTree} {sign body : List Char}
    (hsymbol : ∃ x, symbolRule symbols (sign ++ body) = .ok x ∧ x.Verbatim (sign ++ body))
    (hstart : sign = [] → (spanDigits body).1 ≠ [] ∨ body.head? = some '.') :
    ∃ x, numberAfterSign symbols sign body = .ok x ∧ x.Verbatim (sign ++ body) := by
  have hspan := spanDigits_append_eq body
  unfold numberAfterSign
  split
  · next r hrest =>
    split_ifs
    · exact hsymbol
    · exact ⟨_, rfl, by simp, pointRun_front hrest, by simp, rfl⟩
  · next hrest =>
    split_ifs with hwhole hsign
    · obtain hdigits | hpoint := hstart hsign
      · exact absurd hwhole hdigits
      · rw [hwhole, List.nil_append] at hspan
        cases body with
        | nil => cases hpoint
        | cons c r =>
          cases hpoint
          exact absurd hspan (hrest r)
    · exact hsymbol
    · refine ⟨_, rfl, by simp [hwhole], ⟨(spanDigits body).2, ?_⟩, by simp, rfl⟩
      rw [List.append_assoc, hspan]

theorem plainNumberRule_cons {symbols : SymbolTree} (hs : symbols.AllSymbols) {c : Char}
    (h : StartsNumber c) (cs : List Char) :
    ∃ x, plainNumberRule symbols (c :: cs) = .ok x ∧ x.Verbatim (c :: cs) := by
  obtain ⟨y, hy, -, hverbatim⟩ := symbolRule_cons hs c cs
  by_cases hc : c = '-'
  · subst hc
    rw [plainNumberRule_minus]
    exact numberAfterSign_front ⟨y, hy, hverbatim⟩ (by simp)
  · rw [plainNumberRule_of_ne symbols hc]
    refine @numberAfterSign_front symbols [] (c :: cs) ⟨y, hy, hverbatim⟩ fun _ => ?_
    obtain hdigit | rfl | rfl := h
    · exact .inl (by simp [spanDigits, hdigit])
    · exact .inr rfl
    · exact absurd rfl hc

theorem exponentRun_front (cs : List Char) : exponentRun cs <+: cs := by
  cases cs with
  | nil => exact List.prefix_rfl
  | cons mark r =>
    have hrun : ∀ sign body, sign ++ body = r → mark :: sign ++ (spanDigits body).1 <+: mark :: r := by
      rintro sign body rfl
      exact ⟨(spanDigits body).2, by simp [spanDigits_append_eq]⟩
    unfold exponentRun
    dsimp only
    split_ifs
    · exact List.nil_prefix
    · split <;> exact hrun _ _ rfl
    · exact List.nil_prefix

theorem scientificNumberRule_cons {symbols : SymbolTree} (hs : symbols.AllSymbols) {c : Char}
    (h : StartsNumber c) (cs : List Char) :
    ∃ x, scientificNumberRule symbols (c :: cs) = .ok x ∧ x.Verbatim (c :: cs) := by
  obtain ⟨y, hy, -, hverbatim⟩ := symbolRule_cons hs c cs
  obtain ⟨x, hx, hplain⟩ := plainNumberRule_cons hs h cs
  unfold scientificNumberRule
  simp only [hx]
  split_ifs
  · exact ⟨y, hy, hverbatim⟩
  · exact ⟨x, rfl, hplain⟩
  · refine ⟨_, rfl, by simp [hplain.raw_ne_nil], ?_, by simp, by simp [hplain.text_eq]⟩
    obtain ⟨rest, hrest⟩ := hplain.raw_front
    rw [← hrest, List.drop_left]
    exact (List.prefix_append_right_inj _).mpr (exponentRun_front rest)
  · exact ⟨x, rfl, hplain⟩

theorem lineRun_front (cs : List Char) : lineRun cs <+: cs := List.takeWhile_prefix _

theorem lineCommentRule_cons {c : Char} (h : isLineEnd c = false) (cs : List Char) :
    ∃ x, lineCommentRule (c :: cs) = .ok x ∧ x.Verbatim (c :: cs) :=
  ⟨_, rfl, by simp [lineRun, h], lineRun_front _, by simp, rfl⟩

theorem blockRun_front (star : Bool) (cs : List Char) : blockRun star cs <+: cs := by
  induction cs generalizing star with
  | nil => exact List.prefix_rfl
  | cons c cs ih =>
    unfold blockRun
    split_ifs
    · exact ⟨cs, rfl⟩
    · exact (List.prefix_cons_inj c).mpr (ih _)

theorem slashCommentRule_slash {symbols : SymbolTree} (hs : symbols.AllSymbols) (lines : Bool)
    (cs : List Char) :
    ∃ x, slashCommentRule symbols lines ('/' :: cs) = .ok x ∧ x.Verbatim ('/' :: cs) := by
  obtain ⟨y, hy, -, hverbatim⟩ := symbolRule_cons hs '/' cs
  unfold slashCommentRule
  split
  · next r heq =>
    rw [heq]
    refine ⟨_, rfl, by simp, ?_, by simp, rfl⟩
    simpa using blockRun_front false r
  · next r heq =>
    split_ifs
    · rw [heq]
      refine ⟨_, rfl, by simp, ?_, by simp, rfl⟩
      simpa using lineRun_front r
    · exact ⟨y, hy, hverbatim⟩
  · exact ⟨y, hy, hverbatim⟩
  · next hno => exact absurd rfl (hno cs)

theorem quotedRule_cons {quote : Char} {cs body rest : List Char}
    (h : Quoted.scan? quote cs = some (body, rest)) :
    quotedRule (quote :: cs) = .ok ⟨.quoted, quote :: body, quote :: body⟩ ∧
      quote :: body <+: quote :: cs := by
  refine ⟨by simp [quotedRule, h], ⟨rest, ?_⟩⟩
  rw [Quoted.scan?_append h, List.cons_append]

theorem quotedRule_eq_error {quote : Char} {cs : List Char} (h : Quoted.scan? quote cs = none) :
    quotedRule (quote :: cs) = .error (.unterminatedString quote) := by
  simp [quotedRule, h]

namespace Lexicon

def Starts (l : Lexicon) (c : Char) : RuleName → Prop
  | .whitespace => l.blanks.lookup c = some true
  | .word => l.word.letters.lookup c = some true
  | .number => StartsNumber c
  | .quote => c = '"' ∨ c = '\''
  | .comment => if l.comment = .line then isLineEnd c = false else c = '/'
  | .symbol => True

structure WellRouted (l : Lexicon) : Prop where
  starts {c : Char} {rule : RuleName} : l.routes.lookup c = some rule → l.Starts c rule
  doubleQuote : l.routes.lookup '"' = some .quote
  symbols : l.symbols.AllSymbols

def value (l : Lexicon) (w : List Char) : List Char :=
  if l.quote = .words ∧ w.head? = some '"' then Quoted.decode '"' w else w

/-- The lexeme is a front of the text and means what the lexicon says. -/
structure Takes (l : Lexicon) (x : Lexeme) (cs : List Char) : Prop where
  raw_ne_nil : x.raw ≠ []
  raw_front : x.raw <+: cs
  kind_ne_eof : x.kind ≠ .eof
  text_eq : x.text = l.value x.raw

theorem takes_of_verbatim (l : Lexicon) {x : Lexeme} {c : Char} {cs : List Char}
    (h : x.Verbatim (c :: cs)) (hc : c ≠ '"') : l.Takes x (c :: cs) := by
  refine ⟨h.raw_ne_nil, h.raw_front, h.kind_ne_eof, ?_⟩
  have hhead : x.raw.head? ≠ some '"' := by
    obtain ⟨rest, hrest⟩ := h.raw_front
    cases hraw : x.raw with
    | nil => exact absurd hraw h.raw_ne_nil
    | cons d ds =>
      rw [hraw] at hrest
      rw [List.head?_cons, (List.cons.inj hrest).1]
      simpa using hc
  rw [value, if_neg fun hw => hhead hw.2, h.text_eq]

theorem apply_quote (l : Lexicon) {quote : Char} (hquote : quote = '"' ∨ quote = '\'')
    {cs body rest : List Char} (h : Quoted.scan? quote cs = some (body, rest)) :
    ∃ x, l.apply .quote (quote :: cs) = .ok x ∧ l.Takes x (quote :: cs) := by
  obtain ⟨hrule, hfront⟩ := quotedRule_cons h
  cases hl : l.quote with
  | plain =>
    refine ⟨_, by simp only [apply, hl]; exact hrule, by simp, hfront, by simp, ?_⟩
    simp [value, hl]
  | words =>
    simp only [apply, hl, quotedWordRule, hrule]
    obtain rfl | rfl := hquote
    · exact ⟨_, rfl, by simp, hfront, by simp, by simp [value, hl]⟩
    · exact ⟨_, rfl, by simp, hfront, by simp, by simp [value]⟩

theorem apply_quote_eq_error (l : Lexicon) {quote : Char} {cs : List Char}
    (h : Quoted.scan? quote cs = none) :
    l.apply .quote (quote :: cs) = .error (.unterminatedString quote) := by
  have hrule := quotedRule_eq_error h
  cases hl : l.quote with
  | plain => simp only [apply, hl, hrule]
  | words => simp only [apply, hl, quotedWordRule, hrule]

namespace WellRouted

variable {l : Lexicon} (hl : l.WellRouted)
include hl

theorem apply_ok {c : Char} {rule : RuleName} (hroute : l.routes.lookup c = some rule)
    (hrule : rule ≠ .quote) (cs : List Char) :
    ∃ x, l.apply rule (c :: cs) = .ok x ∧ x.Verbatim (c :: cs) := by
  have hstarts := hl.starts hroute
  cases rule with
  | whitespace => exact whitespaceRule_cons hstarts cs
  | word => exact WordRule.apply_cons hstarts cs
  | number =>
    cases hn : l.number with
    | plain => simpa only [apply, hn] using plainNumberRule_cons hl.symbols hstarts cs
    | scientific => simpa only [apply, hn] using scientificNumberRule_cons hl.symbols hstarts cs
  | quote => exact absurd rfl hrule
  | comment =>
    unfold Starts at hstarts
    cases hc : l.comment with
    | line =>
      rw [if_pos hc] at hstarts
      simpa only [apply, hc] using lineCommentRule_cons hstarts cs
    | block =>
      rw [hc, if_neg (by simp)] at hstarts
      subst hstarts
      simpa only [apply, hc] using slashCommentRule_slash hl.symbols false cs
    | blockOrLine =>
      rw [hc, if_neg (by simp)] at hstarts
      subst hstarts
      simpa only [apply, hc] using slashCommentRule_slash hl.symbols true cs
  | symbol =>
    obtain ⟨x, hx, -, hverbatim⟩ := symbolRule_cons hl.symbols c cs
    exact ⟨x, hx, hverbatim⟩

/-- The next lexeme is a front of the text, or the text begins with an open quote. -/
theorem next_cons (c : Char) (cs : List Char) :
    (∃ x, l.next (c :: cs) = .ok x ∧ l.Takes x (c :: cs)) ∨
      (c = '"' ∨ c = '\'') ∧ Quoted.scan? c cs = none ∧
        l.next (c :: cs) = .error (.unterminatedString c) := by
  cases hroute : l.routes.lookup c with
  | none =>
    have hc : c ≠ '"' := by
      rintro rfl
      cases hroute.symm.trans hl.doubleQuote
    refine .inl ⟨⟨.unknown, [c], [c]⟩, by simp [next, hroute], ?_⟩
    exact l.takes_of_verbatim ⟨by simp, by simp, by simp, rfl⟩ hc
  | some rule =>
    have hnext : l.next (c :: cs) = l.apply rule (c :: cs) := by simp [next, hroute]
    rw [hnext]
    by_cases hrule : rule = .quote
    · subst hrule
      have hquote : c = '"' ∨ c = '\'' := hl.starts hroute
      cases hscan : Quoted.scan? c cs with
      | none => exact .inr ⟨hquote, rfl, l.apply_quote_eq_error hscan⟩
      | some found => exact .inl (l.apply_quote hquote hscan)
    · have hc : c ≠ '"' := by
        rintro rfl
        exact hrule (Option.some.inj (hroute.symm.trans hl.doubleQuote))
      obtain ⟨x, hx, hverbatim⟩ := hl.apply_ok hroute hrule cs
      exact .inl ⟨x, hx, l.takes_of_verbatim hverbatim hc⟩

theorem takes_of_next {x : Lexeme} {cs : List Char} (hne : cs ≠ []) (h : l.next cs = .ok x) :
    l.Takes x cs := by
  cases cs with
  | nil => exact absurd rfl hne
  | cons c cs =>
    obtain ⟨y, hy, htakes⟩ | ⟨-, -, hfault⟩ := hl.next_cons c cs
    · rw [hy] at h
      cases h
      exact htakes
    · rw [hfault] at h
      cases h

end WellRouted

theorem lookup_set {α : Type} (m : CharMap α) (first last : Nat) (v : α) (c : Char) :
    (m.set first last v).lookup c =
      if first ≤ c.toNat ∧ c.toNat ≤ last then some v else m.lookup c :=
  m.lookup_assign _ c

theorem lookup_setChar {α : Type} (m : CharMap α) (d : Char) (v : α) (c : Char) :
    (m.setChar d v).lookup c = if c = d then some v else m.lookup c := by
  have hcode : (d.toNat ≤ c.toNat ∧ c.toNat ≤ d.toNat) ↔ c = d := by
    rw [← Char.toNat_inj]
    omega
  rw [CharMap.setChar, lookup_set]
  simp only [hcode]

theorem starts_usualRoutes {l : Lexicon} (hblanks : l.blanks = usualBlanks)
    (hletters : l.word.letters = usualLetters) {c : Char} {rule : RuleName}
    (h : usualRoutes.lookup c = some rule) : l.Starts c rule := by
  simp only [usualRoutes, lookup_setChar, lookup_set, lookup_empty] at h
  split_ifs at h with hquote hdouble hdigit hpoint hhigh hunder hupper hlower hblank hlatin <;>
    cases h
  · exact .inr hquote
  · exact .inl hdouble
  · exact .inl (Char.isDigit_iff_toNat.mpr hdigit)
  · exact .inr (.inl hpoint)
  · simp only [Starts, hletters, usualLetters, lookup_set, hhigh, and_self, if_true]
  · simp only [Starts, hletters, usualLetters, lookup_set, hunder, and_self, if_true, ite_self]
  · simp only [Starts, hletters, usualLetters, lookup_set, hupper, and_self, if_true, ite_self]
  · simp only [Starts, hletters, usualLetters, lookup_set, hlower, and_self, if_true, ite_self]
  · simp [Starts, hblanks, usualBlanks, lookup_set, hblank]
  · trivial

theorem lookup_usualRoutes_doubleQuote : usualRoutes.lookup '"' = some .quote := by
  simp only [usualRoutes, lookup_setChar]
  rfl

theorem general_wellRouted : general.WellRouted := by
  refine ⟨fun {c rule} h => ?_, ?_, SymbolTree.allSymbols_symbolsOf _⟩
  · simp only [general, lookup_setChar] at h
    split_ifs at h with hhash hminus
    · cases h
      subst hhash
      rfl
    · cases h
      exact .inr (.inr hminus)
    · exact starts_usualRoutes (l := general) rfl rfl h
  · simp only [general, lookup_setChar, lookup_usualRoutes_doubleQuote]
    rfl

theorem formulas_wellRouted : formulas.WellRouted := by
  refine ⟨fun {c rule} h => ?_, ?_, SymbolTree.allSymbols_symbolsOf _⟩
  · simp only [formulas, lookup_setChar] at h
    split_ifs at h with hslash
    · cases h
      exact hslash
    · exact starts_usualRoutes (l := formulas) rfl rfl h
  · simp only [formulas, lookup_setChar, lookup_usualRoutes_doubleQuote]
    rfl

def Ready (l : Lexicon) : Prop := l = general ∨ l = formulas

theorem Ready.wellRouted {l : Lexicon} (h : l.Ready) : l.WellRouted := by
  obtain rfl | rfl := h
  · exact general_wellRouted
  · exact formulas_wellRouted

end Lexicon

end Formula
