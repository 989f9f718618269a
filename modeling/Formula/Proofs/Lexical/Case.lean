import Formula.Proofs.Lexical.Shapes
import Formula.Proofs.Text.Case

/-!
# Lexemes in any case

The lexer of formulas finds the same lexemes when the letters of a text are made small: each rule
is led to the same characters and takes as many of them, and what it finds is of the same kind.
-/

namespace Formula

open Text

def Lexeme.lowered (x : Lexeme) : Lexeme :=
  ⟨x.kind, x.raw.map Char.toLower, x.text.map Char.toLower⟩

theorem Lexeme.lowered_mk (kind : TokenKind) (raw text : List Char) :
    Lexeme.lowered ⟨kind, raw, text⟩ = ⟨kind, raw.map Char.toLower, text.map Char.toLower⟩ := rfl

namespace SymbolTree

theorem NoLetters.child?_toLower {t : SymbolTree} (h : t.NoLetters) (c : Char) :
    t.child? c.toLower = t.child? c := by
  induction t with
  | leaf => rfl
  | branch lead own below beside _ ih =>
    simp only [child?, toLower_eq_iff h.1, ih h.2.2]

theorem NoLetters.longest?_map_toLower {t : SymbolTree} (h : t.NoLetters) (cs : List Char) :
    t.longest? (cs.map Char.toLower) = t.longest? cs := by
  induction cs generalizing t with
  | nil => rfl
  | cons c cs ih =>
    rw [List.map_cons, longest?, longest?, h.child?_toLower]
    cases hchild : t.child? c with
    | none => rfl
    | some found =>
      obtain ⟨own, below⟩ := found
      dsimp only
      rw [ih (h.of_child? hchild).2]

end SymbolTree

section Rules

variable {symbols : SymbolTree} (hs : symbols.NoLetters)

include hs in
theorem symbolRule_map_toLower (cs : List Char) : symbolRule symbols (cs.map Char.toLower) =
    (symbolRule symbols cs).map Lexeme.lowered := by
  cases cs with
  | nil => rfl
  | cons c cs =>
    have hlongest := hs.longest?_map_toLower (c :: cs)
    rw [List.map_cons] at hlongest ⊢
    rw [symbolRule, symbolRule, hlongest]
    cases symbols.longest? (c :: cs) with
    | none => rfl
    | some found =>
      obtain ⟨n, kind⟩ := found
      simp only [Except.map, Lexeme.lowered_mk, ← List.map_cons, List.map_take]

theorem runOf_map_toLower {letters : CharMap Bool}
    (hletters : ∀ c : Char, letters.lookup c.toLower = letters.lookup c) (cs : List Char) :
    runOf letters (cs.map Char.toLower) = (runOf letters cs).map Char.toLower :=
  takeWhile_map_toLower (fun c => by rw [hletters]) cs

theorem whitespaceRule_map_toLower {blanks : CharMap Bool}
    (hblanks : ∀ c : Char, blanks.lookup c.toLower = blanks.lookup c) (cs : List Char) :
    whitespaceRule blanks (cs.map Char.toLower) =
      (whitespaceRule blanks cs).map Lexeme.lowered := by
  simp only [whitespaceRule, runOf_map_toLower hblanks, List.map_eq_nil_iff]
  split_ifs <;> rfl

theorem isKeyword_map_toLower (cs : List Char) :
    isKeyword (String.ofList (cs.map Char.toLower)) = isKeyword (String.ofList cs) := by
  have hsame : AsciiCase.Same (String.ofList (cs.map Char.toLower)) (String.ofList cs) := by
    simp [AsciiCase.same_ofList, Function.comp_def]
  have hword : ∀ word, AsciiCase.Same word (String.ofList (cs.map Char.toLower)) ↔
      AsciiCase.Same word (String.ofList cs) :=
    fun word => ⟨fun h => h.trans hsame, fun h => h.trans hsame.symm⟩
  simp only [isKeyword, hword]

theorem wordRule_map_toLower {rule : WordRule}
    (hletters : ∀ c : Char, rule.letters.lookup c.toLower = rule.letters.lookup c)
    (cs : List Char) :
    rule.apply (cs.map Char.toLower) = (rule.apply cs).map Lexeme.lowered := by
  simp only [WordRule.apply, runOf_map_toLower hletters, List.map_eq_nil_iff,
    isKeyword_map_toLower]
  split_ifs <;> rfl

theorem spanDigits_map_toLower (cs : List Char) : spanDigits (cs.map Char.toLower) =
    ((spanDigits cs).1.map Char.toLower, (spanDigits cs).2.map Char.toLower) := by
  rw [spanDigits, takeWhile_map_toLower isDigit_toLower, dropWhile_map_toLower isDigit_toLower]
  rfl

theorem numberAfterSign_point (sign : List Char) {body r : List Char}
    (h : (spanDigits body).2 = '.' :: r) : numberAfterSign symbols sign body =
      if (spanDigits body).1 = [] ∧ (spanDigits r).1 = [] then symbolRule symbols (sign ++ body)
      else .ok ⟨.float, sign ++ (spanDigits body).1 ++ '.' :: (spanDigits r).1,
        sign ++ (spanDigits body).1 ++ '.' :: (spanDigits r).1⟩ := by
  simp only [numberAfterSign, h]

theorem numberAfterSign_of_head_ne (sign : List Char) {body : List Char}
    (h : (spanDigits body).2.head? ≠ some '.') : numberAfterSign symbols sign body =
      if (spanDigits body).1 = [] then
        if sign = [] then .error .notNumeric else symbolRule symbols (sign ++ body)
      else .ok ⟨.integer, sign ++ (spanDigits body).1, sign ++ (spanDigits body).1⟩ := by
  unfold numberAfterSign
  split
  · next r hrest => exact absurd (by rw [hrest]; rfl) h
  · rfl

include hs in
theorem numberAfterSign_map_toLower (sign body : List Char) :
    numberAfterSign symbols (sign.map Char.toLower) (body.map Char.toLower) =
      (numberAfterSign symbols sign body).map Lexeme.lowered := by
  have hsymbol := symbolRule_map_toLower hs (sign ++ body)
  rw [List.map_append] at hsymbol
  have hspan := spanDigits_map_toLower body
  by_cases hpoint : (spanDigits body).2.head? = some '.'
  · obtain ⟨r, hr⟩ : ∃ r, (spanDigits body).2 = '.' :: r := List.head?_eq_some_iff.mp hpoint
    have hr' : (spanDigits (body.map Char.toLower)).2 = '.' :: r.map Char.toLower := by
      rw [hspan, hr]
      rfl
    rw [numberAfterSign_point _ hr, numberAfterSign_point _ hr', spanDigits_map_toLower r, hspan]
    simp only [List.map_eq_nil_iff, hsymbol]
    split_ifs
    · rfl
    · simp only [Except.map, Lexeme.lowered_mk, List.map_append, List.map_cons]
      rfl
  · have hpoint' : (spanDigits (body.map Char.toLower)).2.head? ≠ some '.' := by
      rw [hspan, List.head?_map]
      simpa [toLower_eq_iff] using hpoint
    rw [numberAfterSign_of_head_ne _ hpoint, numberAfterSign_of_head_ne _ hpoint', hspan]
    simp only [List.map_eq_nil_iff, hsymbol]
    split_ifs
    · rfl
    · rfl
    · simp only [Except.map, Lexeme.lowered_mk, List.map_append]

include hs in
theorem plainNumberRule_map_toLower (cs : List Char) :
    plainNumberRule symbols (cs.map Char.toLower) =
      (plainNumberRule symbols cs).map Lexeme.lowered := by
  cases cs with
  | nil => rfl
  | cons c cs =>
    by_cases hc : c = '-'
    · subst hc
      exact numberAfterSign_map_toLower hs ['-'] cs
    · have hc' : c.toLower ≠ '-' := mt (toLower_eq_iff rfl).mp hc
      rw [List.map_cons, plainNumberRule_of_ne symbols hc', plainNumberRule_of_ne symbols hc]
      exact numberAfterSign_map_toLower hs [] (c :: cs)

def spanSign : List Char → List Char × List Char
  | '+' :: r => (['+'], r)
  | '-' :: r => (['-'], r)
  | r => ([], r)

theorem exponentRun_cons (mark : Char) (r : List Char) : exponentRun (mark :: r) =
    if mark = 'e' ∨ mark = 'E' then
      if (spanDigits (spanSign r).2).1 = [] then []
      else mark :: (spanSign r).1 ++ (spanDigits (spanSign r).2).1
    else [] := rfl

theorem spanSign_of_ne {c : Char} (hplus : c ≠ '+') (hminus : c ≠ '-') (r : List Char) :
    spanSign (c :: r) = ([], c :: r) := by
  unfold spanSign
  split
  · next heq => exact absurd (List.cons.inj heq).1 hplus
  · next heq => exact absurd (List.cons.inj heq).1 hminus
  · rfl

theorem spanSign_map_toLower (cs : List Char) : spanSign (cs.map Char.toLower) =
    ((spanSign cs).1.map Char.toLower, (spanSign cs).2.map Char.toLower) := by
  cases cs with
  | nil => rfl
  | cons c r =>
    by_cases hplus : c = '+'
    · subst hplus
      rfl
    · by_cases hminus : c = '-'
      · subst hminus
        rfl
      · have hplus' : c.toLower ≠ '+' := mt (toLower_eq_iff rfl).mp hplus
        have hminus' : c.toLower ≠ '-' := mt (toLower_eq_iff rfl).mp hminus
        rw [List.map_cons, spanSign_of_ne hplus' hminus', spanSign_of_ne hplus hminus]
        rfl

theorem exponentRun_map_toLower (cs : List Char) :
    exponentRun (cs.map Char.toLower) = (exponentRun cs).map Char.toLower := by
  cases cs with
  | nil => rfl
  | cons mark r =>
    simp only [List.map_cons, exponentRun_cons, exponentMark_toLower, spanSign_map_toLower,
      spanDigits_map_toLower, List.map_eq_nil_iff]
    split_ifs
    · rfl
    · simp
    · rfl

include hs in
theorem scientificNumberRule_map_toLower (cs : List Char) :
    scientificNumberRule symbols (cs.map Char.toLower) =
      (scientificNumberRule symbols cs).map Lexeme.lowered := by
  have hminus : (cs.map Char.toLower).head? = some '-' ↔ cs.head? = some '-' := by
    simp [List.head?_map, toLower_eq_iff]
  simp only [scientificNumberRule, hminus, plainNumberRule_map_toLower hs]
  split_ifs
  · exact symbolRule_map_toLower hs cs
  · cases plainNumberRule symbols cs with
    | error e => rfl
    | ok x =>
      simp only [Except.map, Lexeme.lowered, List.length_map, ← List.map_drop,
        exponentRun_map_toLower, List.map_eq_nil_iff]
      split_ifs <;> simp

theorem quotedRule_map_toLower {quote : Char} (hquote : quote.isAlpha = false) (cs : List Char) :
    quotedRule ((quote :: cs).map Char.toLower) =
      (quotedRule (quote :: cs)).map Lexeme.lowered := by
  simp only [List.map_cons, toLower_of_not_isAlpha hquote, quotedRule,
    Quoted.scan?_map_toLower hquote]
  cases Quoted.scan? quote cs with
  | none => rfl
  | some found =>
    simp only [Option.map_some, Except.map, Lexeme.lowered_mk, List.map_cons,
      toLower_of_not_isAlpha hquote]

theorem quotedWordRule_map_toLower {quote : Char} (hquote : quote = '"' ∨ quote = '\'')
    (cs : List Char) : quotedWordRule ((quote :: cs).map Char.toLower) =
      (quotedWordRule (quote :: cs)).map Lexeme.lowered := by
  have hletter : quote.isAlpha = false := by
    obtain rfl | rfl := hquote <;> rfl
  have hhead : ((quote :: cs).map Char.toLower).head? = (quote :: cs).head? := by
    rw [List.map_cons, toLower_of_not_isAlpha hletter]
    rfl
  rw [quotedWordRule, quotedWordRule, quotedRule_map_toLower hletter, hhead]
  cases quotedRule (quote :: cs) with
  | error e => rfl
  | ok x =>
    simp only [Except.map]
    split_ifs
    · simp only [Lexeme.lowered, Quoted.decode_map_toLower (q := '"') rfl]
    · rfl

theorem lineRun_map_toLower (cs : List Char) :
    lineRun (cs.map Char.toLower) = (lineRun cs).map Char.toLower :=
  takeWhile_map_toLower (fun c => by
    simp only [isLineEnd, toLower_eq_iff (d := '\n') rfl, toLower_eq_iff (d := '\r') rfl]) cs

theorem blockRun_map_toLower (star : Bool) (cs : List Char) :
    blockRun star (cs.map Char.toLower) = (blockRun star cs).map Char.toLower := by
  induction cs generalizing star with
  | nil => rfl
  | cons c cs ih =>
    simp only [List.map_cons, blockRun, toLower_eq_iff (d := '/') rfl,
      toLower_eq_iff (d := '*') rfl, ih]
    split_ifs <;> rfl

theorem slashCommentRule_of_ne {d : Char} (hstar : d ≠ '*') (hslash : d ≠ '/') (r : List Char) :
    slashCommentRule symbols true ('/' :: d :: r) = symbolRule symbols ('/' :: d :: r) := by
  unfold slashCommentRule
  split
  · next heq => exact absurd (List.cons.inj (List.cons.inj heq).2).1 hstar
  · next heq => exact absurd (List.cons.inj (List.cons.inj heq).2).1 hslash
  · rfl
  · next hno => exact absurd rfl (hno _)

include hs in
theorem slashCommentRule_map_toLower (cs : List Char) :
    slashCommentRule symbols true (('/' :: cs).map Char.toLower) =
      (slashCommentRule symbols true ('/' :: cs)).map Lexeme.lowered := by
  cases cs with
  | nil => exact symbolRule_map_toLower hs ['/']
  | cons d r =>
    by_cases hstar : d = '*'
    · subst hstar
      simp only [List.map_cons, toLower_of_not_isAlpha (c := '/') rfl,
        toLower_of_not_isAlpha (c := '*') rfl, slashCommentRule, blockRun_map_toLower, Except.map,
        Lexeme.lowered_mk]
    · by_cases hslash : d = '/'
      · subst hslash
        simp only [List.map_cons, toLower_of_not_isAlpha (c := '/') rfl, slashCommentRule,
          if_true, lineRun_map_toLower, Except.map, Lexeme.lowered_mk]
      · have hstar' : d.toLower ≠ '*' := mt (toLower_eq_iff rfl).mp hstar
        have hslash' : d.toLower ≠ '/' := mt (toLower_eq_iff rfl).mp hslash
        have hsymbol := symbolRule_map_toLower hs ('/' :: d :: r)
        rw [slashCommentRule_of_ne hstar hslash, ← hsymbol]
        exact slashCommentRule_of_ne hstar' hslash' _

end Rules

namespace Lexicon

theorem lookup_letters_toLower (c : Char) :
    formulas.word.letters.lookup c.toLower = formulas.word.letters.lookup c := by
  rw [lookup_letters, lookup_letters, toNat_toLower]
  split_ifs <;> first | rfl | omega

theorem lookup_blanks_toLower (c : Char) :
    formulas.blanks.lookup c.toLower = formulas.blanks.lookup c := by
  rw [lookup_blanks, lookup_blanks, toNat_toLower]
  split_ifs <;> first | rfl | omega

theorem lookup_routes_toLower (c : Char) :
    formulas.routes.lookup c.toLower = formulas.routes.lookup c := by
  cases hc : c.isAlpha with
  | false => rw [toLower_of_not_isAlpha hc]
  | true =>
    have hlower : c.toLower.isAlpha = true := by rw [Char.isAlpha_toLower_eq_isAlpha, hc]
    rw [lookup_routes_of_isAlpha hc, lookup_routes_of_isAlpha hlower]

theorem next_map_toLower (cs : List Char) :
    formulas.next (cs.map Char.toLower) = (formulas.next cs).map Lexeme.lowered := by
  have hs := SymbolTree.noLetters_formulas
  cases cs with
  | nil => rfl
  | cons c cs =>
    cases hroute : formulas.routes.lookup c with
    | none =>
      have hroute' := (lookup_routes_toLower c).trans hroute
      simp only [List.map_cons, next, hroute, hroute']
      rfl
    | some rule =>
      have hroute' := (lookup_routes_toLower c).trans hroute
      have hstarts := formulas_wellRouted.starts hroute
      rw [next_cons hroute, List.map_cons, next_cons hroute', ← List.map_cons]
      cases rule with
      | whitespace => exact whitespaceRule_map_toLower lookup_blanks_toLower (c :: cs)
      | word => exact wordRule_map_toLower lookup_letters_toLower (c :: cs)
      | number => exact scientificNumberRule_map_toLower hs (c :: cs)
      | quote => exact quotedWordRule_map_toLower hstarts cs
      | comment =>
        obtain rfl : c = '/' := hstarts
        exact slashCommentRule_map_toLower hs cs
      | symbol => exact symbolRule_map_toLower hs (c :: cs)

end Lexicon

end Formula
