import Formula.Proofs.Lexical.Lexemes
import Formula.Proofs.Lexical.Pieces

/-!
# Numbers in a text

The number rule of formulas takes digits, with an optional point among or around them and an
optional exponent behind. Whatever has this form is a literal, so every number that is found in
a text has a value.
-/

namespace Formula

open Number

/-- Digits, with a point among or around them or without one. -/
inductive PlainForm : List Char → Prop
  | whole {ds : List Char} (hne : ds ≠ []) (hds : ∀ c ∈ ds, c.isDigit = true) : PlainForm ds
  | point {ds fs : List Char} (hne : ds ≠ [] ∨ fs ≠ []) (hds : ∀ c ∈ ds, c.isDigit = true)
    (hfs : ∀ c ∈ fs, c.isDigit = true) : PlainForm (ds ++ '.' :: fs)

/-- A mark, an optional sign and digits, or nothing. -/
inductive ExponentForm : List Char → Prop
  | none : ExponentForm []
  | digits {mark : Char} {sign ds : List Char} (hmark : mark = 'e' ∨ mark = 'E')
    (hsign : sign = [] ∨ sign = ['+'] ∨ sign = ['-']) (hne : ds ≠ [])
    (hds : ∀ c ∈ ds, c.isDigit = true) : ExponentForm (mark :: (sign ++ ds))

inductive NumberForm : List Char → Prop
  | mk {plain exponent : List Char} (hp : PlainForm plain) (he : ExponentForm exponent) :
    NumberForm (plain ++ exponent)

theorem PlainForm.number {cs : List Char} (h : PlainForm cs) : NumberForm cs := by
  have hform := NumberForm.mk h .none
  rwa [List.append_nil] at hform

theorem splitSign_of_ne {c : Char} (hminus : c ≠ '-') (hplus : c ≠ '+') (cs : List Char) :
    splitSign (c :: cs) = (false, c :: cs) := by
  rw [splitSign.eq_def]
  split
  · next hc => exact absurd (List.cons.inj hc).1 hminus
  · next hc => exact absurd (List.cons.inj hc).1 hplus
  · rfl

theorem isSome_integer? {sign ds : List Char} (hsign : sign = [] ∨ sign = ['+'] ∨ sign = ['-'])
    (hne : ds ≠ []) (hds : ∀ c ∈ ds, c.isDigit = true) : (integer? (sign ++ ds)).isSome := by
  have hall := allDigits_eq_true hne hds
  have hsplit : (splitSign (sign ++ ds)).2 = ds := by
    rcases hsign with rfl | rfl | rfl
    · cases ds with
      | nil => rfl
      | cons d ds => exact congrArg Prod.snd (splitSign_of_isDigit (hds d (.head _)) ds)
    · rfl
    · rfl
  rw [integer?]
  simp only [hsplit, hall, if_true, Option.isSome_some]

theorem ExponentForm.isSome_exponent? {cs : List Char} (h : ExponentForm cs) :
    (exponent? cs).isSome := by
  cases h with
  | none => rfl
  | digits hmark hsign hne hds =>
    rw [exponent?, if_pos hmark]
    exact isSome_integer? hsign hne hds

theorem ExponentForm.head_not_isDigit {cs : List Char} (h : ExponentForm cs) :
    ∀ c ∈ cs.head?, c.isDigit = false := by
  cases h with
  | none => nofun
  | digits hmark hsign hne hds =>
    rintro c ⟨⟩
    rcases hmark with rfl | rfl <;> rfl

theorem ExponentForm.exists_cons {cs : List Char} (h : ExponentForm cs) (hne : cs ≠ []) :
    ∃ mark r, cs = mark :: r ∧ (mark = 'e' ∨ mark = 'E') := by
  cases h with
  | none => exact absurd rfl hne
  | digits hmark hsign hdigits hds => exact ⟨_, _, rfl, hmark⟩

theorem NumberForm.isSome_unsignedDecimal? {cs : List Char} (h : NumberForm cs) :
    (unsignedDecimal? cs).isSome := by
  obtain ⟨hp, he⟩ := h
  rename_i plain exponent
  have hend := he.head_not_isDigit
  have hexponent := he.isSome_exponent?
  cases hp with
  | whole hne hds =>
    have hspan := spanDigits_append hds hend
    rw [spanDigits, Prod.mk.injEq] at hspan
    rw [unsignedDecimal?]
    simp only [hspan]
    cases he with
    | none => simpa [hne] using hexponent
    | digits hmark hsign hne' hds' =>
      rcases hmark with rfl | rfl <;> simpa [hne] using hexponent
  | point hne hds hfs =>
    rename_i ds fs
    have hwhole : spanDigits (ds ++ '.' :: (fs ++ exponent)) = (ds, '.' :: (fs ++ exponent)) :=
      spanDigits_append hds (by rintro c ⟨⟩; rfl)
    have hfraction := spanDigits_append hfs hend
    rw [spanDigits, Prod.mk.injEq] at hwhole hfraction
    rw [List.append_assoc, List.cons_append, unsignedDecimal?]
    simp only [hwhole, hfraction]
    rw [if_neg (by rintro ⟨rfl, rfl⟩; simp at hne), Option.isSome_map]
    exact hexponent

theorem PlainForm.exists_cons {cs : List Char} (h : PlainForm cs) :
    ∃ c r, cs = c :: r ∧ c ≠ '-' ∧ c ≠ '+' := by
  have hdigit : ∀ {c : Char}, c.isDigit = true → c ≠ '-' ∧ c ≠ '+' := by
    intro c hc
    constructor <;> rintro rfl <;> cases hc
  cases h with
  | whole hne hds =>
    cases cs with
    | nil => exact absurd rfl hne
    | cons c r => exact ⟨c, r, rfl, hdigit (hds c (.head _))⟩
  | point hne hds hfs =>
    rename_i ds fs
    cases ds with
    | nil => exact ⟨'.', fs, rfl, by decide, by decide⟩
    | cons d ds => exact ⟨d, ds ++ '.' :: fs, rfl, hdigit (hds d (.head _))⟩

theorem NumberForm.isSome_realLiteral? {cs : List Char} (h : NumberForm cs) :
    (realLiteral? cs).isSome := by
  have hdecimal := h.isSome_unsignedDecimal?
  obtain ⟨hp, he⟩ := h
  obtain ⟨c, r, rfl, hminus, hplus⟩ := hp.exists_cons
  rw [realLiteral?, Option.isSome_map, double?, Option.isSome_map, numeral?, List.cons_append,
    splitSign_of_ne hminus hplus]
  dsimp only
  split_ifs
  · rfl
  · rfl
  · rwa [Option.isSome_map]

theorem isSome_integerLiteral? {ds : List Char} (hne : ds ≠ [])
    (hds : ∀ c ∈ ds, c.isDigit = true) : (integerLiteral? ds).isSome := by
  rw [integerLiteral?]
  split
  · rfl
  · split
    · rfl
    · exact (PlainForm.whole hne hds).number.isSome_realLiteral?

theorem isDigit_of_mem_spanDigits {cs : List Char} : ∀ c ∈ (spanDigits cs).1, c.isDigit = true :=
  List.all_eq_true.mp List.all_takeWhile

theorem exponentForm_exponentRun (cs : List Char) : ExponentForm (exponentRun cs) := by
  cases cs with
  | nil => exact .none
  | cons mark r =>
    unfold exponentRun
    dsimp only
    split_ifs with hmark hdigits
    · exact .none
    · split at hdigits
      · exact .digits hmark (.inr (.inl rfl)) hdigits isDigit_of_mem_spanDigits
      · exact .digits hmark (.inr (.inr rfl)) hdigits isDigit_of_mem_spanDigits
      · exact .digits hmark (.inl rfl) hdigits isDigit_of_mem_spanDigits
    · exact .none

/-- How a number of a kind is written: an integer in digits, any other number with a point or an
exponent. -/
inductive NumericForm : TokenKind → List Char → Prop
  | integer {ds : List Char} (hne : ds ≠ []) (hds : ∀ c ∈ ds, c.isDigit = true) :
    NumericForm .integer ds
  | point {ds fs : List Char} (hne : ds ≠ [] ∨ fs ≠ []) (hds : ∀ c ∈ ds, c.isDigit = true)
    (hfs : ∀ c ∈ fs, c.isDigit = true) : NumericForm .float (ds ++ '.' :: fs)
  | exponent {plain exponent : List Char} (hp : PlainForm plain) (he : ExponentForm exponent)
    (hne : exponent ≠ []) : NumericForm .float (plain ++ exponent)

theorem NumericForm.kind {kind : TokenKind} {cs : List Char} (h : NumericForm kind cs) :
    kind = .integer ∨ kind = .float := by
  cases h with
  | integer hne hds => exact .inl rfl
  | point hne hds hfs => exact .inr rfl
  | exponent hp he hne => exact .inr rfl

theorem NumericForm.kind_ne_quoted {kind : TokenKind} {cs : List Char} (h : NumericForm kind cs) :
    kind ≠ .quoted := by
  obtain rfl | rfl := h.kind <;> decide

/-- The lexeme is a number and means what it is made of. -/
inductive Lexeme.Number : Lexeme → Prop
  | integer {ds : List Char} (hne : ds ≠ []) (hds : ∀ c ∈ ds, c.isDigit = true) :
    Number ⟨.integer, ds, ds⟩
  | float {cs : List Char} (h : NumberForm cs) : Number ⟨.float, cs, cs⟩

theorem Lexeme.Number.kind {x : Lexeme} (h : x.Number) : x.kind = .integer ∨ x.kind = .float := by
  cases h with
  | integer hne hds => exact .inl rfl
  | float h => exact .inr rfl

theorem NumericForm.number {kind : TokenKind} {cs : List Char} (h : NumericForm kind cs) :
    Lexeme.Number ⟨kind, cs, cs⟩ := by
  cases h with
  | integer hne hds => exact .integer hne hds
  | point hne hds hfs => exact .float (PlainForm.point hne hds hfs).number
  | exponent hp he hne => exact .float (.mk hp he)

/-- Where no number stands the rule finds what the rule of symbols finds. -/
theorem numberAfterSign_numeric {symbols : SymbolTree} {cs : List Char} {x : Lexeme}
    (h : numberAfterSign symbols [] cs = .ok x) : symbolRule symbols cs = .ok x ∨
      NumericForm x.kind x.raw ∧ PlainForm x.raw ∧ x.text = x.raw := by
  unfold numberAfterSign at h
  split at h
  · next r hrest =>
    split_ifs at h with hempty
    · exact .inl h
    · cases h
      have hne : (spanDigits cs).1 ≠ [] ∨ (spanDigits r).1 ≠ [] :=
        Decidable.not_and_iff_or_not.mp hempty
      exact .inr ⟨.point hne isDigit_of_mem_spanDigits isDigit_of_mem_spanDigits,
        .point hne isDigit_of_mem_spanDigits isDigit_of_mem_spanDigits, rfl⟩
  · rw [if_pos rfl] at h
    split_ifs at h with hempty
    cases h
    exact .inr ⟨.integer hempty isDigit_of_mem_spanDigits,
      .whole hempty isDigit_of_mem_spanDigits, rfl⟩

theorem scientificNumberRule_numeric {symbols : SymbolTree} (hs : symbols.AllSymbols)
    {c : Char} {cs : List Char} {x : Lexeme}
    (h : scientificNumberRule symbols (c :: cs) = .ok x) :
    symbolRule symbols (c :: cs) = .ok x ∨ NumericForm x.kind x.raw ∧ x.text = x.raw := by
  unfold scientificNumberRule at h
  split_ifs at h with hminus
  · exact .inl h
  · have hc : c ≠ '-' := by
      rintro rfl
      exact hminus rfl
    rw [plainNumberRule_of_ne symbols hc] at h
    split at h
    · cases h
    · next y hy =>
      obtain hsymbol | ⟨hnumeric, hform, htext⟩ := numberAfterSign_numeric hy
      · obtain ⟨z, hz, hkind, -⟩ := symbolRule_cons hs c cs
        obtain rfl : z = y := Except.ok.inj (hz.symm.trans hsymbol)
        rw [if_neg (by simp [hkind])] at h
        cases h
        exact .inl hsymbol
      · rw [if_pos hnumeric.kind] at h
        dsimp only at h
        split_ifs at h with hnone
        · cases h
          exact .inr ⟨hnumeric, htext⟩
        · cases h
          rw [htext]
          exact .inr ⟨.exponent hform (exponentForm_exponentRun _) hnone, rfl⟩

theorem scientificNumberRule_number {symbols : SymbolTree} (hs : symbols.AllSymbols)
    {c : Char} {cs : List Char} {x : Lexeme}
    (h : scientificNumberRule symbols (c :: cs) = .ok x) :
    symbolRule symbols (c :: cs) = .ok x ∨ x.Number := by
  obtain hsymbol | ⟨hnumeric, htext⟩ := scientificNumberRule_numeric hs h
  · exact .inl hsymbol
  · obtain ⟨kind, raw, text⟩ := x
    obtain rfl : text = raw := htext
    exact .inr hnumeric.number

theorem plainNumberRule_point {ds fs rest : List Char} (hne : ds ≠ [] ∨ fs ≠ [])
    (hds : ∀ c ∈ ds, c.isDigit = true) (hfs : ∀ c ∈ fs, c.isDigit = true)
    (h : ∀ c ∈ rest.head?, c.isDigit = false) (symbols : SymbolTree) :
    plainNumberRule symbols (ds ++ '.' :: fs ++ rest) =
      .ok ⟨.float, ds ++ '.' :: fs, ds ++ '.' :: fs⟩ := by
  have hwhole : spanDigits (ds ++ '.' :: (fs ++ rest)) = (ds, '.' :: (fs ++ rest)) :=
    spanDigits_append hds (by rintro c ⟨⟩; rfl)
  have hfraction := spanDigits_append hfs h
  have hsome : ¬ (ds = [] ∧ fs = []) := Decidable.not_and_iff_or_not.mpr hne
  have hafter : numberAfterSign symbols [] (ds ++ '.' :: fs ++ rest) =
      .ok ⟨.float, ds ++ '.' :: fs, ds ++ '.' :: fs⟩ := by
    rw [List.append_assoc, List.cons_append, numberAfterSign, hwhole]
    simp only [hfraction, if_neg hsome, List.nil_append]
  obtain ⟨c, r, hcons, hminus, -⟩ := (PlainForm.point hne hds hfs).exists_cons
  rw [hcons] at hafter ⊢
  rw [List.cons_append, plainNumberRule_of_ne symbols hminus]
  exact hafter

/-- A plain number is found again where neither a digit nor a point follows. -/
theorem PlainForm.exists_plainNumberRule {cs rest : List Char} (hform : PlainForm cs)
    (h : ∀ c ∈ rest.head?, c.isDigit = false ∧ c ≠ '.') (symbols : SymbolTree) :
    ∃ kind, plainNumberRule symbols (cs ++ rest) = .ok ⟨kind, cs, cs⟩ ∧
      (kind = .integer ∨ kind = .float) := by
  cases hform with
  | whole hne hds => exact ⟨.integer, plainNumberRule_digits hne hds h symbols, .inl rfl⟩
  | point hne hds hfs =>
    exact ⟨.float, plainNumberRule_point hne hds hfs (fun c hc => (h c hc).1) symbols, .inr rfl⟩

theorem ExponentForm.exponentRun_append {cs rest : List Char} (h : ExponentForm cs)
    (hsome : cs ≠ []) (hrest : ∀ c ∈ rest.head?, c.isDigit = false) :
    exponentRun (cs ++ rest) = cs := by
  cases h with
  | none => exact absurd rfl hsome
  | @digits mark sign ds hmark hsign hne hds =>
    have hspan := spanDigits_append hds hrest
    rw [List.cons_append, List.append_assoc, exponentRun.eq_def]
    dsimp only
    rw [if_pos hmark]
    obtain rfl | rfl | rfl := hsign
    · obtain ⟨d, r, hcons, hminus, hplus⟩ := (PlainForm.whole hne hds).exists_cons
      rw [List.nil_append, List.nil_append]
      split
      · next heq =>
        rw [hcons] at heq
        exact absurd (List.cons.inj heq).1 hplus
      · next heq =>
        rw [hcons] at heq
        exact absurd (List.cons.inj heq).1 hminus
      · rw [hspan]
        exact if_neg hne
    · simp only [List.singleton_append, hspan]
      exact if_neg hne
    · simp only [List.singleton_append, hspan]
      exact if_neg hne

theorem PlainForm.route {c : Char} {r : List Char} (h : PlainForm (c :: r)) :
    Lexicon.formulas.routes.lookup c = some .number := by
  generalize hcs : c :: r = cs at h
  cases h with
  | whole hne hds =>
    subst hcs
    exact route_digit (hds c (.head _))
  | @point ds fs hne hds hfs =>
    cases ds with
    | nil =>
      cases hcs
      rw [Lexicon.lookup_routes]
      rfl
    | cons d ds =>
      cases hcs
      exact route_digit (hds c (.head _))

/-- The lexeme of a plain number takes an exponent along that follows. -/
theorem next_plain {kind : TokenKind} {cs rest : List Char} (hform : PlainForm cs)
    (hkind : kind = .integer ∨ kind = .float)
    (hrule : plainNumberRule Lexicon.formulas.symbols (cs ++ rest) = .ok ⟨kind, cs, cs⟩) :
    Lexicon.formulas.next (cs ++ rest) =
      if exponentRun rest = [] then .ok ⟨kind, cs, cs⟩
      else .ok ⟨.float, cs ++ exponentRun rest, cs ++ exponentRun rest⟩ := by
  obtain ⟨c, r, rfl, hminus, -⟩ := hform.exists_cons
  have hhead : (c :: r ++ rest).head? ≠ some '-' := by
    rintro ⟨⟩
    exact hminus rfl
  rw [List.cons_append, Lexicon.next_cons hform.route, ← List.cons_append]
  change scientificNumberRule Lexicon.formulas.symbols (c :: r ++ rest) = _
  rw [scientificNumberRule, if_neg hhead, hrule]
  dsimp only
  rw [if_pos hkind, List.drop_left]

/-- A number is one lexeme where no character follows that it could go on with. -/
theorem next_numeric {kind : TokenKind} {cs rest : List Char} (h : NumericForm kind cs)
    (hrest : EndsNumber rest) : Lexicon.formulas.next (cs ++ rest) = .ok ⟨kind, cs, cs⟩ := by
  cases h with
  | integer hne hds => exact next_digits hne hds hrest
  | @point ds fs hne hds hfs =>
    have hform : PlainForm (ds ++ '.' :: fs) := .point hne hds hfs
    have hrule := plainNumberRule_point hne hds hfs (fun c hc => (hrest c hc).1)
      Lexicon.formulas.symbols
    rw [next_plain hform (.inr rfl) hrule, if_pos (exponentRun_of_endsNumber hrest)]
  | @exponent plain exponent hp he hne =>
    have hrun := he.exponentRun_append hne fun c hc => (hrest c hc).1
    have hend : ∀ c ∈ (exponent ++ rest).head?, c.isDigit = false ∧ c ≠ '.' := by
      obtain ⟨mark, r, rfl, hmark⟩ := he.exists_cons hne
      rintro c ⟨⟩
      obtain rfl | rfl := hmark <;> exact ⟨rfl, by decide⟩
    obtain ⟨kind, hrule, hkind⟩ := hp.exists_plainNumberRule hend Lexicon.formulas.symbols
    rw [List.append_assoc, next_plain hp hkind hrule, hrun, if_neg hne]

theorem Lexeme.Number.isDigit {x : Lexeme} (h : x.Number) (hk : x.kind = .integer) :
    ∀ c ∈ x.text, c.isDigit = true := by
  cases h with
  | integer hne hds => exact hds
  | float h => cases hk

theorem Lexeme.Number.isSome_literal {x : Lexeme} (h : x.Number) :
    (x.kind = .integer → (integerLiteral? x.text).isSome) ∧
      (x.kind = .float → (realLiteral? x.text).isSome) := by
  cases h with
  | integer hne hds => exact ⟨fun _ => isSome_integerLiteral? hne hds, nofun⟩
  | float h => exact ⟨nofun, fun _ => h.isSome_realLiteral?⟩

end Formula
