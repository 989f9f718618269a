import Formula.Proofs.Expression.Alternation
import Formula.Proofs.Expression.Positions
import Formula.Proofs.Lexical.Respelling

/-!
# Texts that are made from tokens

The text made from the tokens of a formula has nothing between them, and names stand in it without
their double quotes. It is read as the same formula if every name is a word as it stands and neither
a letter nor a digit comes right behind a word or a reserved word, and only then. Nothing else can
run together: in an accepted formula an operator stands behind every number and every string, and
no two symbols that would make a longer one, or a comment, are neighbours.
-/

namespace Formula

open Text Lexicon

/-- Characters at which a word begins and that all belong to it. -/
structure Lexicon.IsRun (cs : List Char) : Prop where
  starts : ∃ c ∈ cs.head?, formulas.routes.lookup c = some .word
  letters : ∀ c ∈ cs, formulas.word.letters.lookup c = some true

/-- No letter or digit comes first. -/
def Lexicon.EndsRun (rest : List Char) : Prop :=
  ∀ c ∈ rest.head?, formulas.word.letters.lookup c = none

theorem Lexicon.IsRun.ne_nil {cs : List Char} (h : IsRun cs) : cs ≠ [] := by
  rintro rfl
  obtain ⟨c, hc, -⟩ := h.starts
  cases hc

theorem lookup_letters_eq_some_or_none (c : Char) :
    formulas.word.letters.lookup c = some true ∨ formulas.word.letters.lookup c = none := by
  rw [lookup_letters]
  split_ifs <;> simp

theorem letters_of_runOf {cs : List Char} :
    ∀ c ∈ runOf formulas.word.letters cs, formulas.word.letters.lookup c = some true := by
  intro c hc
  have hletter : (formulas.word.letters.lookup c).getD false = true :=
    List.all_eq_true.mp List.all_takeWhile c hc
  obtain hsome | hnone := lookup_letters_eq_some_or_none c
  · exact hsome
  · rw [hnone] at hletter
    cases hletter

/-- Where a run is taken off as it stands, no other letter follows. -/
theorem endsRun_of_runOf {cs rest : List Char}
    (h : runOf formulas.word.letters (cs ++ rest) = cs) : EndsRun rest := by
  have hletters : ∀ c ∈ cs, (formulas.word.letters.lookup c).getD false = true := by
    intro c hc
    rw [← h] at hc
    rw [letters_of_runOf c hc]
    rfl
  rw [runOf, List.takeWhile_append_of_pos hletters, List.append_right_eq_self] at h
  cases rest with
  | nil =>
    intro c hc
    cases hc
  | cons c rest =>
    rintro _ ⟨⟩
    obtain hsome | hnone := lookup_letters_eq_some_or_none c
    · rw [List.takeWhile_cons_of_pos (by rw [hsome]; rfl)] at h
      cases h
    · exact hnone

theorem isRun_runOf {c : Char} {cs : List Char} (hroute : formulas.routes.lookup c = some .word) :
    IsRun (runOf formulas.word.letters (c :: cs)) where
  starts := by
    have hletter : formulas.word.letters.lookup c = some true :=
      formulas_wellRouted.starts hroute
    rw [runOf, List.takeWhile_cons_of_pos (by rw [hletter]; rfl)]
    exact ⟨c, rfl, hroute⟩
  letters := letters_of_runOf

theorem Lexicon.IsRun.next {cs rest : List Char} (h : IsRun cs) (hrest : EndsRun rest) :
    formulas.next (cs ++ rest) =
      .ok ⟨if isKeyword (String.ofList cs) then .keyword else .word, cs, cs⟩ := by
  obtain ⟨⟨c, hc, hroute⟩, hletters⟩ := h
  obtain ⟨r, rfl⟩ := List.head?_eq_some_iff.mp hc
  exact next_run hroute hletters hrest

/-- The forms of the tokens that an accepted formula has. -/
inductive Token.Form (t : Token) : Prop
  | word (hkind : t.kind = .word)
  | keyword (hkind : t.kind = .keyword) (hrun : IsRun t.text.toList)
    (hkeyword : isKeyword t.text = true)
  | numeric (h : NumericForm t.kind t.text.toList)
  | string (hkind : t.kind = .quoted)
  | mark (hkind : t.kind = .symbol) (hmark : t.text ∈ marks)

theorem TokenMeaning.mem_marks {due : Bool} {text : String} {m : TokenMeaning}
    (h : ofSymbol due text = .ok m) : text ∈ marks := by
  unfold ofSymbol at h
  dsimp only at h
  split at h
  all_goals first
    | decide
    | cases h

/-- A token that comes from a text, and that is read, has one of these forms. -/
theorem Token.form_of_found {t : Token} {x : Lexeme} {front : List Char} (hfound : x.Found front)
    (hkeep : Parsed.options.drops none x.kind = false) (hsame : (x.token {}).Same t)
    (hmeaning : t.kind = .keyword ∨ ∃ due rest m, TokenMeaning.ofToken due t rest = .ok m) :
    t.Form := by
  cases hfound with
  | @word c cs run hroute hrun =>
    rw [Lexeme.token_of_ne_quoted (by split <;> decide)] at hsame
    obtain ⟨hkind, htext⟩ := hsame
    dsimp only at hkind htext
    cases hkeyword : isKeyword (String.ofList run) with
    | false =>
      rw [hkeyword] at hkind
      exact .word hkind.symm
    | true =>
      rw [hkeyword] at hkind
      refine .keyword hkind.symm ?_ (htext ▸ hkeyword)
      rw [← htext, String.toList_ofList, hrun]
      exact isRun_runOf hroute
  | numeric h =>
    rw [Lexeme.token_of_ne_quoted h.kind_ne_quoted] at hsame
    obtain ⟨hkind, htext⟩ := hsame
    refine .numeric ?_
    rw [← hkind, ← htext, String.toList_ofList]
    exact h
  | string s =>
    rw [Lexeme.token_string] at hsame
    exact .string hsame.1.symm
  | name s => exact .word hsame.1.symm
  | @other cs raw kind hkind =>
    have hquoted : kind ≠ .quoted := by
      rintro rfl
      revert hkind
      decide
    rw [Lexeme.token_of_ne_quoted hquoted] at hsame
    obtain ⟨rfl, -⟩ : kind = t.kind ∧ _ := hsame
    simp only [List.mem_cons, List.not_mem_nil, or_false] at hkind
    obtain hkind | hkind | hkind | hkind := hkind
    · refine .mark hkind ?_
      obtain hkeyword | ⟨due, rest, m, hm⟩ := hmeaning
      · rw [hkind] at hkeyword
        cases hkeyword
      · rw [TokenMeaning.ofToken, hkind] at hm
        exact TokenMeaning.mem_marks hm
    · rw [hkind] at hkeep
      cases hkeep
    · rw [hkind] at hkeep
      cases hkeep
    · obtain hkeyword | ⟨due, rest, m, hm⟩ := hmeaning
      · rw [hkind] at hkeyword
        cases hkeyword
      · rw [TokenMeaning.ofToken, hkind] at hm
        cases hm

theorem ne_exponentMark_of_isKeyword {text : String} (h : isKeyword text = true) :
    ∀ c ∈ text.toList.head?, c ≠ 'e' ∧ c ≠ 'E' := by
  obtain ⟨word, hword, hsame⟩ := exists_same_of_isKeyword h
  have hkeywords : ∀ word ∈ keywords, (AsciiCase.key word).head? ≠ some 'e' := by decide
  have hhead := hkeywords word hword
  have hkey : AsciiCase.key word = AsciiCase.key text := hsame
  rw [hkey, AsciiCase.key, List.head?_map] at hhead
  intro c hc
  rw [Option.mem_def.mp hc] at hhead
  constructor
  · rintro rfl
    exact hhead rfl
  · rintro rfl
    exact hhead rfl

theorem NumericForm.route {kind : TokenKind} {cs : List Char} (h : NumericForm kind cs) :
    ∃ c ∈ cs.head?, formulas.routes.lookup c = some .number := by
  have hplain : ∀ {plain : List Char}, PlainForm plain →
      ∃ c ∈ plain.head?, formulas.routes.lookup c = some .number := by
    intro plain hplain
    obtain ⟨c, r, rfl, -, -⟩ := hplain.exists_cons
    exact ⟨c, rfl, hplain.route⟩
  cases h with
  | integer hne hds => exact hplain (.whole hne hds)
  | point hne hds hfs => exact hplain (.point hne hds hfs)
  | exponent hp he hne =>
    obtain ⟨c, hc, hroute⟩ := hplain hp
    exact ⟨c, by rw [List.head?_append, Option.mem_def.mp hc]; rfl, hroute⟩

theorem Token.isLiteral_of_numericForm {t : Token} (h : NumericForm t.kind t.text.toList) :
    t.IsLiteral := by
  rw [IsLiteral]
  obtain hkind | hkind := h.kind <;> rw [hkind] <;> decide

/-- A name that is a word as it stands. -/
structure Token.IsPlainName (t : Token) : Prop where
  run : IsRun t.text.toList
  notReserved : isKeyword t.text = false

/-- The text that begins with `rest` does not go on with the token. -/
structure Token.EndsBefore (t : Token) (rest : List Char) : Prop where
  run : t.kind = .word ∨ t.kind = .keyword → EndsRun rest
  literal : t.IsLiteral → EndsNumber rest ∧ rest.head? ≠ some '\''
  infixMark : t.IsInfixMark → ∀ c ∈ rest.head?, c ∉ infixLeads

namespace Token

variable {t u : Token} {rest : List Char}

theorem endsBefore_nil (t : Token) : t.EndsBefore [] where
  run _ := nofun
  literal _ := ⟨nofun, nofun⟩
  infixMark _ := nofun

theorem EndsBefore.congr {others : List Char} (h : t.EndsBefore rest)
    (hhead : others.head? = rest.head?) : t.EndsBefore others where
  run hkind := by
    rw [EndsRun, hhead]
    exact h.run hkind
  literal hliteral := by
    rw [EndsNumber, hhead]
    exact h.literal hliteral
  infixMark hmark := by
    rw [hhead]
    exact h.infixMark hmark

theorem spelling_of_ne_quoted {kind : TokenKind} (hkind : t.kind = kind)
    (hquoted : kind ≠ .quoted) : t.spelling = t.text.toList := by
  unfold spelling
  split
  · next hk => exact absurd (hkind.symm.trans hk) hquoted
  · rfl

theorem spelling_of_quoted (h : t.kind = .quoted) :
    t.spelling = Quoted.encode '\'' t.text.toList := by
  rw [spelling, h]

/-- The lexeme that is spelled like its token makes a token that is the same. -/
theorem takenAs_of_next {kind : TokenKind} (hkind : t.kind = kind) (hquoted : kind ≠ .quoted)
    (hkeep : Parsed.options.drops none kind = false) (hne : t.text.toList ≠ [])
    (h : formulas.next (t.text.toList ++ rest) = .ok ⟨kind, t.text.toList, t.text.toList⟩) :
    t.TakenAs rest ⟨kind, t.text.toList, t.text.toList⟩ := by
  have hspelling := spelling_of_ne_quoted hkind hquoted
  refine ⟨hspelling ▸ h, hspelling.symm, hspelling ▸ hne, hkeep, ?_⟩
  rw [Lexeme.token_of_ne_quoted hquoted, String.ofList_toList]
  exact ⟨hkind.symm, rfl⟩

namespace Form

/-- A token of a formula is taken off where the text does not go on with it. -/
theorem exists_takenAs (h : t.Form) (hname : t.kind = .word → t.IsPlainName)
    (hrest : t.EndsBefore rest) : ∃ x, t.TakenAs rest x := by
  cases h with
  | word hkind =>
    obtain ⟨hrun, hkeyword⟩ := hname hkind
    have hnext := hrun.next (hrest.run (.inl hkind))
    rw [String.ofList_toList, hkeyword] at hnext
    exact ⟨_, takenAs_of_next hkind (by decide) rfl hrun.ne_nil hnext⟩
  | keyword hkind hrun hkeyword =>
    have hnext := hrun.next (hrest.run (.inr hkind))
    rw [String.ofList_toList, hkeyword] at hnext
    exact ⟨_, takenAs_of_next hkind (by decide) rfl hrun.ne_nil hnext⟩
  | numeric h =>
    have hnext := next_numeric h (hrest.literal (isLiteral_of_numericForm h)).1
    obtain ⟨c, hc, -⟩ := h.route
    have hne : t.text.toList ≠ [] := by
      rintro hnil
      rw [hnil] at hc
      cases hc
    obtain hkind | hkind := h.kind
    · rw [hkind] at hnext
      exact ⟨_, takenAs_of_next hkind (by decide) rfl hne hnext⟩
    · rw [hkind] at hnext
      exact ⟨_, takenAs_of_next hkind (by decide) rfl hne hnext⟩
  | string hkind =>
    have hliteral : t.IsLiteral := by
      rw [IsLiteral, hkind]
      decide
    have hnext := next_text t.text (hrest.literal hliteral).2
    rw [← spelling_of_quoted hkind] at hnext
    refine ⟨_, hnext, rfl, ?_, rfl, ?_⟩
    · rw [spelling_of_quoted hkind]
      exact List.cons_ne_nil _ _
    · rw [spelling_of_quoted hkind, Lexeme.token_string, String.ofList_toList]
      exact ⟨hkind.symm, rfl⟩
  | mark hkind hmark =>
    have hnext := next_mark hmark fun hinfix => hrest.infixMark ⟨hkind, hinfix⟩
    have hne : t.text.toList ≠ [] := by
      have hmarks : ∀ s ∈ marks, s.toList ≠ [] := by decide
      exact hmarks t.text hmark
    exact ⟨_, takenAs_of_next hkind (by decide) rfl hne hnext⟩

theorem spelling_ne_nil (h : t.Form) (hname : t.kind = .word → t.IsPlainName) :
    t.spelling ≠ [] := by
  obtain ⟨x, hx⟩ := h.exists_takenAs hname t.endsBefore_nil
  exact hx.ne_nil

/-- No operator and no parenthesis goes on with a number or a string. -/
theorem endsNumber (h : u.Form) (hliteral : ¬ u.IsLiteral) (hword : u.kind ≠ .word) :
    EndsNumber u.spelling ∧ u.spelling.head? ≠ some '\'' := by
  cases h with
  | word hkind => exact absurd hkind hword
  | numeric h => exact absurd (isLiteral_of_numericForm h) hliteral
  | string hkind => exact absurd (by rw [IsLiteral, hkind]; decide) hliteral
  | keyword hkind hrun hkeyword =>
    rw [spelling_of_ne_quoted hkind (by decide)]
    obtain ⟨c, hc, hroute⟩ := hrun.starts
    have hletter := ne_exponentMark_of_isKeyword hkeyword c hc
    have hother : ∀ d, formulas.routes.lookup d ≠ some .word → c ≠ d := by
      rintro d hd rfl
      exact hd hroute
    constructor
    · rintro d hd
      obtain rfl : c = d := Option.mem_unique hc hd
      refine ⟨?_, hother '.' (by simp [lookup_routes]), hletter⟩
      rw [← Bool.not_eq_true]
      intro hdigit
      rw [route_digit hdigit] at hroute
      cases hroute
    · intro hd
      exact hother '\'' (by simp [lookup_routes]) (Option.mem_unique hc hd)
  | mark hkind hmark =>
    have hmarks : ∀ s ∈ marks, ∀ c ∈ s.toList.head?,
        (c.isDigit = false ∧ c ≠ '.' ∧ c ≠ 'e' ∧ c ≠ 'E') ∧ c ≠ '\'' := by simp [marks]
    rw [spelling_of_ne_quoted hkind (by decide)]
    exact ⟨fun c hc => (hmarks _ hmark c hc).1, fun hc => (hmarks _ hmark _ hc).2 rfl⟩

/-- Only a symbol that needs an operand on either side could go on with another one. -/
theorem not_mem_infixLeads (h : u.Form) (hname : u.kind = .word → u.IsPlainName)
    (hmark : ¬ u.IsInfixMark) : ∀ c ∈ u.spelling.head?, c ∉ infixLeads := by
  have hleads : ∀ c ∈ infixLeads, formulas.routes.lookup c = some .symbol ∨
      formulas.routes.lookup c = some .comment := by
    simp [infixLeads, lookup_routes]
  have hrouted : ∀ {rule : RuleName}, rule ≠ .symbol → rule ≠ .comment →
      (∃ c ∈ u.text.toList.head?, formulas.routes.lookup c = some rule) →
      ∀ c ∈ u.text.toList.head?, c ∉ infixLeads := by
    rintro rule hsymbol hcomment ⟨c, hc, hroute⟩ d hd hlead
    obtain rfl : c = d := Option.mem_unique hc hd
    obtain hlookup | hlookup := hleads c hlead
    · exact hsymbol (Option.some.inj (hroute.symm.trans hlookup))
    · exact hcomment (Option.some.inj (hroute.symm.trans hlookup))
  cases h with
  | word hkind =>
    rw [spelling_of_ne_quoted hkind (by decide)]
    exact hrouted (by decide) (by decide) (hname hkind).run.starts
  | keyword hkind hrun hkeyword =>
    rw [spelling_of_ne_quoted hkind (by decide)]
    exact hrouted (by decide) (by decide) hrun.starts
  | numeric h =>
    rw [spelling_of_ne_quoted rfl h.kind_ne_quoted]
    exact hrouted (by decide) (by decide) h.route
  | string hkind =>
    rw [spelling_of_quoted hkind]
    rintro _ ⟨⟩
    decide
  | mark hkind hs =>
    have hother : ∀ s ∈ marks, s ∉ infixMarks → ∀ c ∈ s.toList.head?, c ∉ infixLeads := by
      simp [marks, infixMarks, infixLeads]
    rw [spelling_of_ne_quoted hkind (by decide)]
    exact hother _ hs fun hinfix => hmark ⟨hkind, hinfix⟩

end Form

end Token

/-- Names are words as they stand, and no letter or digit comes right behind a word. -/
structure Separable (ts : List Token) : Prop where
  names : ∀ t ∈ ts, t.kind = .word → t.IsPlainName
  words : ts.IsChain fun t u => t.kind = .word ∨ t.kind = .keyword → EndsRun u.spelling

namespace Separable

variable {t u : Token} {ts : List Token}

theorem tail (h : Separable (t :: ts)) : Separable ts where
  names v hv := h.names v (.tail t hv)
  words := (List.isChain_cons.mp h.words).2

/-- The next token of a formula does not go on with the one before. -/
theorem endsBefore (hword : t.kind = .word ∨ t.kind = .keyword → EndsRun u.spelling)
    (hform : u.Form) (hname : u.kind = .word → u.IsPlainName) (hfollows : u.Follows t) :
    t.EndsBefore u.spelling := by
  obtain ⟨due, hleaves, hfits⟩ := hfollows
  refine ⟨hword, fun hliteral => ?_, fun hmark => ?_⟩
  · have hdue := hleaves.literal hliteral
    refine hform.endsNumber (fun hl => ?_) fun hw => ?_
    · rw [hfits.operand (.inl hl)] at hdue
      cases hdue
    · rw [hfits.operand (.inr hw)] at hdue
      cases hdue
  · have hdue := hleaves.infixMark hmark
    refine hform.not_mem_infixLeads hname fun hm => ?_
    rw [hfits.infixMark hm] at hdue
    cases hdue

theorem respelled (h : Separable ts) (hforms : ∀ t ∈ ts, t.Form)
    (hfollows : ts.IsChain fun t u => u.Follows t) : Respelled ts := by
  induction ts with
  | nil => exact .nil
  | cons t ts ih =>
    obtain ⟨hform, hforms⟩ := List.forall_mem_cons.mp hforms
    obtain ⟨hnext, hfollows⟩ := List.isChain_cons.mp hfollows
    have hends : t.EndsBefore (spelled ts) := by
      cases ts with
      | nil => exact t.endsBefore_nil
      | cons u us =>
        have hwords := (List.isChain_cons.mp h.words).1 u rfl
        have hu := hforms u List.mem_cons_self
        have hname := h.names u (.tail t List.mem_cons_self)
        refine (endsBefore hwords hu hname (hnext u rfl)).congr ?_
        rw [spelled_cons, List.head?_append_of_ne_nil _ (hu.spelling_ne_nil hname)]
    obtain ⟨x, hx⟩ := hform.exists_takenAs (h.names t List.mem_cons_self) hends
    exact .cons hx (ih h.tail hforms hfollows)

end Separable

/-- A word that is taken off as it was put down is a word as it stands, and ends there. -/
theorem Token.TakenAs.word {t : Token} {rest : List Char} {x : Lexeme} (h : t.TakenAs rest x)
    (hkind : t.kind = .word ∨ t.kind = .keyword) :
    (t.kind = .word → t.IsPlainName) ∧ EndsRun rest := by
  have hquoted : t.kind ≠ .quoted := by
    intro hquoted
    rw [hquoted] at hkind
    simp at hkind
  have hspelling := spelling_of_ne_quoted rfl hquoted
  have hfound := found_of_next_append h.next h.ne_nil
  have hraw := h.raw
  have hsame : x.kind = t.kind := (x.kind_token {}).symm.trans h.same.1
  generalize hfront : t.spelling ++ rest = front at hfound
  cases hfound with
  | @word c cs run hroute hrun =>
    obtain rfl : run = t.spelling := hraw
    refine ⟨fun hword => ⟨?_, ?_⟩, endsRun_of_runOf (hfront ▸ hrun.symm)⟩
    · rw [← hspelling, hrun]
      exact isRun_runOf hroute
    · rw [hword, hspelling, String.ofList_toList] at hsame
      cases hkeyword : isKeyword t.text with
      | false => rfl
      | true =>
        rw [hkeyword] at hsame
        cases hsame
  | numeric hnumeric =>
    obtain rfl | rfl := hnumeric.kind <;> rw [← hsame] at hkind <;> simp at hkind
  | string s => exact absurd hsame.symm hquoted
  | name s =>
    have htext : String.ofList s = t.text := h.same.2
    rw [hspelling, ← htext, String.toList_ofList] at hraw
    have hlength : (Quoted.encode '"' s).length = s.length := congrArg List.length hraw
    have hshorter := Quoted.length_lt_encode '"' s
    omega
  | @other cs raw kind hother =>
    obtain rfl : kind = t.kind := hsame
    obtain hkind | hkind := hkind <;> rw [hkind] at hother <;> simp at hother

theorem Respelled.separable {ts : List Token} (h : Respelled ts) : Separable ts := by
  induction h with
  | nil => exact ⟨nofun, .nil⟩
  | @cons t ts x h more ih =>
    refine ⟨List.forall_mem_cons.mpr ⟨fun hkind => (h.word (.inl hkind)).1 hkind, ih.names⟩,
      List.isChain_cons.mpr ⟨?_, ih.words⟩⟩
    intro u hu hkind
    have hends := (h.word hkind).2
    cases more with
    | nil => cases hu
    | cons hu' more =>
      cases hu
      rwa [EndsRun, spelled_cons, List.head?_append_of_ne_nil _ hu'.ne_nil] at hends

namespace Parsed

variable {text : String} {tokens : List Token} {p : Parsed}

theorem tokensOf_of_ofText (h : ofText text = .ok p) :
    tokensOf text = .ok p.tokens ∧ ofTokensNamed text p.tokens = .ok p := by
  rw [ofText] at h
  split at h
  · cases h
  · next tokens htokens =>
    have hp : p.tokens = tokens := congrArg Parsed.tokens (eq_of_ofTokensNamed h)
    rw [hp]
    exact ⟨htokens, h⟩

/-- The tokens of a formula in a text have their forms and follow each other. -/
theorem forms_of_ofText (h : ofText text = .ok p) :
    (∀ t ∈ p.tokens, t.Form) ∧ p.tokens.IsChain fun t u => u.Follows t := by
  obtain ⟨htokens, hnamed⟩ := tokensOf_of_ofText h
  obtain ⟨hreads, hprogram⟩ := of_ofTokensNamed hnamed
  obtain ⟨steps, b, more, hfeed, -, -⟩ := Arranging.feed_of_run hprogram
  refine ⟨fun t ht => ?_, (hreads.follows hfeed rfl).2⟩
  obtain ⟨x, front, hfound, hkeep, hsame⟩ := (lexed_of_tokensOf htokens).exists_found t ht
  exact Token.form_of_found hfound hkeep hsame (hreads.exists_meaning t ht)

/-- The tokens of a formula are a formula of their own that differs in its text only. -/
theorem ofTokens_tokens (h : ofText text = .ok p) :
    ofTokens p.tokens = .ok { p with expression := compose p.tokens } := by
  obtain ⟨-, hnamed⟩ := tokensOf_of_ofText h
  obtain ⟨hreads, hprogram⟩ := of_ofTokensNamed hnamed
  rw [ofTokens, ofTokensNamed_eq_ok hreads hprogram, eq_of_ofTokensNamed hnamed]

/-- The tokens of a formula make a formula of their own, and its text is read as the same formula if
the tokens are told apart in it, and only then. -/
theorem exists_same_compose_iff (h : ofText text = .ok p) :
    ofTokens p.tokens = .ok { p with expression := compose p.tokens } ∧
      ((∃ q, ofText (compose p.tokens) = .ok q ∧ q.Same p) ↔ Separable p.tokens) := by
  obtain ⟨htokens, hnamed⟩ := tokensOf_of_ofText h
  refine ⟨ofTokens_tokens h, ?_, ?_⟩
  · rintro ⟨q, hq, hsame⟩
    have hrespelled : Respelled p.tokens :=
      (tokensOf_compose_iff p.tokens).mp ⟨q.tokens, (tokensOf_of_ofText hq).1, hsame.tokens⟩
    exact hrespelled.separable
  · intro hseparable
    obtain ⟨hforms, hfollows⟩ := forms_of_ofText h
    obtain ⟨us, hus, hsame⟩ :=
      (tokensOf_compose_iff p.tokens).mpr (hseparable.respelled hforms hfollows)
    obtain ⟨q, hq, hqp⟩ := exists_same_of_ofTokensNamed hnamed hsame (compose p.tokens)
    refine ⟨q, ?_, hqp⟩
    rw [ofText, hus]
    exact hq

theorem exists_ofText_of_tokensOf (htokens : tokensOf text = .ok tokens)
    (hsome : (ofTokensNamed text tokens).toOption.isSome = true) :
    ∃ p, ofText text = .ok p ∧ p.tokens = tokens := by
  obtain ⟨p, hp⟩ := Option.isSome_iff_exists.mp hsome
  have hnamed := eq_ok_of_toOption hp
  refine ⟨p, ?_, congrArg Parsed.tokens (eq_of_ofTokensNamed hnamed)⟩
  rw [ofText, htokens]
  exact hnamed

/-- Strings, operators and brackets hold a formula without blanks together. -/
theorem exists_same_compose_iff_quotes : ∃ p, ofText "1 OR 'it''s'<>-( b )" = .ok p ∧
    Separable p.tokens ∧
    ofTokens p.tokens = .ok { p with expression := "1OR'it''s'<>-(b)" } ∧
    ∃ q, ofText "1OR'it''s'<>-(b)" = .ok q ∧ q.Same p := by
  have htokens : tokensOf "1 OR 'it''s'<>-( b )" = .ok
      [⟨.integer, "1", ⟨1, 1⟩⟩, ⟨.keyword, "OR", ⟨1, 3⟩⟩, ⟨.quoted, "it's", ⟨1, 6⟩⟩,
        ⟨.symbol, "<>", ⟨1, 13⟩⟩, ⟨.symbol, "-", ⟨1, 15⟩⟩, ⟨.symbol, "(", ⟨1, 16⟩⟩,
        ⟨.word, "b", ⟨1, 18⟩⟩, ⟨.symbol, ")", ⟨1, 20⟩⟩] := eq_ok_of_toOption <| by
    rw [tokensOf, formulas_eq_ofRanges]
    decide +kernel
  obtain ⟨p, hp, hlist⟩ := exists_ofText_of_tokensOf htokens (by decide +kernel)
  have hcompose : compose p.tokens = "1OR'it''s'<>-(b)" := by
    rw [hlist]
    decide +kernel
  have hseparable : Separable p.tokens := by
    rw [hlist]
    constructor
    · have hb : Token.IsPlainName ⟨.word, "b", ⟨1, 18⟩⟩ :=
        ⟨⟨⟨'b', rfl, by simp [lookup_routes]⟩, by simp [lookup_letters]⟩, by decide⟩
      simpa using hb
    · simp [EndsRun, Token.spelling, Quoted.encode, lookup_letters]
  obtain ⟨hown, hiff⟩ := exists_same_compose_iff hp
  rw [hcompose] at hown hiff
  exact ⟨p, hp, hseparable, hown, hiff.mpr hseparable⟩

/-- Three words become one. -/
theorem compose_of_words : ∃ p, ofText "a AND b" = .ok p ∧
    ofTokens p.tokens = .ok { p with expression := "aANDb" } ∧
    ¬ ∃ q, ofText "aANDb" = .ok q ∧ q.Same p := by
  have htokens : tokensOf "a AND b" = .ok
      [⟨.word, "a", ⟨1, 1⟩⟩, ⟨.keyword, "AND", ⟨1, 3⟩⟩, ⟨.word, "b", ⟨1, 7⟩⟩] :=
    eq_ok_of_toOption <| by
      rw [tokensOf, formulas_eq_ofRanges]
      decide +kernel
  have hjoined : tokensOf "aANDb" = .ok [⟨.word, "aANDb", ⟨1, 1⟩⟩] := eq_ok_of_toOption <| by
    rw [tokensOf, formulas_eq_ofRanges]
    decide +kernel
  obtain ⟨p, hp, hlist⟩ := exists_ofText_of_tokensOf htokens (by decide +kernel)
  have hcompose : compose p.tokens = "aANDb" := by
    rw [hlist]
    decide +kernel
  refine ⟨p, hp, hcompose ▸ ofTokens_tokens hp, ?_⟩
  rintro ⟨q, hq, hsame⟩
  obtain ⟨hq, -⟩ := tokensOf_of_ofText hq
  have hone : q.tokens = [⟨.word, "aANDb", ⟨1, 1⟩⟩] := Except.ok.inj (hq.symm.trans hjoined)
  have hlength := hsame.tokens.length_eq
  rw [hone, hlist] at hlength
  cases hlength

end Parsed

end Formula
