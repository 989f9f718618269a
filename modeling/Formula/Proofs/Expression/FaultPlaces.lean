import Formula.Proofs.Expression.TokenRows
import Formula.Proofs.Lexical.Shapes
import Formula.Proofs.Lexical.Splitting

/-!
# Where a formula goes wrong

A text that is no formula is refused at one of its lexemes. The lexer only fails at a quote that
nothing closes, since each rule is led to characters it accepts; its numbers have values; and what
can be wrong with the tokens or the items of a formula is placed at one of them.
-/

namespace Formula

open Text

/-- What can be wrong with tokens that stand for something each, or with their order. -/
def SyntaxFault.betweenTokens : SyntaxFault → Bool
  | .unterminatedString _ => false
  | .invalidNumber _ => false
  | .notNumeric => false
  | .misuse _ => false
  | .stalled => false
  | _ => true

theorem SyntaxFault.code_of_betweenTokens {f : SyntaxFault} (h : f.betweenTokens = true) :
    f.code ≠ "INTERNAL" ∧ f.code ≠ "INVALID_NUMBER" ∧ f.code ≠ "UNTERMINATED_STRING" := by
  cases f with
  | danglingIs atEnd => cases atEnd <;> decide
  | unterminatedString => cases h
  | invalidNumber => cases h
  | notNumeric => cases h
  | misuse => cases h
  | stalled => cases h
  | _ => simp [code]

/-- The error is about tokens, and it is placed at one of the given places. -/
structure SyntaxError.PlacedIn (places : List Position) (e : SyntaxError) : Prop where
  betweenTokens : e.fault.betweenTokens = true
  position_mem : e.position ∈ places

theorem SyntaxError.PlacedIn.mono {places more : List Position} {e : SyntaxError}
    (h : e.PlacedIn places) (hsub : places ⊆ more) : e.PlacedIn more :=
  ⟨h.betweenTokens, hsub h.position_mem⟩

/-- A number token is written as a number, and a keyword token as a reserved word. -/
def Token.Proper (t : Token) : Prop :=
  match t.kind with
  | .keyword => isKeyword t.text = true
  | .integer => (integerLiteral? t.text.toList).isSome
  | .float => (realLiteral? t.text.toList).isSome
  | .number => (realLiteral? t.text.toList).isSome
  | _ => True

theorem Token.map_position_drop_subset (t : Token) (rest : List Token) (more : Nat) :
    (rest.drop more).map position ⊆ (t :: rest).map position :=
  List.map_subset _ (List.subset_cons_of_subset t (List.drop_subset more rest))

namespace TokenMeaning

theorem betweenTokens_of_ofSymbol {due : Bool} {text : String} {f : SyntaxFault}
    (h : ofSymbol due text = .error f) : f.betweenTokens = true := by
  unfold ofSymbol at h
  split at h <;> (try split_ifs at h) <;> cases h
  rfl

theorem betweenTokens_of_ofKeyword {text : String} {rest : List Token} {f : SyntaxFault}
    (h : ofKeyword text rest = .error f) : f.betweenTokens = true := by
  unfold ofKeyword at h
  split at h <;> (try split_ifs at h) <;> cases h <;> rfl

theorem ne_error_of_isSome {value : Option Value} (hv : value.isSome) {text : String}
    {f : SyntaxFault} : ofLiteral value text ≠ .error f := by
  obtain ⟨v, rfl⟩ := Option.isSome_iff_exists.mp hv
  nofun

theorem betweenTokens_of_ofToken {due : Bool} {t : Token} {rest : List Token} {f : SyntaxFault}
    (ht : t.Proper) (h : ofToken due t rest = .error f) : f.betweenTokens = true := by
  unfold ofToken at h
  unfold Token.Proper at ht
  split at h <;> simp only [*] at ht
  · exact betweenTokens_of_ofSymbol h
  · exact betweenTokens_of_ofKeyword h
  · exact absurd h (ne_error_of_isSome ht)
  · exact absurd h (ne_error_of_isSome ht)
  · exact absurd h (ne_error_of_isSome ht)
  all_goals cases h
  all_goals rfl

end TokenMeaning

/-- Reading tokens as items goes wrong at a token, or at a plus sign in front of them. -/
theorem Item.placedIn_of_ofTokensAfter {last : Option Item} {sign : Option Position}
    {tokens : List Token} {e : SyntaxError} (hproper : ∀ t ∈ tokens, t.Proper)
    (h : ofTokensAfter last sign tokens = .error e) :
    e.PlacedIn (sign.toList ++ tokens.map Token.position) := by
  fun_induction ofTokensAfter last sign tokens generalizing e with
  | case1 last p =>
    cases h
    exact ⟨rfl, by simp⟩
  | case2 => cases h
  | case3 last sign t rest fault ht =>
    cases h
    exact ⟨TokenMeaning.betweenTokens_of_ofToken (hproper t (by simp)) ht, by simp⟩
  | case4 last sign t rest ht ih =>
    exact (ih (fun t ht => hproper t (by simp [ht])) h).mono (by simp)
  | case5 last sign t rest ht ih =>
    exact (ih (fun t ht => hproper t (by simp [ht])) h).mono (by simp)
  | case6 last t rest i more ht p hi =>
    cases h
    exact ⟨rfl, by simp⟩
  | case7 => cases h
  | case8 last t rest i more ht p hi e' hrest ih =>
    cases h
    refine (ih (fun t ht => hproper t ?_) hrest).mono ?_
    · exact List.mem_cons_of_mem _ (List.mem_of_mem_drop ht)
    · exact List.subset_append_of_subset_right _ (Token.map_position_drop_subset t rest more)
  | case9 => cases h
  | case10 last t rest i more ht e' hrest ih =>
    cases h
    refine (ih (fun t ht => hproper t ?_) hrest).mono ?_
    · exact List.mem_cons_of_mem _ (List.mem_of_mem_drop ht)
    · exact List.subset_append_of_subset_right _ (Token.map_position_drop_subset t rest more)

theorem Reads.map_position_subset {last : Option Item} {sign : Option Position}
    {tokens : List Token} {row : Row} (h : Reads last sign tokens row) :
    row.map Located.position ⊆ tokens.map Token.position := by
  induction h with
  | done last => exact fun _ hp => hp
  | layout ht h ih => exact fun p hp => List.mem_cons_of_mem _ (ih hp)
  | plusSign ht h ih => exact fun p hp => List.mem_cons_of_mem _ (ih hp)
  | @item last sign t rest row i more ht hs h ih =>
    exact List.cons_subset.mpr
      ⟨List.mem_cons_self, List.Subset.trans ih (Token.map_position_drop_subset t rest more)⟩

def Held.position : Held → Position
  | .operator _ p => p
  | .group p _ _ => p
  | .bracket p => p

theorem Held.popWhile_suffix (P : Operator → Prop) [DecidablePred P] (stack : List Held) :
    (popWhile P stack).2 <:+ stack := by
  induction stack with
  | nil => exact List.suffix_rfl
  | cons held below ih =>
    cases held with
    | operator op p =>
      rw [popWhile]
      split_ifs
      · exact ih.trans (List.suffix_cons _ _)
      · exact List.suffix_rfl
    | group opened function commas => exact List.suffix_rfl
    | bracket opened => exact List.suffix_rfl

theorem Held.release_suffix (stack : List Held) : (release stack).2 <:+ stack := by
  rw [release_eq_popWhile]
  exact popWhile_suffix _ stack

theorem Held.yield_suffix (incoming : Operator) (stack : List Held) :
    (yield incoming stack).2 <:+ stack := by
  rw [yield_eq_popWhile]
  exact popWhile_suffix _ stack

theorem Held.placedIn_of_close {stack : List Held} {e : SyntaxError}
    (h : close stack = .error e) : e.PlacedIn (stack.map Held.position) := by
  induction stack with
  | nil => cases h
  | cons held below ih =>
    cases held with
    | operator op p =>
      rw [close] at h
      split at h
      · cases h
      · next e' hbelow =>
        cases h
        exact (ih hbelow).mono (List.subset_cons_self _ _)
    | group opened function commas =>
      cases h
      exact ⟨rfl, by simp [Held.position]⟩
    | bracket opened =>
      cases h
      exact ⟨rfl, by simp [Held.position]⟩

namespace Arranging

theorem betweenTokens_of_step {a : Arranging} {i : Located Item} {f : SyntaxFault}
    (h : a.step i = .error f) : f.betweenTokens = true := by
  unfold step operand openParen comma closeParen openBracket closeBracket suffixOp prefixOp infixOp at h
  repeat' split at h
  all_goals cases h
  all_goals rfl

/-- A step holds back nothing but its item and what was held back before it. -/
theorem positions_step {a b : Arranging} {i : Located Item} {steps : Program}
    (h : a.step i = .ok (steps, b)) :
    b.stack.map Held.position ⊆ i.position :: a.stack.map Held.position := by
  have hreleased : ∀ {out held below}, Held.release a.stack = (out, held :: below) →
      held.position :: below.map Held.position ⊆ i.position :: a.stack.map Held.position := by
    intro out held below hrelease
    have hsuffix := Held.release_suffix a.stack
    rw [hrelease] at hsuffix
    exact List.subset_cons_of_subset _ (List.map_subset Held.position hsuffix.subset)
  have hyielded : ∀ op, (Held.yield op a.stack).2.map Held.position ⊆ a.stack.map Held.position :=
    fun op => List.map_subset _ (Held.yield_suffix op a.stack).subset
  obtain ⟨item, p⟩ := i
  cases item <;> dsimp only [step] at h
  case openParen =>
    unfold openParen at h
    split at h <;> cases h
    exact List.Subset.refl _
  case closeParen =>
    unfold closeParen at h
    split at h
    · next hrelease =>
      split at h <;> cases h
      exact List.Subset.trans (List.subset_cons_self _ _) (hreleased hrelease)
    · next hrelease =>
      split at h <;> cases h
      exact List.Subset.trans (List.subset_cons_self _ _) (hreleased hrelease)
    · cases h
  case openBracket =>
    unfold openBracket at h
    split at h <;> cases h
    exact List.Subset.refl _
  case closeBracket =>
    unfold closeBracket at h
    split at h
    · cases h
    · split at h <;> cases h
      next hrelease => exact List.Subset.trans (List.subset_cons_self _ _) (hreleased hrelease)
  case comma =>
    unfold comma at h
    split at h
    · cases h
    · split at h <;> cases h
      next hrelease =>
        have hgroup := hreleased hrelease
        exact hgroup
  case infixOp op =>
    unfold infixOp at h
    split at h <;> cases h
    exact List.cons_subset_cons _ (hyielded _)
  case suffixOp op =>
    unfold suffixOp at h
    split at h <;> cases h
    exact List.subset_cons_of_subset _ (hyielded _)
  case prefixOp op =>
    unfold prefixOp at h
    split at h <;> cases h
    exact List.Subset.refl _
  all_goals
    try unfold operand at h
    split at h <;> cases h
    exact List.subset_cons_self _ _

/-- Arranging items goes wrong at an item, or at something that was held back before them. -/
theorem placedIn_of_run {a : Arranging} {last : Option Position} {row : Row} {e : SyntaxError}
    (h : a.run last row = .error e) : e.PlacedIn
      (a.stack.map Held.position ++ last.toList ++ row.map Located.position) := by
  induction row generalizing a last with
  | nil =>
    rw [run, finish.eq_def] at h
    cases last with
    | none => exact (Held.placedIn_of_close h).mono (by simp)
    | some p =>
      dsimp only at h
      split at h
      · cases h
        exact ⟨rfl, by simp⟩
      · exact (Held.placedIn_of_close h).mono (by simp)
  | cons i row ih =>
    rw [run] at h
    split at h
    · next fault hstep =>
      cases h
      exact ⟨betweenTokens_of_step hstep, by simp⟩
    · next steps b hstep =>
      split at h
      · cases h
      · next e' hrow =>
        cases h
        refine (ih hrow).mono fun q hq => ?_
        simp only [Option.toList_some, List.map_cons, List.mem_append, List.mem_cons,
          List.not_mem_nil, or_false] at hq ⊢
        rcases hq with (hq | rfl) | hq
        · obtain rfl | hq := List.mem_cons.mp (positions_step hstep hq)
          · simp
          · simp [hq]
        · simp
        · simp [hq]

end Arranging

theorem Program.placedIn_of_ofItems {row : Row} {e : SyntaxError}
    (h : Program.ofItems row = .error e) : e.PlacedIn (row.map Located.position) :=
  Arranging.placedIn_of_run h

theorem Parsed.placedIn_of_ofTokensNamed {expression : String} {tokens : List Token}
    {e : SyntaxError} (hproper : ∀ t ∈ tokens, t.Proper)
    (h : ofTokensNamed expression tokens = .error e) :
    e.PlacedIn (tokens.map Token.position) := by
  unfold ofTokensNamed at h
  split at h
  · next e' hitems =>
    cases h
    exact Item.placedIn_of_ofTokensAfter hproper hitems
  · next row hitems =>
    split at h
    · next e' hprogram =>
      cases h
      exact (Program.placedIn_of_ofItems hprogram).mono
        (Reads.of_ofTokensAfter hitems).map_position_subset
    · cases h

namespace Lexicon

theorem Spells.exists_position {l : Lexicon} {place : List Char → Position}
    {lexemes : List (List Char)} {tokens : List Token} (h : l.Spells place lexemes tokens)
    {t : Token} (ht : t ∈ tokens) (hkind : t.kind ≠ .eof) :
    ∃ i < lexemes.length, t.position = place (lexemes.take i).flatten := by
  obtain ⟨i, hi, rfl⟩ := List.getElem_of_mem ht
  rw [h.length_eq] at hi
  obtain hlt | rfl := Nat.lt_succ_iff_lt_or_eq.mp hi
  · obtain ⟨kind, -, htoken⟩ := h.token (List.getElem?_eq_getElem hlt)
    rw [List.getElem?_eq_getElem (by omega), Option.some.injEq] at htoken
    exact ⟨i, hlt, by rw [htoken]⟩
  · have heof := h.eof
    rw [List.getElem?_eq_getElem (by omega), Option.some.injEq] at heof
    rw [heof] at hkind
    exact absurd rfl hkind

theorem isSome_literal_of_next {cs : List Char} {x : Lexeme} (h : formulas.next cs = .ok x) :
    x.kind ≠ .number ∧ (x.kind = .integer → (integerLiteral? x.text).isSome) ∧
      (x.kind = .float → (realLiteral? x.text).isSome) := by
  have hshaped := shaped_of_next h
  unfold Lexeme.Shaped at hshaped
  refine ⟨fun hkind => ?_, fun hkind => ?_, fun hkind => ?_⟩
  · rw [hkind] at hshaped
    exact hshaped
  · rw [hkind] at hshaped
    exact hshaped.isSome_literal.1 hkind
  · rw [hkind] at hshaped
    exact hshaped.isSome_literal.2 hkind

theorem Cut.proper {c : Cursor} {tokens : List Token} (h : formulas.Cut c (.ok tokens)) :
    ∀ t ∈ tokens, t.Proper := by
  generalize hr : (Except.ok tokens : Except SyntaxError _) = r at h
  induction h generalizing tokens with
  | atEnd p =>
    cases hr
    simp [Token.Proper]
  | fault p h => cases hr
  | @lexeme x rest p r h hx more ih =>
    cases r with
    | error e => cases hr
    | ok ts =>
      cases hr
      refine List.forall_mem_cons.mpr ⟨?_, ih rfl⟩
      obtain ⟨hnumber, hinteger, hfloat⟩ := isSome_literal_of_next h
      have hshaped := shaped_of_next h
      unfold Lexeme.Shaped at hshaped
      simp only [Token.Proper, String.toList_ofList]
      cases hkind : x.kind with
      | keyword =>
        rw [hkind] at hshaped
        exact hshaped
      | integer => exact hinteger hkind
      | float => exact hfloat hkind
      | number => exact absurd hkind hnumber
      | _ => trivial

/-- The lexer of formulas only fails at a quote that nothing closes. -/
theorem exists_of_next_eq_error {cs : List Char} {f : SyntaxFault}
    (h : formulas.next cs = .error f) : ∃ quote, f = .unterminatedString quote := by
  cases cs with
  | nil => cases h
  | cons c cs =>
    obtain ⟨x, hx, -⟩ | ⟨-, -, hopen⟩ := formulas_wellRouted.next_cons c cs
    · rw [h] at hx
      cases hx
    · rw [h] at hopen
      cases hopen
      exact ⟨c, rfl⟩

end Lexicon

namespace Parsed

theorem tokensOf_of_cut {text : String} {r : Except SyntaxError (List Token)}
    (h : Lexicon.formulas.Cut (.ofString text) r) : tokensOf text = r.map options.process := by
  rw [tokensOf, Tokenizer.tokenize, Tokenizer.setInput_eq_reading,
    h.tokens_reading Lexicon.formulas_wellRouted, ← funext options.process_eq]

/-- A token of a formula is one of the cut, up to the quotes of a string. -/
theorem exists_of_mem_process {tokens : List Token} {t : Token}
    (ht : t ∈ options.process tokens) : ∃ s ∈ tokens, s.kind ≠ .eof ∧ t.position = s.position ∧
      (s.Proper → t.Proper) := by
  rw [TokenOptions.process_eq, TokenOptions.processAfter] at ht
  obtain ⟨s, hs, rfl⟩ := List.mem_map.mp ht
  obtain ⟨hmem, hkept⟩ := List.mem_filter.mp hs
  refine ⟨s, hmem, ?_, ?_⟩
  · rintro heof
    simp [heof, TokenOptions.skips, options] at hkept
  · obtain ⟨kind, text, p⟩ := s
    cases kind with
    | quoted => cases h : text.toList <;> simp [TokenOptions.finish, options, h, Token.Proper]
    | _ => exact ⟨rfl, id⟩

theorem proper_process {c : Cursor} {tokens : List Token}
    (h : Lexicon.formulas.Cut c (.ok tokens)) : ∀ t ∈ options.process tokens, t.Proper := by
  intro t ht
  obtain ⟨s, hs, -, -, hkeeps⟩ := exists_of_mem_process ht
  exact hkeeps (h.proper s hs)

theorem proper_tokensOf {text : String} {tokens : List Token} (h : tokensOf text = .ok tokens) :
    ∀ t ∈ tokens, t.Proper := by
  obtain ⟨r, hcut⟩ := Lexicon.formulas_wellRouted.exists_cut text.toList {}
  rw [tokensOf_of_cut hcut] at h
  cases r with
  | error e => cases h
  | ok ts =>
    cases h
    exact proper_process hcut

theorem position_of_ofText_eq_error {text : String} {lexemes : List (List Char)}
    {tokens : List Token} (hcut : Lexicon.formulas.Cut (.ofString text) (.ok tokens))
    (hspells : Lexicon.formulas.Spells Position.counted lexemes tokens) {e : SyntaxError}
    (h : ofText text = .error e) : e.fault.betweenTokens = true ∧
      ∃ i < lexemes.length, e.position = Position.counted (lexemes.take i).flatten := by
  rw [ofText, tokensOf_of_cut hcut] at h
  have hplaced := placedIn_of_ofTokensNamed (proper_process hcut) h
  obtain ⟨t, ht, hposition⟩ := List.mem_map.mp hplaced.position_mem
  obtain ⟨s, hs, heof, hsame, -⟩ := exists_of_mem_process ht
  obtain ⟨i, hi, hcounted⟩ := hspells.exists_position hs heof
  exact ⟨hplaced.betweenTokens, i, hi, by rw [← hposition, hsame, hcounted]⟩

/-- A text is a formula, or it goes wrong at the start of one of its lexemes, or at a quote that
nothing closes. Nothing goes wrong inside: no rule of the lexer is led to a character that it does
not accept, its numbers have values, and arranging the items of a row finds no other fault. -/
theorem setText_fails_at_lexeme (p : Parsed) (text : String) :
    ((p.setText text).2 = none ∨
      (∃ e lexemes i, (p.setText text).2 = some e ∧
        e.fault.code ∉ ["INTERNAL", "INVALID_NUMBER", "UNTERMINATED_STRING"] ∧
        lexemes.flatten = text.toList ∧ Lexicon.formulas.Peels [] lexemes ∧
        i < lexemes.length ∧ e.position = Position.counted (lexemes.take i).flatten) ∨
      ∃ e lexemes quote rest, (p.setText text).2 = some e ∧
        e.fault.code = "UNTERMINATED_STRING" ∧
        lexemes.flatten ++ quote :: rest = text.toList ∧
        Lexicon.formulas.Peels (quote :: rest) lexemes ∧ (quote = '"' ∨ quote = '\'') ∧
        Quoted.scan? quote rest = none ∧ e.position = Position.counted lexemes.flatten) ∧
    (∀ cs f, Lexicon.formulas.next cs = .error f → ∃ quote, f = .unterminatedString quote) ∧
    (∀ cs x, Lexicon.formulas.next cs = .ok x → x.kind ≠ .number ∧
      (x.kind = .integer → (integerLiteral? x.text).isSome) ∧
      (x.kind = .float → (realLiteral? x.text).isSome)) ∧
    ∀ row e, Program.ofItems row = .error e → e.fault.code ≠ "INTERNAL" := by
  refine ⟨?_, fun _ _ h => Lexicon.exists_of_next_eq_error h,
    fun _ _ h => Lexicon.isSome_literal_of_next h, fun row e h =>
    (SyntaxFault.code_of_betweenTokens (Program.placedIn_of_ofItems h).betweenTokens).1⟩
  have hl := Lexicon.formulas_wellRouted
  obtain ⟨r, hcut⟩ := hl.exists_cut text.toList {}
  have hplace : Position.counted = Position.advanceAll {} :=
    funext fun front => (Position.after_eq_counted front).symm
  rw [hplace]
  obtain ⟨lexemes, tokens, rfl, hflat, hpeels, hspells⟩ |
    ⟨lexemes, quote, rest, hflat, hpeels, hquote, hopen, rfl⟩ := hcut.lexemes hl
  · cases htext : ofText text with
    | ok q => exact .inl (by rw [setText_eq, htext])
    | error e =>
      rw [← hplace] at hspells ⊢
      obtain ⟨hbetween, i, hi, hposition⟩ := position_of_ofText_eq_error hcut hspells htext
      obtain ⟨hinternal, hnumber, hquote⟩ := SyntaxFault.code_of_betweenTokens hbetween
      exact .inr (.inl ⟨e, lexemes, i, by rw [setText_eq, htext], by simp [*], hflat, hpeels, hi,
        hposition⟩)
  · have htext : ofText text =
        .error ⟨.unterminatedString quote, Position.advanceAll {} lexemes.flatten⟩ := by
      rw [ofText, tokensOf_of_cut hcut]
      rfl
    exact .inr (.inr ⟨_, lexemes, quote, rest, by rw [setText_eq, htext], rfl, hflat, hpeels,
      hquote, hopen, rfl⟩)

end Parsed

end Formula
