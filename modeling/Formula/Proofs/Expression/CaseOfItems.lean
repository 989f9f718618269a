import Formula.Proofs.Expression.CaseOfTokens
import Formula.Proofs.Expression.Names
import Formula.Proofs.Expression.Renaming
import Formula.Proofs.Number.Case

/-!
# Items in any case

Tokens with all that may be written in any case made small are read as the same items, with the
names made small: reserved words are compared in capitals, with the words that follow them too, the
exponent mark of a number may be a capital, and a name is taken over as it is. So the program of a
formula and the names of its variables differ in case only where the text does.
-/

namespace Formula

open Text

theorem Token.position_folded (t : Token) : t.folded.position = t.position := by
  obtain ⟨kind, text, p⟩ := t
  cases kind <;> rfl

theorem Item.closesOperand_rename (f : String → String) (i : Item) :
    (i.rename f).closesOperand = i.closesOperand := by
  cases i <;> rfl

namespace TokenMeaning

/-- The meaning with another name for the item, if it has one. -/
def rename (f : String → String) : TokenMeaning → TokenMeaning
  | .item i more => .item (i.rename f) more
  | .plusSign => .plusSign
  | .layout => .layout

theorem operandDue_rename (f : String → String) (last : Option Item) :
    operandDue (last.map (Item.rename f)) = operandDue last := by
  cases last with
  | none => rfl
  | some i => cases i <;> rfl

theorem isWordAt_folded (rest : List Token) (place : Nat) (word : String) :
    isWordAt (rest.map Token.folded) place word = isWordAt rest place word := by
  simp only [isWordAt, List.getElem?_map]
  cases rest[place]? with
  | none => rfl
  | some t =>
    obtain ⟨kind, text, p⟩ := t
    cases kind <;> simp only [Option.map_some, Token.folded, AsciiCase.folded_same_iff]

theorem startsCall_folded (rest : List Token) :
    startsCall (rest.map Token.folded) = startsCall rest := by
  cases rest with
  | nil => rfl
  | cons t rest =>
    obtain ⟨kind, text, p⟩ := t
    cases kind <;> rfl

theorem ofSymbol_rename (f : String → String) (due : Bool) (text : String) :
    (ofSymbol due text).map (rename f) = ofSymbol due text := by
  unfold ofSymbol
  split <;> (try split_ifs) <;> rfl

theorem ofLiteral_rename (f : String → String) (value : Option Value) (text : String) :
    (ofLiteral value text).map (rename f) = ofLiteral value text := by
  cases value <;> rfl

/-- Only for a reserved word: the error for any other word would show its text. -/
theorem ofKeyword_folded {text : String} (h : isKeyword text = true) (rest : List Token) :
    ofKeyword (AsciiCase.folded text) (rest.map Token.folded) =
      (ofKeyword text rest).map (rename AsciiCase.folded) := by
  have hcapitals : ∀ word ∈ keywords, String.ofList (word.toList.map Char.toUpper) = word := by
    decide
  obtain ⟨word, hword, hsame⟩ := exists_same_of_isKeyword h
  have htext := AsciiCase.map_toUpper_eq hsame
  have hfolded := AsciiCase.map_toUpper_eq (AsciiCase.same_folded text)
  simp only [ofKeyword, hfolded, ← htext, hcapitals word hword, isWordAt_folded,
    startsCall_folded, List.isEmpty_map]
  simp only [keywords, List.mem_cons, List.not_mem_nil, or_false] at hword
  obtain rfl | rfl | rfl | rfl | rfl | rfl | rfl | rfl | rfl | rfl := hword
  all_goals try split_ifs
  all_goals rfl

theorem ofToken_folded {t : Token} (ht : t.Proper) (due : Bool) (rest : List Token) :
    ofToken due t.folded (rest.map Token.folded) =
      (ofToken due t rest).map (rename AsciiCase.folded) := by
  obtain ⟨kind, text, p⟩ := t
  cases kind with
  | symbol => exact (ofSymbol_rename _ due text).symm
  | keyword => exact ofKeyword_folded ht rest
  | integer => exact (ofLiteral_rename _ _ text).symm
  | number => exact (ofLiteral_rename _ _ text).symm
  | float =>
    have hvalue : realLiteral? (AsciiCase.folded text).toList = realLiteral? text.toList := by
      rw [AsciiCase.folded, String.toList_ofList, AsciiCase.key, realLiteral?_map_toLower]
    obtain ⟨v, hv⟩ := Option.isSome_iff_exists.mp ht
    simp only [ofToken, Token.folded, hvalue, hv]
    rfl
  | word =>
    simp only [ofToken, Token.folded, startsCall_folded]
    split_ifs <;> rfl
  | _ => rfl

end TokenMeaning

namespace Item

/-- Reading goes on behind the tokens that belong to an item, so this follows the length. -/
theorem ofTokensAfter_folded (last : Option Item) (sign : Option Position) (tokens : List Token)
    (hproper : ∀ t ∈ tokens, t.Proper) :
    ofTokensAfter (last.map (rename AsciiCase.folded)) sign (tokens.map Token.folded) =
      (ofTokensAfter last sign tokens).map (Row.rename AsciiCase.folded) := by
  match tokens with
  | [] =>
    rw [List.map_nil]
    cases sign <;> rw [ofTokensAfter, ofTokensAfter] <;> rfl
  | t :: rest =>
    obtain ⟨ht, hrest⟩ := List.forall_mem_cons.mp hproper
    rw [List.map_cons, ofTokensAfter, ofTokensAfter, TokenMeaning.operandDue_rename,
      TokenMeaning.ofToken_folded ht, Token.position_folded]
    cases TokenMeaning.ofToken (TokenMeaning.operandDue last) t rest with
    | error fault => rfl
    | ok m =>
      cases m with
      | layout => exact ofTokensAfter_folded last sign rest hrest
      | plusSign => exact ofTokensAfter_folded last (some t.position) rest hrest
      | item i more =>
        have hmore := ofTokensAfter_folded (some i) none (rest.drop more)
          fun u hu => hrest u (List.mem_of_mem_drop hu)
        rw [Option.map_some, List.map_drop] at hmore
        simp only [Except.map, TokenMeaning.rename, closesOperand_rename, hmore]
        cases sign with
        | none => cases ofTokensAfter (some i) none (rest.drop more) <;> rfl
        | some p =>
          dsimp only
          split_ifs
          · rfl
          · cases ofTokensAfter (some i) none (rest.drop more) <;> rfl
termination_by tokens.length
decreasing_by all_goals (simp only [List.length_cons, List.length_drop]; omega)

theorem variableNames_folded (row : Row) :
    variableNames (row.rename AsciiCase.folded) = (variableNames row).map AsciiCase.folded := by
  induction row using List.reverseRecOn with
  | nil => rfl
  | append_singleton row i ih =>
    rw [Row.rename, List.map_append, ← Row.rename, List.map_singleton,
      variableNames_append_singleton, variableNames_append_singleton, ih]
    obtain ⟨value, p⟩ := i
    cases value with
    | «variable» name =>
      have hknown : (∃ known ∈ (variableNames row).map AsciiCase.folded,
          AsciiCase.Same known (AsciiCase.folded name)) ↔
          ∃ known ∈ variableNames row, AsciiCase.Same known name := by
        simp only [List.mem_map, exists_exists_and_eq_and, AsciiCase.folded_same_iff,
          AsciiCase.same_folded_iff]
      simp only [Located.map, rename, hknown]
      split_ifs
      · rfl
      · simp
    | _ => rfl

end Item

namespace Parsed

/-- The formula with all that may be written in any case made small. -/
def folded (p : Parsed) : Parsed where
  expression := AsciiCase.folded p.expression
  tokens := p.tokens.map Token.folded
  items := Row.rename AsciiCase.folded p.items
  program := Program.rename AsciiCase.folded p.program
  variableNames := p.variableNames.map AsciiCase.folded

theorem ofTokensNamed_folded (expression : String) {tokens : List Token}
    (hproper : ∀ t ∈ tokens, t.Proper) :
    ofTokensNamed (AsciiCase.folded expression) (tokens.map Token.folded) =
      (ofTokensNamed expression tokens).map folded := by
  have hitems := Item.ofTokensAfter_folded none none tokens hproper
  rw [Option.map_none, ← Item.ofTokens, ← Item.ofTokens] at hitems
  rw [ofTokensNamed, ofTokensNamed, hitems]
  cases Item.ofTokens tokens with
  | error e => rfl
  | ok row =>
    simp only [Except.map, Program.ofItems_rename]
    cases Program.ofItems row with
    | error e => rfl
    | ok program => simp only [folded, Item.variableNames_folded]

variable {a b : String} (hcase : AsciiCase.Same a b)
  (hstrings : Lexicon.AgreesInStrings a.toList b.toList)
include hcase hstrings

/-- Two texts that differ in the case of letters only, and in no string, are the same formula up to
case, or go wrong in the same way at the same place. -/
theorem ofText_folded : (ofText a).map folded = (ofText b).map folded := by
  rw [ofText, ofText]
  obtain ⟨e, ha, hb⟩ | ⟨ts, us, ha, hb, hfolded⟩ :=
    error_or_ok_of_map_eq (tokensOf_folded hcase hstrings)
  · rw [ha, hb]
  · rw [ha, hb]
    calc (ofTokensNamed a ts).map folded
        = ofTokensNamed (AsciiCase.folded a) (ts.map Token.folded) :=
          (ofTokensNamed_folded a (proper_tokensOf ha)).symm
      _ = ofTokensNamed (AsciiCase.folded b) (us.map Token.folded) := by
          rw [AsciiCase.folded_eq_iff.mpr hcase, hfolded]
      _ = (ofTokensNamed b us).map folded := ofTokensNamed_folded b (proper_tokensOf hb)

theorem setText_folded (p : Parsed) :
    (p.setText a).1.folded = (p.setText b).1.folded ∧ (p.setText a).2 = (p.setText b).2 := by
  rw [setText_eq, setText_eq]
  obtain ⟨e, ha, hb⟩ | ⟨p, q, ha, hb, hfolded⟩ :=
    error_or_ok_of_map_eq (ofText_folded hcase hstrings)
  · rw [ha, hb]
    have hname : AsciiCase.folded a = AsciiCase.folded b := AsciiCase.folded_eq_iff.mpr hcase
    exact ⟨by simp only [folded, hname], rfl⟩
  · rw [ha, hb]
    exact ⟨hfolded, rfl⟩

end Parsed

end Formula
