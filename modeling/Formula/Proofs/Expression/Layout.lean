import Formula.Proofs.Expression.TokenRows
import Formula.Proofs.Lexical.Options

/-!
# Layout between tokens

Layout is passed over while tokens are read, but a token looks for what belongs to it among the
tokens right behind it: a name for an opening parenthesis, `NOT` for `IN` and `LIKE`, and `IS`
for `NULL`, `NOT NULL` and the end. Where no layout stands between the two, the tokens of a text
mean the same with their layout and without it. Where layout stands there, the tokens of an
accepted text are another row, if they are one at all.
-/

namespace Formula

open TokenMeaning

namespace Token

def isLayout (t : Token) : Bool :=
  t.kind = .whitespace || t.kind = .comment || t.kind = .eof

def isReserved (t : Token) (word : String) : Bool :=
  t.kind = .keyword && decide (String.ofList (t.text.toList.map Char.toUpper) = word)

/-- The token belongs together with what follows it. -/
def joins (t : Token) (rest : List Token) : Bool :=
  ((t.kind = .word || t.isReserved "NULL") && startsCall rest) ||
  (t.isReserved "NOT" && (isWordAt rest 0 "IN" || isWordAt rest 0 "LIKE")) ||
  (t.isReserved "IS" && (rest.isEmpty || isWordAt rest 0 "NULL" ||
    (isWordAt rest 0 "NOT" && isWordAt rest 1 "NULL")))

/-- How many reserved words behind the token belong to it. -/
def words (t : Token) (rest : List Token) : Nat :=
  if t.isReserved "NOT" && (isWordAt rest 0 "IN" || isWordAt rest 0 "LIKE") then 1
  else if t.isReserved "IS" && isWordAt rest 0 "NULL" then 1
  else if t.isReserved "IS" && (isWordAt rest 0 "NOT" && isWordAt rest 1 "NULL") then 2
  else 0

end Token

def withoutLayout (tokens : List Token) : List Token := tokens.filter fun t => !t.isLayout

/-- The token belongs together with what follows, were it not for the layout between them. -/
def Token.Parted (t : Token) (rest : List Token) : Prop :=
  t.joins (withoutLayout rest) = true ∧ t.joins rest = false

instance (t : Token) (rest : List Token) : Decidable (t.Parted rest) :=
  inferInstanceAs (Decidable (_ ∧ _))

/-- No layout stands between tokens that belong together. -/
inductive Unparted : List Token → Prop
  | nil : Unparted []
  | cons {t : Token} {rest : List Token} (ht : ¬ t.Parted rest)
    (h : Unparted (rest.drop (t.words rest))) : Unparted (t :: rest)

theorem withoutLayout_layout {u : Token} (hu : u.isLayout = true) (rest : List Token) :
    withoutLayout (u :: rest) = withoutLayout rest := by
  simp [withoutLayout, hu]

theorem withoutLayout_cons {u : Token} (hu : u.isLayout = false) (rest : List Token) :
    withoutLayout (u :: rest) = u :: withoutLayout rest := by
  simp [withoutLayout, hu]

theorem Token.isLayout_of_keyword {u : Token} (hu : u.kind = .keyword) : u.isLayout = false := by
  simp [isLayout, hu]

namespace TokenMeaning

variable {t u : Token} {rest rest' : List Token} {due : Bool}

/-- What the token looks at is the same in both cases. -/
structure LooksSame (t : Token) (rest rest' : List Token) : Prop where
  call : t.kind = .word ∨ t.isReserved "NULL" = true → startsCall rest' = startsCall rest
  ofNot : t.isReserved "NOT" = true → isWordAt rest' 0 "IN" = isWordAt rest 0 "IN" ∧
    isWordAt rest' 0 "LIKE" = isWordAt rest 0 "LIKE"
  ofIs : t.isReserved "IS" = true → rest'.isEmpty = rest.isEmpty ∧
    isWordAt rest' 0 "NULL" = isWordAt rest 0 "NULL" ∧
    (isWordAt rest 0 "NULL" = false → (isWordAt rest' 0 "NOT" && isWordAt rest' 1 "NULL") =
      (isWordAt rest 0 "NOT" && isWordAt rest 1 "NULL"))

theorem LooksSame.ofKeyword_eq (hk : t.kind = .keyword) (h : LooksSame t rest rest') :
    ofKeyword t.text rest' = ofKeyword t.text rest := by
  have hreserved : ∀ {word}, String.ofList (t.text.toList.map Char.toUpper) = word →
      t.isReserved word = true := by
    intro word hword
    simp [Token.isReserved, hk, hword]
  rw [ofKeyword.eq_def, ofKeyword.eq_def]
  dsimp only
  split
  · rfl
  · rfl
  · rfl
  · rfl
  · rfl
  · next hword =>
    obtain ⟨hin, hlike⟩ := h.ofNot (hreserved hword)
    rw [hin, hlike]
  · next hword =>
    obtain ⟨hend, hnull, hnot⟩ := h.ofIs (hreserved hword)
    rw [hend, hnull]
    cases hb : isWordAt rest 0 "NULL" with
    | true => rfl
    | false => rw [hnot hb]
  · next hword => rw [h.call (.inr (hreserved hword))]
  · rfl
  · rfl
  · rfl

theorem LooksSame.ofToken_eq (h : LooksSame t rest rest') :
    ofToken due t rest' = ofToken due t rest := by
  rw [ofToken.eq_def, ofToken.eq_def]
  split
  · rfl
  · next hk => exact h.ofKeyword_eq hk
  · rfl
  · rfl
  · rfl
  · rfl
  · next hk => rw [h.call (.inl hk)]
  · rfl
  · rfl
  · rfl
  · rfl
  · rfl

/-- Tokens that it does not belong to look the same to a token. -/
theorem looksSame_of_not_joins (h : t.joins rest = false) (h' : t.joins rest' = false) :
    LooksSame t rest rest' := by
  simp only [Token.joins, Bool.or_eq_false_iff, Bool.and_eq_false_imp, Bool.or_eq_true,
    decide_eq_true_eq] at h h'
  refine ⟨fun hname => ?_, fun hnot => ?_, fun his => ?_⟩
  · rw [h.1.1 hname, h'.1.1 hname]
  · obtain ⟨hin, hlike⟩ := h.1.2 hnot
    obtain ⟨hin', hlike'⟩ := h'.1.2 hnot
    exact ⟨hin'.trans hin.symm, hlike'.trans hlike.symm⟩
  · obtain ⟨⟨hend, hnull⟩, hnot⟩ := h.2 his
    obtain ⟨⟨hend', hnull'⟩, hnot'⟩ := h'.2 his
    refine ⟨hend'.trans hend.symm, hnull'.trans hnull.symm, fun _ => ?_⟩
    rw [Bool.and_eq_false_imp.mpr hnot, Bool.and_eq_false_imp.mpr hnot']

theorem ofToken_layout (ht : t.isLayout = true) : ofToken due t rest = .ok .layout := by
  simp only [Token.isLayout, Bool.or_eq_true, decide_eq_true_eq] at ht
  rcases ht with (hk | hk) | hk <;> rw [ofToken, hk]

theorem layout_not_joins (ht : t.isLayout = true) (rest : List Token) : t.joins rest = false := by
  simp only [Token.isLayout, Bool.or_eq_true, decide_eq_true_eq] at ht
  rcases ht with (hk | hk) | hk <;> simp [Token.joins, Token.isReserved, hk]

theorem isWordAt_layout (hu : u.isLayout = true) (rest : List Token) (word : String) :
    isWordAt (u :: rest) 0 word = false := by
  rw [← Bool.not_eq_true]
  intro h
  obtain ⟨w, tail, htail, hw⟩ := exists_of_isWordAt h
  cases htail
  rw [Token.isLayout_of_keyword hw] at hu
  cases hu

theorem startsCall_layout (hu : u.isLayout = true) (rest : List Token) :
    startsCall (u :: rest) = false := by
  rw [← Bool.not_eq_true]
  intro h
  simp only [startsCall, Bool.and_eq_true, decide_eq_true_eq] at h
  simp [Token.isLayout, h.1] at hu

theorem joins_layout (hu : u.isLayout = true) (t : Token) (rest : List Token) :
    t.joins (u :: rest) = false := by
  simp [Token.joins, startsCall_layout hu, isWordAt_layout hu]

theorem isWordAt_withoutLayout {word : String} (h : isWordAt rest 0 word = true) :
    isWordAt (withoutLayout rest) 0 word = true := by
  obtain ⟨w, tail, rfl, hw⟩ := exists_of_isWordAt h
  rw [withoutLayout_cons (Token.isLayout_of_keyword hw)]
  exact h

/-- What belongs to a token looks the same to it without the layout behind. -/
theorem looksSame_of_joins (h : t.joins rest = true) : LooksSame t rest (withoutLayout rest) := by
  cases rest with
  | nil => exact ⟨fun _ => rfl, fun _ => ⟨rfl, rfl⟩, fun _ => ⟨rfl, rfl, fun _ => rfl⟩⟩
  | cons u us =>
    cases hu : u.isLayout with
    | true =>
      rw [joins_layout hu] at h
      cases h
    | false =>
      rw [withoutLayout_cons hu]
      refine ⟨fun _ => rfl, fun _ => ⟨rfl, rfl⟩, fun his => ⟨rfl, rfl, fun hnull => ?_⟩⟩
      have hnot : (isWordAt (u :: us) 0 "NOT" && isWordAt (u :: us) 1 "NULL") = true := by
        simp only [Token.isReserved, Bool.and_eq_true, decide_eq_true_eq] at his
        simpa [Token.joins, Token.isReserved, his.1, his.2, hnull] using h
      rw [hnot]
      rw [Bool.and_eq_true] at hnot ⊢
      exact ⟨hnot.1, isWordAt_withoutLayout hnot.2⟩

theorem ofToken_withoutLayout (h : ¬ t.Parted rest) :
    ofToken due t (withoutLayout rest) = ofToken due t rest := by
  cases hrest : t.joins rest with
  | true => exact (looksSame_of_joins hrest).ofToken_eq
  | false =>
    have hjoined : t.joins (withoutLayout rest) = false := by
      rw [← Bool.not_eq_true]
      exact fun hj => h ⟨hj, hrest⟩
    exact (looksSame_of_not_joins hrest hjoined).ofToken_eq

theorem TakesWords.withoutLayout_drop {more : Nat} (h : TakesWords rest more) :
    (withoutLayout rest).drop more = withoutLayout (rest.drop more) := by
  obtain ⟨words, tail, rfl, rfl, hwords⟩ := h
  have hkept : withoutLayout words = words := by
    rw [withoutLayout, List.filter_eq_self]
    intro w hw
    rw [Token.isLayout_of_keyword (hwords w hw)]
    rfl
  have happend : withoutLayout (words ++ tail) = words ++ withoutLayout tail := by
    rw [withoutLayout, List.filter_append]
    exact congrArg (· ++ withoutLayout tail) hkept
  rw [happend, List.drop_left, List.drop_left]

end TokenMeaning

namespace TokenMeaning

variable {t : Token} {rest : List Token} {due : Bool} {m : TokenMeaning} {text : String}

/-- How many tokens behind belong to the token with this meaning. -/
def more : TokenMeaning → Nat
  | .item _ n => n
  | _ => 0

@[simp] theorem more_item (i : Item) (n : Nat) : (item i n).more = n := rfl

theorem more_of_ofSymbol (h : ofSymbol due text = .ok m) : m.more = 0 := by
  unfold ofSymbol at h
  dsimp only at h
  split at h <;> (try split at h) <;> cases h <;> rfl

theorem more_of_ofLiteral {value : Option Value} (h : ofLiteral value text = .ok m) :
    m.more = 0 := by
  unfold ofLiteral at h
  split at h <;> cases h
  rfl

theorem words_of_ofKeyword (hk : t.kind = .keyword) (h : ofKeyword t.text rest = .ok m) :
    t.words rest = m.more := by
  unfold ofKeyword at h
  dsimp only at h
  unfold Token.words
  split at h
  case h_6 hword =>
    split at h
    · next hin =>
      cases h
      simp [Token.isReserved, hk, hword, hin]
    · next hin =>
      split at h
      · next hlike =>
        cases h
        simp [Token.isReserved, hk, hword, hlike]
      · next hlike =>
        cases h
        simp [Token.isReserved, hk, hword, hin, hlike]
  case h_7 hword =>
    split at h
    · next hnull =>
      cases h
      simp [Token.isReserved, hk, hword, hnull]
    · next hnull =>
      split at h
      · next hnot =>
        cases h
        rw [Bool.and_eq_true] at hnot
        simp [Token.isReserved, hk, hword, hnull, hnot]
      · cases h
  case h_8 hword =>
    split at h <;> cases h <;> simp [Token.isReserved, hk, hword]
  case h_11 => cases h
  all_goals
    next hword =>
      cases h
      simp [Token.isReserved, hk, hword]

theorem words_of_ofToken (h : ofToken due t rest = .ok m) : t.words rest = m.more := by
  by_cases hk : t.kind = .keyword
  · rw [ofToken, hk] at h
    exact words_of_ofKeyword hk h
  · have hwords : t.words rest = 0 := by simp [Token.words, Token.isReserved, hk]
    rw [hwords, eq_comm]
    unfold ofToken at h
    split at h
    · exact more_of_ofSymbol h
    · next hkeyword => exact absurd hkeyword hk
    · exact more_of_ofLiteral h
    · exact more_of_ofLiteral h
    · exact more_of_ofLiteral h
    all_goals
      cases h
      try rfl

end TokenMeaning

theorem Unparted.of_ofToken {t : Token} {rest : List Token} {due : Bool} {m : TokenMeaning}
    (ht : ¬ t.Parted rest) (hm : ofToken due t rest = .ok m) (h : Unparted (rest.drop m.more)) :
    Unparted (t :: rest) := by
  refine .cons ht ?_
  rw [words_of_ofToken hm]
  exact h

/-- Where no layout parts tokens that belong together, it might as well not be there. -/
theorem Unparted.ofTokensAfter_withoutLayout {tokens : List Token} (h : Unparted tokens)
    (last : Option Item) (sign : Option Text.Position) :
    Item.ofTokensAfter last sign (withoutLayout tokens) = Item.ofTokensAfter last sign tokens := by
  induction h generalizing last sign with
  | nil => rfl
  | @cons t rest ht h ih =>
    cases hlayout : t.isLayout with
    | true =>
      have hmeans : ofToken (operandDue last) t rest = .ok .layout := ofToken_layout hlayout
      rw [words_of_ofToken hmeans] at ih
      rw [withoutLayout_layout hlayout, Item.ofTokensAfter.eq_def _ _ (t :: rest)]
      dsimp only
      rw [hmeans]
      exact ih last sign
    | false =>
      rw [withoutLayout_cons hlayout, Item.ofTokensAfter.eq_def,
        Item.ofTokensAfter.eq_def _ _ (t :: rest)]
      dsimp only
      rw [ofToken_withoutLayout ht]
      cases hmeans : ofToken (operandDue last) t rest with
      | error fault => rfl
      | ok m =>
        rw [words_of_ofToken hmeans] at ih
        cases m with
        | layout => exact ih last sign
        | plusSign => exact ih last (some t.position)
        | item i more =>
          dsimp only
          rw [more_item] at ih
          rw [(takesWords_of_ofToken hmeans).withoutLayout_drop, ih (some i) none]

namespace TokenMeaning

variable {t : Token} {rest : List Token} {due : Bool} {m m' : TokenMeaning}

theorem ofToken_null (h : t.isReserved "NULL" = true) (due : Bool) (rest : List Token) :
    ofToken due t rest =
      .ok (.item (if startsCall rest then .function t.text else .constant .null) 0) := by
  simp only [Token.isReserved, Bool.and_eq_true, decide_eq_true_eq] at h
  rw [ofToken, h.1]
  dsimp only
  rw [ofKeyword, h.2]
  cases startsCall rest <;> rfl

theorem ofToken_not (h : t.isReserved "NOT" = true) (due : Bool) (rest : List Token) :
    ofToken due t rest =
      if isWordAt rest 0 "IN" then .ok (.item (.infixOp .notIn) 1)
      else if isWordAt rest 0 "LIKE" then .ok (.item (.infixOp .notLike) 1)
      else .ok (.item (.prefixOp .not) 0) := by
  simp only [Token.isReserved, Bool.and_eq_true, decide_eq_true_eq] at h
  rw [ofToken, h.1]
  dsimp only
  rw [ofKeyword, h.2]
  rfl

theorem ofToken_is (h : t.isReserved "IS" = true) (due : Bool) (rest : List Token) :
    ofToken due t rest =
      if isWordAt rest 0 "NULL" then .ok (.item (.suffixOp .isNull) 1)
      else if isWordAt rest 0 "NOT" && isWordAt rest 1 "NULL" then
        .ok (.item (.suffixOp .isNotNull) 2)
      else .error (.danglingIs rest.isEmpty) := by
  simp only [Token.isReserved, Bool.and_eq_true, decide_eq_true_eq] at h
  rw [ofToken, h.1]
  dsimp only
  rw [ofKeyword, h.2]
  rfl

/-- A token that layout parts from what belongs to it is read as another item. -/
theorem exists_items_of_parted (h : t.Parted rest) (hm : ofToken due t rest = .ok m)
    (hm' : ofToken due t (withoutLayout rest) = .ok m') :
    ∃ i n i' n', m = .item i n ∧ m' = .item i' n' ∧ i ≠ i' := by
  obtain ⟨hjoins, hparted⟩ := h
  simp only [Token.joins, Bool.or_eq_true, Bool.and_eq_true, Bool.or_eq_false_iff,
    Bool.and_eq_false_imp, decide_eq_true_eq] at hjoins hparted
  obtain ⟨⟨hname, hnot⟩, his⟩ := hparted
  obtain (⟨hword | hnull, hcall⟩ | ⟨hword, hnext⟩) | ⟨hword, -⟩ := hjoins
  · rw [ofToken_word hword, hname (.inl hword)] at hm
    rw [ofToken_word hword, hcall] at hm'
    cases hm
    cases hm'
    exact ⟨_, _, _, _, rfl, rfl, nofun⟩
  · rw [ofToken_null hnull, hname (.inr hnull)] at hm
    rw [ofToken_null hnull, hcall] at hm'
    cases hm
    cases hm'
    exact ⟨_, _, _, _, rfl, rfl, nofun⟩
  · obtain ⟨hin, hlike⟩ := hnot hword
    rw [ofToken_not hword, hin, hlike] at hm
    rw [ofToken_not hword] at hm'
    cases hm
    split at hm'
    · cases hm'
      exact ⟨_, _, _, _, rfl, rfl, nofun⟩
    · next hnotIn =>
      rw [if_pos (hnext.resolve_left hnotIn)] at hm'
      cases hm'
      exact ⟨_, _, _, _, rfl, rfl, nofun⟩
  · obtain ⟨⟨-, hnull⟩, hnotNull⟩ := his hword
    rw [ofToken_is hword, hnull, Bool.and_eq_false_imp.mpr hnotNull] at hm
    cases hm

end TokenMeaning

namespace Reads

variable {last : Option Item} {sign : Option Text.Position} {t : Token} {rest : List Token}
  {row : Row} {m : TokenMeaning}

/-- How a row is read on behind a token with this meaning. -/
def Goes (last : Option Item) (sign : Option Text.Position) (t : Token) (rest : List Token)
    (row : Row) : TokenMeaning → Prop
  | .layout => Reads last sign rest row
  | .plusSign => Reads last (some t.position) rest row
  | .item i more => ∃ after, row = ⟨i, t.position⟩ :: after ∧
    Reads (some i) none (rest.drop more) after

theorem exists_goes (h : Reads last sign (t :: rest) row) :
    ∃ m, ofToken (operandDue last) t rest = .ok m ∧ Goes last sign t rest row m := by
  cases h with
  | layout ht h => exact ⟨_, ht, h⟩
  | plusSign ht h => exact ⟨_, ht, h⟩
  | item ht hs h => exact ⟨_, ht, _, rfl, h⟩

theorem not_parted (h : Reads last sign (t :: rest) row)
    (h' : Reads last sign (withoutLayout (t :: rest)) row) : ¬ t.Parted rest := by
  intro hparted
  cases hlayout : t.isLayout with
  | true =>
    obtain ⟨hjoins, -⟩ := hparted
    rw [layout_not_joins hlayout] at hjoins
    cases hjoins
  | false =>
    rw [withoutLayout_cons hlayout] at h'
    obtain ⟨m, hm, hgoes⟩ := h.exists_goes
    obtain ⟨m', hm', hgoes'⟩ := h'.exists_goes
    obtain ⟨i, n, i', n', rfl, rfl, hne⟩ := exists_items_of_parted hparted hm hm'
    obtain ⟨after, rfl, -⟩ := hgoes
    obtain ⟨after', hrow, -⟩ := hgoes'
    cases hrow
    exact hne rfl

theorem goes_withoutLayout (ht : ¬ t.Parted rest)
    (hm : ofToken (operandDue last) t rest = .ok m)
    (h : Reads last sign (withoutLayout (t :: rest)) row) :
    Goes last sign t (withoutLayout rest) row m := by
  cases hlayout : t.isLayout with
  | true =>
    rw [ofToken_layout hlayout] at hm
    cases hm
    rw [withoutLayout_layout hlayout] at h
    exact h
  | false =>
    rw [withoutLayout_cons hlayout] at h
    obtain ⟨m', hm', hgoes⟩ := h.exists_goes
    rw [ofToken_withoutLayout ht, hm] at hm'
    cases hm'
    exact hgoes

/-- Where layout parts tokens that belong together, the row read without it is another. -/
theorem unparted {tokens : List Token} (h : Reads last sign tokens row)
    (h' : Reads last sign (withoutLayout tokens) row) : Unparted tokens := by
  induction h with
  | done last => exact .nil
  | layout ht h ih =>
    have hnot := (Reads.layout ht h).not_parted h'
    exact .of_ofToken hnot ht (ih (goes_withoutLayout hnot ht h'))
  | plusSign ht h ih =>
    have hnot := (Reads.plusSign ht h).not_parted h'
    exact .of_ofToken hnot ht (ih (goes_withoutLayout hnot ht h'))
  | item ht hs h ih =>
    have hnot := (Reads.item ht hs h).not_parted h'
    obtain ⟨after, hrow, hafter⟩ := goes_withoutLayout hnot ht h'
    cases hrow
    rw [(takesWords_of_ofToken ht).withoutLayout_drop] at hafter
    exact .of_ofToken hnot ht (ih hafter)

end Reads

namespace Parsed

/-- Layout kept, strings decoded. -/
def allTokensOf (text : String) : Except SyntaxError (List Token) :=
  (Tokenizer.tokenize { lexicon := .formulas, options := { decodeStrings := true } } text).1

theorem tokensOf_eq (text : String) :
    tokensOf text = (allTokensOf text).map withoutLayout := by
  have hl := Lexicon.formulas_wellRouted
  obtain ⟨r, hr⟩ := hl.exists_cut text.toList {}
  have hlayout : ∀ t : Token, (TokenOptions.finish { decodeStrings := true } t).isLayout =
      options.skips t.kind := by
    rintro ⟨kind, text, p⟩
    cases kind with
    | quoted =>
      cases h : text.toList <;> simp [TokenOptions.finish, Token.isLayout, TokenOptions.skips, h]
    | _ => rfl
  rw [tokensOf, allTokensOf, Tokenizer.tokenize, Tokenizer.tokenize,
    Tokenizer.setInput_eq_reading, Tokenizer.setInput_eq_reading]
  dsimp only [Text.Cursor.ofString]
  rw [hr.tokens_reading hl, hr.tokens_reading hl]
  cases r with
  | error e => rfl
  | ok tokens =>
    have hkept : (tokens.filter fun t => !options.skips t.kind).map options.finish =
        withoutLayout (tokens.map (TokenOptions.finish { decodeStrings := true })) := by
      rw [withoutLayout, List.filter_map]
      simp only [Function.comp_def, hlayout]
      rfl
    have hall : (tokens.filter fun t => !TokenOptions.skips { decodeStrings := true } t.kind) =
        tokens := by
      rw [List.filter_eq_self]
      rintro ⟨kind, text, p⟩ -
      cases kind <;> rfl
    simp only [Except.map, TokenOptions.processAfter, hall]
    exact congrArg Except.ok hkept

def contents (p : Parsed) : List (Located Item) × Program × List String :=
  (p.items, p.program, p.variableNames)

theorem map_contents_ofTokensNamed (expression : String) (tokens : List Token) :
    (ofTokensNamed expression tokens).map contents =
      match Item.ofTokens tokens with
      | .error e => .error e
      | .ok items => (Program.ofItems items).map fun program =>
        (items, program, Item.variableNames items) := by
  unfold ofTokensNamed
  cases Item.ofTokens tokens with
  | error e => rfl
  | ok items =>
    dsimp only
    cases Program.ofItems items <;> rfl

/-- The tokens of a text with all of its layout are read as the text is, as long as no layout
parts tokens that belong together, and of an accepted text only then. -/
theorem ofTokens_allTokens {text : String} {tokens : List Token}
    (htokens : allTokensOf text = .ok tokens) :
    (Unparted tokens → (ofTokens tokens).map contents = (ofText text).map contents) ∧
    ∀ p, ofText text = .ok p → (ofTokens tokens).map contents = .ok p.contents →
      Unparted tokens := by
  have htext : ofText text = ofTokensNamed text (withoutLayout tokens) := by
    rw [ofText, tokensOf_eq, htokens]
    rfl
  constructor
  · intro h
    rw [htext, ofTokens, map_contents_ofTokensNamed, map_contents_ofTokensNamed, Item.ofTokens,
      Item.ofTokens, h.ofTokensAfter_withoutLayout]
  · intro p hp hall
    rw [htext] at hp
    cases hq : ofTokens tokens with
    | error e =>
      rw [hq] at hall
      cases hall
    | ok q =>
      rw [hq] at hall
      have hitems : q.items = p.items := congrArg Prod.fst (Except.ok.inj hall)
      have hreads := (of_ofTokensNamed hq).1
      rw [hitems] at hreads
      exact hreads.unparted (of_ofTokensNamed hp).1

theorem allTokensOf_eq_ok (text : String) (tokens : List Token)
    (h : (allTokensOf text).toOption = some tokens) : allTokensOf text = .ok tokens := by
  cases hall : allTokensOf text with
  | error e =>
    rw [hall] at h
    cases h
  | ok all =>
    rw [hall] at h
    rw [Option.some.inj h]

/-- Spaces, but none behind the name of the call. -/
theorem ofTokens_allTokens_call :
    ∃ tokens, allTokensOf " f( a )" = .ok tokens ∧ (ofText " f( a )").toOption.isSome = true ∧
      Unparted tokens ∧ (ofTokens tokens).map contents = (ofText " f( a )").map contents := by
  have htokens := allTokensOf_eq_ok " f( a )"
    [⟨.whitespace, " ", ⟨1, 1⟩⟩, ⟨.word, "f", ⟨1, 2⟩⟩, ⟨.symbol, "(", ⟨1, 3⟩⟩,
      ⟨.whitespace, " ", ⟨1, 4⟩⟩, ⟨.word, "a", ⟨1, 5⟩⟩, ⟨.whitespace, " ", ⟨1, 6⟩⟩,
      ⟨.symbol, ")", ⟨1, 7⟩⟩, ⟨.eof, "", ⟨1, 8⟩⟩] (by
        rw [allTokensOf, Lexicon.formulas_eq_ofRanges]
        decide +kernel)
  refine ⟨_, htokens, ?accepted, ?unparted, (ofTokens_allTokens htokens).1 ?unparted⟩
  case accepted =>
    rw [ofText, tokensOf_eq, htokens]
    decide +kernel
  case unparted =>
    exact .cons (by decide) <| .cons (by decide) <| .cons (by decide) <| .cons (by decide) <|
      .cons (by decide) <| .cons (by decide) <| .cons (by decide) <| .cons (by decide) .nil

/-- The space between `NOT` and `IN` makes two operators of one. -/
theorem ofTokens_allTokens_parted_words :
    ∃ tokens, allTokensOf "a NOT IN b" = .ok tokens ∧
      (ofText "a NOT IN b").toOption.isSome = true ∧ (ofTokens tokens).toOption.isSome = false := by
  have htokens := allTokensOf_eq_ok "a NOT IN b"
    [⟨.word, "a", ⟨1, 1⟩⟩, ⟨.whitespace, " ", ⟨1, 2⟩⟩, ⟨.keyword, "NOT", ⟨1, 3⟩⟩,
      ⟨.whitespace, " ", ⟨1, 6⟩⟩, ⟨.keyword, "IN", ⟨1, 7⟩⟩, ⟨.whitespace, " ", ⟨1, 9⟩⟩,
      ⟨.word, "b", ⟨1, 10⟩⟩, ⟨.eof, "", ⟨1, 11⟩⟩] (by
        rw [allTokensOf, Lexicon.formulas_eq_ofRanges]
        decide +kernel)
  refine ⟨_, htokens, ?_, ?_⟩
  · rw [ofText, tokensOf_eq, htokens]
    decide +kernel
  · decide +kernel

end Parsed

end Formula
