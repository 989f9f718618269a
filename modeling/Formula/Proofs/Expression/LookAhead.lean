import Formula.Expression.Reading

/-!
# Looking ahead while tokens are read

The meaning of a token depends on the tokens after it in two ways only: reserved words may
belong to it, and an opening parenthesis makes a word a function. So the meaning stays as
long as what follows looks the same in these respects.
-/

namespace Formula.TokenMeaning

variable {due : Bool} {t : Token} {rest rest' : List Token} {text : String} {m : TokenMeaning}
  {i : Item} {more : Nat}

/-- The reserved words at the two places that are looked at are the same. -/
structure SameWords (rest rest' : List Token) : Prop where
  first (word : String) : isWordAt rest' 0 word = isWordAt rest 0 word
  second (word : String) : isWordAt rest 0 "NOT" = true →
    isWordAt rest' 1 word = isWordAt rest 1 word

theorem SameWords.notWord (h : SameWords rest rest') (word : String) :
    (isWordAt rest' 0 "NOT" && isWordAt rest' 1 word) =
      (isWordAt rest 0 "NOT" && isWordAt rest 1 word) := by
  rw [h.first]
  cases hn : isWordAt rest 0 "NOT" with
  | false => rfl
  | true => rw [h.second word hn]

/-- A call starts after the token in both cases, or in the second one alone; then the token
must not end an operand. -/
def SameCall (rest rest' : List Token) (m : TokenMeaning) : Prop :=
  startsCall rest' = startsCall rest ∨
    startsCall rest = false ∧ ∀ i more, m = .item i more → operandDue (some i) = true

theorem ofKeyword_congr (hw : SameWords rest rest') (h : ofKeyword text rest = .ok m)
    (hc : SameCall rest rest' m) : ofKeyword text rest' = .ok m := by
  rw [ofKeyword.eq_def] at h ⊢
  dsimp only at h ⊢
  rw [hw.first, hw.first, hw.first, hw.notWord]
  split at h
  · exact h
  · exact h
  · exact h
  · exact h
  · exact h
  · exact h
  · split at h
    · next hnull =>
      rw [if_pos hnull]
      exact h
    · next hnull =>
      split at h
      · next hnot =>
        rw [if_neg hnull, if_pos hnot]
        exact h
      · cases h
  · obtain hcall | ⟨hcall, hdue⟩ := hc
    · rw [hcall]
      exact h
    · rw [hcall] at h
      cases h
      cases hdue _ _ rfl
  · exact h
  · exact h
  · cases h

/-- The meaning of a token stays before tokens that look the same. -/
theorem ofToken_congr (hw : SameWords rest rest') (h : ofToken due t rest = .ok m)
    (hc : SameCall rest rest' m) : ofToken due t rest' = .ok m := by
  rw [ofToken.eq_def] at h ⊢
  split at h
  · exact h
  · exact ofKeyword_congr hw h hc
  · exact h
  · exact h
  · exact h
  · exact h
  · obtain hcall | ⟨hcall, hdue⟩ := hc
    · rw [hcall]
      exact h
    · rw [hcall] at h
      cases h
      cases hdue _ _ rfl
  · exact h
  · exact h
  · exact h
  · exact h
  · exact h

/-- The rest begins with the reserved words that belong to an item. -/
def TakesWords (rest : List Token) (more : Nat) : Prop :=
  ∃ words tail, rest = words ++ tail ∧ words.length = more ∧ ∀ w ∈ words, w.kind = .keyword

theorem takesWords_zero (rest : List Token) : TakesWords rest 0 := by
  refine ⟨[], rest, rfl, rfl, ?_⟩
  intro w hw
  cases hw

theorem TakesWords.cons {w : Token} (hw : w.kind = .keyword) (h : TakesWords rest more) :
    TakesWords (w :: rest) (more + 1) := by
  obtain ⟨words, tail, rfl, rfl, hwords⟩ := h
  refine ⟨w :: words, tail, rfl, rfl, ?_⟩
  intro v hv
  rcases List.mem_cons.mp hv with rfl | hv
  · exact hw
  · exact hwords v hv

theorem TakesWords.drop_append (h : TakesWords rest more) (after : List Token) :
    (rest ++ after).drop more = rest.drop more ++ after := by
  obtain ⟨words, tail, rfl, rfl, -⟩ := h
  rw [List.append_assoc, List.drop_left, List.drop_left]

theorem exists_of_isWordAt {word : String} (h : isWordAt rest 0 word = true) :
    ∃ w tail, rest = w :: tail ∧ w.kind = .keyword := by
  cases rest with
  | nil => cases h
  | cons w tail =>
    refine ⟨w, tail, rfl, ?_⟩
    simp only [isWordAt, List.getElem?_cons_zero, Bool.and_eq_true, decide_eq_true_eq] at h
    exact h.1

theorem takesWords_one {word : String} (h : isWordAt rest 0 word = true) : TakesWords rest 1 := by
  obtain ⟨w, tail, rfl, hw⟩ := exists_of_isWordAt h
  exact (takesWords_zero tail).cons hw

theorem takesWords_two {word word' : String}
    (h : (isWordAt rest 0 word && isWordAt rest 1 word') = true) : TakesWords rest 2 := by
  rw [Bool.and_eq_true] at h
  obtain ⟨w, tail, rfl, hw⟩ := exists_of_isWordAt h.1
  exact (takesWords_one h.2).cons hw

/-- What an item is that does not come from a word: no variable, and a function only before a
parenthesis. -/
structure NoWord (rest : List Token) (i : Item) (more : Nat) : Prop where
  words : TakesWords rest more
  kind_ne : i.kind ≠ .variable
  call : i.kind = .function → startsCall rest = true ∧ more = 0

theorem NoWord.of_kind (h : TakesWords rest more) (hv : i.kind ≠ .variable)
    (hf : i.kind ≠ .function) : NoWord rest i more :=
  ⟨h, hv, fun hi => absurd hi hf⟩

theorem noWord_of_ofSymbol (h : ofSymbol due text = .ok (.item i more)) :
    NoWord rest i more := by
  rw [ofSymbol.eq_def] at h
  dsimp only at h
  split at h <;> (try split at h) <;> cases h
  all_goals exact .of_kind (takesWords_zero rest) (by decide) (by decide)

theorem noWord_of_ofLiteral {value : Option Value} (h : ofLiteral value text = .ok (.item i more)) :
    NoWord rest i more := by
  rw [ofLiteral.eq_def] at h
  split at h
  · cases h
    exact .of_kind (takesWords_zero rest) ItemKind.noConfusion ItemKind.noConfusion
  · cases h

theorem noWord_of_ofKeyword (h : ofKeyword text rest = .ok (.item i more)) :
    NoWord rest i more := by
  rw [ofKeyword.eq_def] at h
  dsimp only at h
  split at h <;> try (cases h; exact .of_kind (takesWords_zero rest) (by decide) (by decide))
  · split at h
    · next hin =>
      cases h
      exact .of_kind (takesWords_one hin) (by decide) (by decide)
    · split at h
      · next hlike =>
        cases h
        exact .of_kind (takesWords_one hlike) (by decide) (by decide)
      · cases h
        exact .of_kind (takesWords_zero rest) (by decide) (by decide)
  · split at h
    · next hnull =>
      cases h
      exact .of_kind (takesWords_one hnull) (by decide) (by decide)
    · split at h
      · next hnot =>
        cases h
        exact .of_kind (takesWords_two hnot) (by decide) (by decide)
      · cases h
  · split at h
    · next hcall =>
      cases h
      exact ⟨takesWords_zero rest, ItemKind.noConfusion, fun _ => ⟨hcall, rfl⟩⟩
    · cases h
      exact .of_kind (takesWords_zero rest) (by decide) (by decide)
  · cases h

theorem noWord_of_ofToken (hk : t.kind ≠ .word) (h : ofToken due t rest = .ok (.item i more)) :
    NoWord rest i more := by
  rw [ofToken.eq_def] at h
  split at h
  · exact noWord_of_ofSymbol h
  · exact noWord_of_ofKeyword h
  · exact noWord_of_ofLiteral h
  · exact noWord_of_ofLiteral h
  · exact noWord_of_ofLiteral h
  · cases h
    exact .of_kind (takesWords_zero rest) ItemKind.noConfusion ItemKind.noConfusion
  · next hword => exact absurd hword hk
  · cases h
  · cases h
  · cases h
  · cases h
  · cases h

theorem ofToken_word (hk : t.kind = .word) (due : Bool) (rest : List Token) :
    ofToken due t rest =
      .ok (.item (if startsCall rest then .function t.text else .variable t.text) 0) := by
  rw [ofToken, hk]

theorem takesWords_of_ofToken (h : ofToken due t rest = .ok (.item i more)) :
    TakesWords rest more := by
  by_cases hk : t.kind = .word
  · rw [ofToken_word hk] at h
    cases h
    exact takesWords_zero rest
  · exact (noWord_of_ofToken hk h).words

/-- A function name is one token, before an opening parenthesis. -/
theorem startsCall_of_function {name : String}
    (h : ofToken due t rest = .ok (.item (.function name) more)) :
    startsCall rest = true ∧ more = 0 := by
  by_cases hk : t.kind = .word
  · rw [ofToken_word hk] at h
    cases hcall : startsCall rest with
    | true =>
      rw [hcall] at h
      cases h
      exact ⟨rfl, rfl⟩
    | false =>
      rw [hcall] at h
      cases h
  · exact (noWord_of_ofToken hk h).call rfl

theorem ofToken_openParen (hk : t.kind = .symbol) (ht : t.text = "(") (due : Bool)
    (rest : List Token) : ofToken due t rest = .ok (.item .openParen 0) := by
  rw [ofToken, hk, ht]
  rfl

end Formula.TokenMeaning
