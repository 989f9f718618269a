import Formula.Proofs.Expression.ReadingBack
import Formula.Proofs.Expression.Renaming
import Mathlib.Data.List.Forall2

/-!
# Formulas at other positions

What a formula means does not depend on where its tokens stand: tokens that are the same at other
positions are read as the same items, arranged in the same program, with the same names of
variables.
-/

namespace Formula

/-- The formulas have the same tokens, items, steps and names, wherever these stand; their texts may
be different. -/
structure Parsed.Same (p q : Parsed) : Prop where
  tokens : List.Forall₂ Token.Same p.tokens q.tokens
  items : p.items.map Located.value = q.items.map Located.value
  program : p.program.map Located.value = q.program.map Located.value
  variableNames : p.variableNames = q.variableNames

namespace TokenMeaning

variable {due : Bool} {t u : Token} {rest rest' : List Token} {m : TokenMeaning}

theorem isWordAt_of_same (h : List.Forall₂ Token.Same rest' rest) (place : Nat) (word : String) :
    isWordAt rest' place word = isWordAt rest place word := by
  induction h generalizing place with
  | nil => rfl
  | cons ht h ih =>
    cases place with
    | zero => simp only [isWordAt, List.getElem?_cons_zero, ht.1, ht.2]
    | succ place => exact ih place

theorem startsCall_of_same (h : List.Forall₂ Token.Same rest' rest) :
    startsCall rest' = startsCall rest := by
  cases h with
  | nil => rfl
  | cons ht h => simp only [startsCall, ht.1, ht.2]

/-- A token means the same wherever it and the tokens behind it stand. -/
theorem ofToken_of_same (ht : u.Same t) (h : List.Forall₂ Token.Same rest' rest)
    (hm : ofToken due t rest = .ok m) : ofToken due u rest' = .ok m := by
  have hwords : SameWords rest rest' :=
    ⟨isWordAt_of_same h 0, fun word _ => isWordAt_of_same h 1 word⟩
  have hplace : ofToken due u rest' = ofToken due t rest' := by
    simp only [ofToken, ht.1, ht.2]
  rw [hplace]
  exact ofToken_congr hwords hm (.inl (startsCall_of_same h))

end TokenMeaning

theorem Reads.exists_of_same {last : Option Item} {sign : Option Text.Position}
    {tokens others : List Token} {row : Row} (h : Reads last sign tokens row)
    (hsame : List.Forall₂ Token.Same others tokens) (sign' : Option Text.Position)
    (hsign : sign' = none ↔ sign = none) :
    ∃ row', Reads last sign' others row' ∧ row'.map Located.value = row.map Located.value := by
  induction h generalizing others sign' with
  | done last =>
    cases hsame
    obtain rfl := hsign.mpr rfl
    exact ⟨[], .done last, rfl⟩
  | layout ht h ih =>
    cases hsame with
    | cons htoken hrest =>
      obtain ⟨row', hreads, hvalues⟩ := ih hrest sign' hsign
      exact ⟨row', .layout (TokenMeaning.ofToken_of_same htoken hrest ht) hreads, hvalues⟩
  | plusSign ht h ih =>
    cases hsame with
    | @cons u _ _ _ htoken hrest =>
      obtain ⟨row', hreads, hvalues⟩ := ih hrest (some u.position) (by simp)
      exact ⟨row', .plusSign (TokenMeaning.ofToken_of_same htoken hrest ht) hreads, hvalues⟩
  | @item last sign t rest row i more ht hs h ih =>
    cases hsame with
    | @cons u _ _ _ htoken hrest =>
      obtain ⟨row', hreads, hvalues⟩ := ih (List.forall₂_drop more hrest) none Iff.rfl
      refine ⟨⟨i, u.position⟩ :: row', .item (TokenMeaning.ofToken_of_same htoken hrest ht) ?_ hreads,
        congrArg (i :: ·) hvalues⟩
      exact fun hwaits => hs (hwaits ∘ hsign.mpr)

theorem Row.names_of_values_eq {row row' : Row}
    (h : row'.map Located.value = row.map Located.value) : row'.names = row.names := by
  induction row generalizing row' with
  | nil =>
    rw [List.map_eq_nil_iff.mp h]
  | cons i row ih =>
    obtain ⟨j, others, rfl, hvalue, hothers⟩ := List.map_eq_cons_iff.mp h
    have hname : names [j] = names [i] := by
      simp only [names, List.flatMap_singleton, hvalue]
    rw [names_cons, names_cons i, hname, ih hothers]

namespace Parsed

/-- The same tokens at other positions are the same formula, whatever text they are given. -/
theorem exists_same_of_ofTokensNamed {expression : String} {tokens others : List Token} {p : Parsed}
    (h : ofTokensNamed expression tokens = .ok p)
    (hsame : List.Forall₂ Token.Same others tokens) (expression' : String) :
    ∃ q, ofTokensNamed expression' others = .ok q ∧ q.Same p := by
  obtain ⟨hreads, hprogram⟩ := of_ofTokensNamed h
  obtain ⟨row, hrow, hitems⟩ := hreads.exists_of_same hsame none Iff.rfl
  obtain ⟨program, hsteps, hvalues⟩ := Program.exists_ofItems_of_values_eq hprogram hitems
  rw [eq_of_ofTokensNamed h]
  refine ⟨_, ofTokensNamed_eq_ok hrow hsteps expression', hsame, hitems, hvalues, ?_⟩
  simp only [Item.variableNames_eq, Row.names_of_values_eq hitems]

end Parsed

end Formula
