import Formula.Proofs.Expression.Alternation
import Formula.Proofs.Expression.Substitution

/-!
# Putting a formula in the place of a variable

Every occurrence of a variable among the tokens of a formula is replaced by another formula
in parentheses. Neither formula can look across the parentheses, and the token before the
variable cannot take the new parenthesis for that of a call, since then the variable would
have followed an operand. So the new tokens are accepted, and their row and program are the
old ones with the other formula put in.
-/

namespace Formula

open Text TokenMeaning

variable {x : String} {t : Token} {rest : List Token}

def Token.enclosed (opened : Position) (e : List Token) (closed : Position) : List Token :=
  ⟨.symbol, "(", opened⟩ :: (e ++ [⟨.symbol, ")", closed⟩])

theorem isWordAt_closeParen (closed : Position) (rest more : List Token) (word : String) :
    isWordAt (rest ++ ⟨.symbol, ")", closed⟩ :: more) 0 word = isWordAt rest 0 word := by
  cases rest <;> rfl

theorem sameWords_closeParen (closed : Position) (rest more : List Token) :
    SameWords rest (rest ++ ⟨.symbol, ")", closed⟩ :: more) where
  first := isWordAt_closeParen closed rest more
  second word h := by
    cases rest with
    | nil => cases h
    | cons t rest => exact isWordAt_closeParen closed rest more word

theorem startsCall_closeParen (closed : Position) (rest more : List Token) :
    startsCall (rest ++ ⟨.symbol, ")", closed⟩ :: more) = startsCall rest := by
  cases rest <;> rfl

/-- What is read by itself is read in the same way before a closing parenthesis. -/
theorem Reads.append_closeParen {last : Option Item} {sign : Option Position}
    {tokens more : List Token} {row row' : Row} (h : Reads last sign tokens row)
    (closed : Position) (h' : Reads (some .closeParen) none more row') :
    Reads last sign (tokens ++ ⟨.symbol, ")", closed⟩ :: more)
      (row ++ ⟨.closeParen, closed⟩ :: row') := by
  induction h with
  | done last => exact .item rfl (fun hn => absurd rfl hn) h'
  | @layout last sign t rest row ht h ih =>
    have hcall := startsCall_closeParen closed rest more
    exact .layout (ofToken_congr (sameWords_closeParen closed rest more) ht (.inl hcall)) ih
  | @plusSign last sign t rest row ht h ih =>
    have hcall := startsCall_closeParen closed rest more
    exact .plusSign (ofToken_congr (sameWords_closeParen closed rest more) ht (.inl hcall)) ih
  | @item last sign t rest row i n ht hs h ih =>
    have hcall := startsCall_closeParen closed rest more
    have ht' := ofToken_congr (sameWords_closeParen closed rest more) ht (.inl hcall)
    rw [← (takesWords_of_ofToken ht).drop_append] at ih
    exact .item ht' hs ih

/-- No variable stands right after an item that ends an operand. -/
def Row.Separated (row : Row) : Prop :=
  List.IsChain (fun i j => j.value.kind = .variable → operandDue (some i.value) = true) row

namespace Arranging

variable {a b : Arranging} {steps : Program}

theorem separated_of_feed {row : Row} (h : a.feed row = .ok (steps, b)) : row.Separated := by
  induction row generalizing a steps with
  | nil => exact List.IsChain.nil
  | cons i row ih =>
    obtain ⟨first, next, more, hi, hrest, rfl⟩ := exists_of_feed_cons h
    cases row with
    | nil => exact List.IsChain.singleton i
    | cons j row =>
      obtain ⟨_, _, _, hj, -, -⟩ := exists_of_feed_cons hrest
      refine List.IsChain.cons_cons ?_ (ih hrest)
      intro hvariable
      have hopens := (due_of_step hj).1 (by rw [hvariable]; decide)
      rw [← (due_of_step hi).2, hopens, Item.opensOperand_of_variable hvariable]

end Arranging

theorem Program.separated_of_ofItems {row : Row} {program : Program}
    (h : ofItems row = .ok program) : row.Separated := by
  obtain ⟨steps, b, more, hfeed, -, -⟩ := Arranging.feed_of_run h
  exact Arranging.separated_of_feed hfeed

namespace Token

/-- The token before the tokens `rest` stands for the variable `x`. -/
def IsVariable (x : String) (t : Token) (rest : List Token) : Prop :=
  t.kind = .word ∧ startsCall rest = false ∧ AsciiCase.Same t.text x

instance (x : String) (t : Token) (rest : List Token) : Decidable (t.IsVariable x rest) :=
  inferInstanceAs (Decidable (_ ∧ _ ∧ _))

theorem IsVariable.ofToken (h : t.IsVariable x rest) (due : Bool) :
    ofToken due t rest = .ok (.item (.variable t.text) 0) := by
  rw [ofToken_word h.1, h.2.1]
  rfl

/-- The tokens with `r` in the place of the variable `x`. -/
def substitute (x : String) (r : List Token) : List Token → List Token
  | [] => []
  | t :: rest => if t.IsVariable x rest then r ++ substitute x r rest else t :: substitute x r rest

theorem substitute_append_words {words : List Token} (h : ∀ w ∈ words, w.kind = .keyword)
    (r tail : List Token) : substitute x r (words ++ tail) = words ++ substitute x r tail := by
  induction words with
  | nil => rfl
  | cons w words ih =>
    have hw : ¬ w.IsVariable x (words ++ tail) := by
      intro hv
      have hk := h w (.head _)
      rw [hv.1] at hk
      cases hk
    rw [List.cons_append, substitute, if_neg hw, ih fun v hv => h v (.tail _ hv)]
    rfl

variable (opened closed : Position) (e : List Token)

theorem isWordAt_substitute (rest : List Token) (word : String) :
    isWordAt (substitute x (enclosed opened e closed) rest) 0 word = isWordAt rest 0 word := by
  cases rest with
  | nil => rfl
  | cons t rest =>
    rw [substitute]
    split
    · next hv =>
      have hright : isWordAt (t :: rest) 0 word = false := by
        simp [isWordAt, hv.1]
      rw [hright]
      rfl
    · rfl

theorem sameWords_substitute (rest : List Token) :
    SameWords rest (substitute x (enclosed opened e closed) rest) where
  first := isWordAt_substitute opened closed e rest
  second word h := by
    obtain ⟨t, rest, rfl, ht⟩ := exists_of_isWordAt h
    have hv : ¬ t.IsVariable x rest := by
      intro hv
      rw [hv.1] at ht
      cases ht
    rw [substitute, if_neg hv]
    exact isWordAt_substitute opened closed e rest word

/-- Only an occurrence of the variable brings a parenthesis where none was. -/
theorem startsCall_substitute (rest : List Token) :
    startsCall (substitute x (enclosed opened e closed) rest) = startsCall rest ∨
      ∃ t tail, rest = t :: tail ∧ t.IsVariable x tail := by
  cases rest with
  | nil => exact .inl rfl
  | cons t rest =>
    by_cases hv : t.IsVariable x rest
    · exact .inr ⟨t, rest, rfl, hv⟩
    · rw [substitute, if_neg hv]
      exact .inl rfl

/-- Calls start where they did, if no occurrence of the variable follows an operand. -/
theorem sameCall_substitute (x : String) (rest : List Token) (m : TokenMeaning)
    (h : ∀ t tail, rest = t :: tail → t.IsVariable x tail → ∀ i more, m = .item i more →
      operandDue (some i) = true) :
    SameCall rest (substitute x (enclosed opened e closed) rest) m := by
  obtain hcall | ⟨t, tail, rfl, hv⟩ := startsCall_substitute (x := x) opened closed e rest
  · exact .inl hcall
  · refine .inr ⟨?_, h t tail rfl hv⟩
    simp [startsCall, hv.1]

/-- A token that leaves no item is kept, and it leaves none after that. -/
theorem ofToken_substitute {due : Bool} {m : TokenMeaning} (ht : ofToken due t rest = .ok m)
    (hm : ∀ i more, m ≠ .item i more) : ¬ t.IsVariable x rest ∧
      ofToken due t (substitute x (enclosed opened e closed) rest) = .ok m := by
  have hv : ¬ t.IsVariable x rest := by
    intro hv
    rw [hv.ofToken] at ht
    cases ht
    exact hm _ _ rfl
  have hcall := sameCall_substitute opened closed e x rest m
    fun _ _ _ _ i more heq => absurd heq (hm i more)
  exact ⟨hv, ofToken_congr (sameWords_substitute opened closed e rest) ht hcall⟩

theorem substituteItem_of_not_isVariable {due : Bool} {i : Item} {more : Nat}
    (ht : ofToken due t rest = .ok (.item i more)) (hv : ¬ t.IsVariable x rest) (r : Row)
    (p : Position) : Row.substituteItem x r ⟨i, p⟩ = [⟨i, p⟩] := by
  cases i with
  | «variable» name =>
    by_cases hk : t.kind = .word
    · rw [ofToken_word hk] at ht
      cases hcall : startsCall rest with
      | true =>
        rw [hcall] at ht
        cases ht
      | false =>
        rw [hcall] at ht
        cases ht
        exact if_neg fun hsame => hv ⟨hk, hcall, hsame⟩
    · exact absurd rfl (noWord_of_ofToken hk ht).kind_ne
  | _ => rfl

end Token

/-- An item before a kept occurrence of the variable leaves an operand due. -/
theorem due_before_variable {due : Bool} {s : Token} {i : Item} {more : Nat} {row : Row}
    (hs : ofToken due s (t :: rest) = .ok (.item i more)) (hv : t.IsVariable x rest)
    (h : Reads (some i) none ((t :: rest).drop more) row)
    (hsep : Row.Separated (⟨i, s.position⟩ :: row)) : operandDue (some i) = true := by
  have hmore : more = 0 := by
    obtain ⟨words, tail, htail, rfl, hwords⟩ := takesWords_of_ofToken hs
    cases words with
    | nil => rfl
    | cons w words =>
      have hw := hwords w (.head _)
      rw [← (List.cons.inj htail).1, hv.1] at hw
      cases hw
  subst hmore
  have ht := hv.ofToken (operandDue (some i))
  rw [List.drop_zero] at h
  cases h with
  | layout hl h =>
    rw [ht] at hl
    cases hl
  | plusSign hl h =>
    rw [ht] at hl
    cases hl
  | item hl hsign h =>
    rw [ht] at hl
    cases hl
    exact (List.isChain_cons_cons.mp hsep).1 rfl

/-- Reading goes on over replaced occurrences as over the variable. -/
theorem Reads.substitute {last last' : Option Item} {sign : Option Position}
    {tokens e : List Token} {row r : Row} (h : Reads last sign tokens row)
    (hsep : row.Separated) (hdue : operandDue last' = operandDue last) (he : Reads none none e r)
    (opened closed : Position) :
    Reads last' sign (Token.substitute x (Token.enclosed opened e closed) tokens)
      (Row.substitute x (⟨.openParen, opened⟩ :: (r ++ [⟨.closeParen, closed⟩])) row) := by
  induction h generalizing last' with
  | done last => exact .done last'
  | layout ht h ih =>
    obtain ⟨hv, ht'⟩ := Token.ofToken_substitute opened closed e ht fun _ _ =>
      TokenMeaning.noConfusion
    rw [Token.substitute, if_neg hv]
    exact .layout (hdue ▸ ht') (ih hsep hdue)
  | plusSign ht h ih =>
    obtain ⟨hv, ht'⟩ := Token.ofToken_substitute opened closed e ht fun _ _ =>
      TokenMeaning.noConfusion
    rw [Token.substitute, if_neg hv]
    exact .plusSign (hdue ▸ ht') (ih hsep hdue)
  | @item last sign t rest row i more ht hs h ih =>
    have hrow : row.Separated := List.IsChain.of_cons hsep
    rw [Row.substitute_cons, Token.substitute]
    split
    · next hv =>
      rw [hv.ofToken] at ht
      cases ht
      have hrest : Reads (some .closeParen) none _ _ := ih hrow rfl
      have hin := (he.congr (some .openParen) rfl).append_closeParen closed hrest
      have hitem : ∀ r, Row.substituteItem x r ⟨.variable t.text, t.position⟩ = r :=
        fun r => if_pos hv.2.2
      rw [hitem, Token.enclosed]
      rw [List.drop_zero] at hin
      simp only [List.cons_append, List.append_assoc, List.nil_append]
      exact .item rfl (fun _ => rfl) hin
    · next hv =>
      have hcall := Token.sameCall_substitute opened closed e x rest (.item i more) <| by
        intro t' tail hrest hv' j n hm
        cases hm
        subst hrest
        exact due_before_variable ht hv' h hsep
      have ht' := ofToken_congr (Token.sameWords_substitute opened closed e rest) ht hcall
      rw [Token.substituteItem_of_not_isVariable ht hv]
      obtain ⟨words, tail, rfl, rfl, hwords⟩ := takesWords_of_ofToken ht
      refine .item (hdue ▸ ht') hs ?_
      rw [List.drop_left] at ih
      rw [Token.substitute_append_words hwords, List.drop_left]
      exact ih hrow rfl

/-- The tokens with a variable replaced are accepted, and the tree of their program is the
tree of the formula with the variable replaced. -/
theorem Parsed.exists_substituted {tokens e : List Token} {p q : Parsed}
    (hp : ofTokens tokens = .ok p) (hq : ofTokens e = .ok q) (hne : q.program ≠ [])
    (x : String) (opened closed : Position) :
    ∃ r, ofTokens (Token.substitute x (Token.enclosed opened e closed) tokens) = .ok r ∧
      ∃ g : Expr, g.program = q.program ∧ ((p.program = [] ∧ r.program = []) ∨
        ∃ f : Expr, f.program = p.program ∧
          (Expr.substitute x (.group opened g closed) f).program = r.program) := by
  obtain ⟨hreads, hprogram⟩ := of_ofTokensNamed hp
  obtain ⟨hinner, -⟩ := of_ofTokensNamed hq
  obtain ⟨g, hg, hitems, hgprogram⟩ := Accepted.exists_tree (.inr ⟨e, hq⟩) hne
  have hsep := Program.separated_of_ofItems hprogram
  have hnew := hreads.substitute (x := x) hsep rfl (hitems ▸ hinner) opened closed
  obtain ⟨hrow, hnil⟩ | ⟨f, hf, hrow, hfprogram⟩ :=
    Program.exists_tree_of_ofItems hreads.callsOpen hprogram
  · rw [hrow] at hnew
    have hempty : Program.ofItems [] = .ok [] := rfl
    exact ⟨_, ofTokensNamed_eq_ok hnew hempty _, g, hgprogram, .inl ⟨hnil, rfl⟩⟩
  · have hclosed : (Expr.group opened g closed).Closed := ⟨hg, rfl, rfl⟩
    have hgrouped := Expr.grouped_substitute x hclosed hf
    rw [← hrow] at hnew
    have hitems := Expr.items_substitute x (.group opened g closed) f
    rw [Expr.items] at hitems
    rw [← hitems] at hnew
    have hok := Program.ofItems_items hgrouped hnew.callsOpen
    exact ⟨_, ofTokensNamed_eq_ok hnew hok _, g, hgprogram, .inr ⟨f, hfprogram, rfl⟩⟩

end Formula
