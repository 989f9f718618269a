import Formula.Proofs.Expression.TokenRows
import Formula.Proofs.Lexical.Pieces
import Mathlib.Data.List.Chain

/-!
# Operands and what stands between them

Every item settles whether an operand is due behind it, and an item that opens an operand is taken
in only where one is due, every other one only where none is due. So in an accepted formula no
number, string or name stands right behind a number or a string, and no symbol that needs an
operand on either side right behind another one.
-/

namespace Formula

/-- An operand begins with the item. -/
def Item.opensOperand : Item → Bool
  | .constant _ => true
  | .variable _ => true
  | .function _ => true
  | .openParen => true
  | .prefixOp _ => true
  | _ => false

theorem Item.opensOperand_of_variable {i : Item} (h : i.kind = .variable) :
    i.opensOperand = true := by
  cases i with
  | «variable» name => rfl
  | _ => cases h

namespace Arranging

variable {a b : Arranging} {i : Located Item} {steps : Program}

theorem due_of_ite {r : Step} {fault : SyntaxFault}
    (h : (if a.operandDue then r else .error fault) = .ok (steps, b)) :
    a.operandDue = true ∧ r = .ok (steps, b) := by
  split at h
  · next hdue => exact ⟨hdue, h⟩
  · cases h

theorem not_due_of_ite {r : Step} {fault : SyntaxFault}
    (h : (if a.operandDue then .error fault else r) = .ok (steps, b)) :
    a.operandDue = false ∧ r = .ok (steps, b) := by
  split at h
  · cases h
  · next hdue => exact ⟨Bool.not_eq_true _ ▸ hdue, h⟩

theorem due_of_comma (h : a.comma = .ok (steps, b)) :
    a.operandDue = false ∧ b.operandDue = true := by
  obtain ⟨hdue, h⟩ := not_due_of_ite h
  split at h
  · cases h
    exact ⟨hdue, rfl⟩
  · cases h

theorem due_of_closeParen (h : a.closeParen = .ok (steps, b)) : b.operandDue = false := by
  rw [closeParen] at h
  split at h
  · split at h
    · cases h
    · cases h
      rfl
  · split at h
    · cases h
    · cases h
      rfl
  · cases h

theorem due_of_closeBracket (h : a.closeBracket = .ok (steps, b)) :
    a.operandDue = false ∧ b.operandDue = false := by
  obtain ⟨hdue, h⟩ := not_due_of_ite h
  split at h
  · cases h
    exact ⟨hdue, rfl⟩
  · cases h

/-- An item is taken in where it fits, and settles whether an operand is due behind it. -/
theorem due_of_step (h : a.step i = .ok (steps, b)) :
    (i.value.kind ≠ .closeParen → a.operandDue = i.value.opensOperand) ∧
      b.operandDue = TokenMeaning.operandDue (some i.value) := by
  obtain ⟨value, p⟩ := i
  cases value with
  | constant v =>
    obtain ⟨hdue, ⟨⟩⟩ := due_of_ite h
    exact ⟨fun _ => hdue, rfl⟩
  | «variable» name =>
    obtain ⟨hdue, ⟨⟩⟩ := due_of_ite h
    exact ⟨fun _ => hdue, rfl⟩
  | function name =>
    obtain ⟨hdue, ⟨⟩⟩ := due_of_ite h
    exact ⟨fun _ => hdue, hdue⟩
  | openParen =>
    obtain ⟨hdue, ⟨⟩⟩ := due_of_ite h
    exact ⟨fun _ => hdue, rfl⟩
  | prefixOp op =>
    obtain ⟨hdue, ⟨⟩⟩ := due_of_ite h
    exact ⟨fun _ => hdue, rfl⟩
  | openBracket =>
    obtain ⟨hdue, ⟨⟩⟩ := not_due_of_ite h
    exact ⟨fun _ => hdue, rfl⟩
  | suffixOp op =>
    obtain ⟨hdue, ⟨⟩⟩ := not_due_of_ite h
    exact ⟨fun _ => hdue, rfl⟩
  | infixOp op =>
    obtain ⟨hdue, ⟨⟩⟩ := not_due_of_ite h
    exact ⟨fun _ => hdue, rfl⟩
  | comma => exact (due_of_comma h).imp_left fun hdue _ => hdue
  | closeBracket => exact (due_of_closeBracket h).imp_left fun hdue _ => hdue
  | closeParen => exact ⟨fun hno => absurd rfl hno, due_of_closeParen h⟩

end Arranging

namespace Token

/-- Numbers and strings. -/
def IsLiteral (t : Token) : Prop := t.kind ∈ [TokenKind.integer, .float, .number, .quoted]

/-- Symbols that need an operand on either side. -/
def IsInfixMark (t : Token) : Prop := t.kind = .symbol ∧ t.text ∈ infixMarks

/-- The token may stand where an operand is due, or where none is. -/
structure Fits (t : Token) (due : Bool) : Prop where
  operand : t.IsLiteral ∨ t.kind = .word → due = true
  infixMark : t.IsInfixMark → due = false

/-- Behind the token an operand may be due, or none. -/
structure Leaves (t : Token) (due : Bool) : Prop where
  literal : t.IsLiteral → due = false
  infixMark : t.IsInfixMark → due = true

/-- The second token may stand right behind the first one. -/
def Follows (u t : Token) : Prop := ∃ due, t.Leaves due ∧ u.Fits due

variable {t : Token}

theorem fits_and_leaves (hliteral : ¬ t.IsLiteral) (hword : t.kind ≠ .word)
    (hmark : ¬ t.IsInfixMark) (due : Bool) : t.Fits due ∧ t.Leaves due :=
  ⟨⟨fun ho => (ho.elim hliteral hword).elim, fun hi => absurd hi hmark⟩,
    ⟨fun hl => absurd hl hliteral, fun hi => absurd hi hmark⟩⟩

theorem fits_of_keyword (h : t.kind = .keyword) (due : Bool) : t.Fits due ∧ t.Leaves due := by
  refine fits_and_leaves ?_ ?_ ?_ due
  · rw [IsLiteral, h]
    decide
  · rw [h]
    decide
  · rintro ⟨hkind, -⟩
    rw [h] at hkind
    cases hkind

end Token

namespace TokenMeaning

variable {due : Bool} {t : Token} {rest : List Token} {m : TokenMeaning}

theorem exists_constant_of_literal (hliteral : t.IsLiteral) (h : ofToken due t rest = .ok m) :
    ∃ v, m = .item (.constant v) 0 := by
  have hof : ∀ {value : Option Value}, ofLiteral value t.text = .ok m →
      ∃ v, m = .item (.constant v) 0 := by
    intro value hvalue
    cases value with
    | none => cases hvalue
    | some v =>
      cases hvalue
      exact ⟨v, rfl⟩
  simp only [Token.IsLiteral, List.mem_cons, List.not_mem_nil, or_false] at hliteral
  unfold ofToken at h
  obtain hk | hk | hk | hk := hliteral
  · rw [hk] at h
    exact hof h
  · rw [hk] at h
    exact hof h
  · rw [hk] at h
    exact hof h
  · rw [hk] at h
    cases h
    exact ⟨_, rfl⟩

theorem exists_infixOp_of_infixMark (hmark : t.IsInfixMark) (h : ofToken due t rest = .ok m) :
    ∃ op, m = .item (.infixOp op) 0 := by
  have hsymbol : ∀ s ∈ infixMarks, ∃ op, ofSymbol due s = .ok (.item (.infixOp op) 0) := by
    simp [infixMarks, ofSymbol]
  obtain ⟨op, hop⟩ := hsymbol t.text hmark.2
  rw [ofToken, hmark.1] at h
  dsimp only at h
  rw [hop] at h
  cases h
  exact ⟨op, rfl⟩

end TokenMeaning

theorem Token.Leaves.isChain_cons {t : Token} {due : Bool} {tail : List Token}
    (ht : t.Leaves due) (hfits : ∀ u ∈ tail.head?, u.Fits due)
    (htail : tail.IsChain fun t u => u.Follows t) : (t :: tail).IsChain fun t u => u.Follows t :=
  List.isChain_cons.mpr ⟨fun u hu => ⟨due, ht, hfits u hu⟩, htail⟩

/-- The words that belong to an item may stand behind it and behind each other. -/
theorem Token.Leaves.isChain_words {t : Token} {due : Bool} {words tail : List Token}
    (ht : t.Leaves due) (hwords : ∀ w ∈ words, w.kind = .keyword) (hfits : ∀ u ∈ tail.head?, u.Fits due)
    (htail : tail.IsChain fun t u => u.Follows t) :
    (t :: (words ++ tail)).IsChain fun t u => u.Follows t := by
  induction words generalizing t with
  | nil => exact ht.isChain_cons hfits htail
  | cons w words ih =>
    obtain ⟨hw, hwords⟩ := List.forall_mem_cons.mp hwords
    obtain ⟨hfits, hleaves⟩ := Token.fits_of_keyword hw due
    exact .cons_cons ⟨due, ht, hfits⟩ (ih hleaves hwords)

namespace TokenMeaning

variable {due : Bool} {t : Token} {rest : List Token} {m : TokenMeaning}

theorem fits_of_no_item (h : ofToken due t rest = .ok m) (hm : ∀ i more, m ≠ .item i more)
    (due' : Bool) : t.Fits due' ∧ t.Leaves due' := by
  have hliteral : ¬ t.IsLiteral := by
    intro hliteral
    obtain ⟨v, hv⟩ := exists_constant_of_literal hliteral h
    exact hm _ _ hv
  have hmark : ¬ t.IsInfixMark := by
    intro hmark
    obtain ⟨op, hop⟩ := exists_infixOp_of_infixMark hmark h
    exact hm _ _ hop
  have hword : t.kind ≠ .word := by
    intro hword
    rw [ofToken_word hword] at h
    exact hm _ _ (Except.ok.inj h).symm
  exact Token.fits_and_leaves hliteral hword hmark due'

theorem leaves_of_item {i : Item} {more : Nat} (h : ofToken due t rest = .ok (.item i more)) :
    t.Leaves (operandDue (some i)) where
  literal hliteral := by
    obtain ⟨v, hv⟩ := exists_constant_of_literal hliteral h
    cases hv
    rfl
  infixMark hmark := by
    obtain ⟨op, hop⟩ := exists_infixOp_of_infixMark hmark h
    cases hop
    rfl

theorem fits_of_item {i : Item} {more : Nat} (h : ofToken due t rest = .ok (.item i more))
    (hi : i.kind ≠ .closeParen → due = i.opensOperand) : t.Fits due where
  operand := by
    rintro (hliteral | hword)
    · obtain ⟨v, hv⟩ := exists_constant_of_literal hliteral h
      cases hv
      exact hi ItemKind.noConfusion
    · rw [ofToken_word hword] at h
      split at h <;> cases h <;> exact hi ItemKind.noConfusion
  infixMark hmark := by
    obtain ⟨op, hop⟩ := exists_infixOp_of_infixMark hmark h
    cases hop
    exact hi ItemKind.noConfusion

end TokenMeaning

namespace Reads

variable {last : Option Item} {sign : Option Text.Position} {tokens : List Token} {row : Row}

/-- The tokens of a row that is taken in follow each other as operands and operators do. -/
theorem follows (h : Reads last sign tokens row) {a b : Arranging} {steps : Program}
    (hfeed : a.feed row = .ok (steps, b)) (hdue : a.operandDue = TokenMeaning.operandDue last) :
    (∀ t ∈ tokens.head?, t.Fits (TokenMeaning.operandDue last)) ∧
      tokens.IsChain fun t u => u.Follows t := by
  induction h generalizing a steps with
  | done last => exact ⟨nofun, .nil⟩
  | @layout last sign t rest row ht h ih =>
    obtain ⟨hfits, hchain⟩ := ih hfeed hdue
    have hlayout := TokenMeaning.fits_of_no_item ht nofun (TokenMeaning.operandDue last)
    exact ⟨by rintro _ ⟨⟩; exact hlayout.1, hlayout.2.isChain_cons hfits hchain⟩
  | @plusSign last sign t rest row ht h ih =>
    obtain ⟨hfits, hchain⟩ := ih hfeed hdue
    have hplus := TokenMeaning.fits_of_no_item ht nofun (TokenMeaning.operandDue last)
    exact ⟨by rintro _ ⟨⟩; exact hplus.1, hplus.2.isChain_cons hfits hchain⟩
  | @item last sign t rest row i more ht hs h ih =>
    obtain ⟨first, next, others, hstep, hrest, -⟩ := Arranging.exists_of_feed_cons hfeed
    obtain ⟨htaken, hnext⟩ := Arranging.due_of_step hstep
    obtain ⟨words, tail, rfl, rfl, hwords⟩ := TokenMeaning.takesWords_of_ofToken ht
    rw [List.drop_left] at ih
    obtain ⟨hfits, hchain⟩ := ih hrest hnext
    refine ⟨?_, (TokenMeaning.leaves_of_item ht).isChain_words hwords hfits hchain⟩
    rintro _ ⟨⟩
    exact TokenMeaning.fits_of_item ht (hdue ▸ htaken)

/-- Every token has a meaning of its own or is a reserved word. -/
theorem exists_meaning (h : Reads last sign tokens row) :
    ∀ t ∈ tokens, t.kind = .keyword ∨ ∃ due rest m, TokenMeaning.ofToken due t rest = .ok m := by
  induction h with
  | done last => exact nofun
  | layout ht h ih => exact List.forall_mem_cons.mpr ⟨.inr ⟨_, _, _, ht⟩, ih⟩
  | plusSign ht h ih => exact List.forall_mem_cons.mpr ⟨.inr ⟨_, _, _, ht⟩, ih⟩
  | @item last sign t rest row i more ht hs h ih =>
    obtain ⟨words, tail, rfl, rfl, hwords⟩ := TokenMeaning.takesWords_of_ofToken ht
    rw [List.drop_left] at ih
    refine List.forall_mem_cons.mpr ⟨.inr ⟨_, _, _, ht⟩, List.forall_mem_append.mpr ⟨?_, ih⟩⟩
    exact fun w hw => .inl (hwords w hw)

end Reads

end Formula
