import Formula.Expression.Parsed
import Formula.Proofs.Expression.Agreement
import Formula.Proofs.Expression.LookAhead

/-!
# Rows from tokens

Reading tokens is put as a relation, one way to go on for each meaning of a token. In a row
that was read every function name stands before its opening parenthesis, since only then a
word is a function. So each accepted formula has its grouped tree.
-/

namespace Formula

/-- The tokens after the item `last` read as a row; a plus sign at `sign` waits for its
operand. -/
inductive Reads : Option Item → Option Text.Position → List Token → Row → Prop
  | done (last : Option Item) : Reads last none [] []
  | layout {last : Option Item} {sign : Option Text.Position} {t : Token} {rest : List Token}
    {row : Row}
    (ht : TokenMeaning.ofToken (TokenMeaning.operandDue last) t rest = .ok .layout)
    (h : Reads last sign rest row) : Reads last sign (t :: rest) row
  | plusSign {last : Option Item} {sign : Option Text.Position} {t : Token} {rest : List Token}
    {row : Row}
    (ht : TokenMeaning.ofToken (TokenMeaning.operandDue last) t rest = .ok .plusSign)
    (h : Reads last (some t.position) rest row) : Reads last sign (t :: rest) row
  | item {last : Option Item} {sign : Option Text.Position} {t : Token} {rest : List Token}
    {row : Row} {i : Item} {more : Nat}
    (ht : TokenMeaning.ofToken (TokenMeaning.operandDue last) t rest = .ok (.item i more))
    (hs : sign ≠ none → i.closesOperand = false)
    (h : Reads (some i) none (rest.drop more) row) :
    Reads last sign (t :: rest) (⟨i, t.position⟩ :: row)

namespace Reads

theorem of_ofTokensAfter {last : Option Item} {sign : Option Text.Position}
    {tokens : List Token} {row : Row} (h : Item.ofTokensAfter last sign tokens = .ok row) :
    Reads last sign tokens row := by
  fun_induction Item.ofTokensAfter last sign tokens generalizing row with
  | case1 => cases h
  | case2 last =>
    cases h
    exact .done last
  | case3 => cases h
  | case4 last sign t rest ht ih => exact .layout ht (ih h)
  | case5 last sign t rest ht ih => exact .plusSign ht (ih h)
  | case6 => cases h
  | case7 last t rest i more ht p hi items hrest ih =>
    cases h
    exact .item ht (fun _ => Bool.not_eq_true _ ▸ hi) (ih hrest)
  | case8 => cases h
  | case9 last t rest i more ht items hrest ih =>
    cases h
    exact .item ht (fun hn => absurd rfl hn) (ih hrest)
  | case10 => cases h

theorem ofTokensAfter {last : Option Item} {sign : Option Text.Position}
    {tokens : List Token} {row : Row} (h : Reads last sign tokens row) :
    Item.ofTokensAfter last sign tokens = .ok row := by
  induction h with
  | done last => rw [Item.ofTokensAfter]
  | layout ht h ih =>
    rw [Item.ofTokensAfter, ht]
    exact ih
  | plusSign ht h ih =>
    rw [Item.ofTokensAfter, ht]
    exact ih
  | @item last sign t rest row i more ht hs h ih =>
    rw [Item.ofTokensAfter, ht]
    dsimp only
    rw [ih]
    cases sign with
    | none => rfl
    | some p =>
      rw [hs (Option.some_ne_none p)]
      rfl

/-- Only whether an operand is due matters of what was read before. -/
theorem congr {last : Option Item} {sign : Option Text.Position} {tokens : List Token}
    {row : Row} (h : Reads last sign tokens row) (last' : Option Item)
    (hdue : TokenMeaning.operandDue last' = TokenMeaning.operandDue last) :
    Reads last' sign tokens row := by
  induction h generalizing last' with
  | done last => exact .done last'
  | layout ht h ih => exact .layout (hdue ▸ ht) (ih last' hdue)
  | plusSign ht h ih => exact .plusSign (hdue ▸ ht) (ih last' hdue)
  | item ht hs h ih => exact .item (hdue ▸ ht) hs h

/-- One token that is an item by itself, where no plus sign waits. -/
theorem single {last : Option Item} {t : Token} {rest : List Token} {row : Row} {i : Item}
    (ht : TokenMeaning.ofToken (TokenMeaning.operandDue last) t rest = .ok (.item i 0))
    (h : Reads (some i) none rest row) : Reads last none (t :: rest) (⟨i, t.position⟩ :: row) :=
  .item ht (fun hn => absurd rfl hn) h

end Reads

theorem Reads.startsOpen {last : Option Item} {sign : Option Text.Position} {tokens : List Token}
    {row : Row} (h : Reads last sign tokens row) (hcall : TokenMeaning.startsCall tokens = true) :
    row.StartsOpen := by
  cases tokens with
  | nil => cases hcall
  | cons t rest =>
    simp only [TokenMeaning.startsCall, Bool.and_eq_true, decide_eq_true_eq] at hcall
    have hopen := TokenMeaning.ofToken_openParen hcall.1 hcall.2
    cases h with
    | layout ht h =>
      rw [hopen] at ht
      cases ht
    | plusSign ht h =>
      rw [hopen] at ht
      cases ht
    | item ht hs h =>
      rw [hopen] at ht
      cases ht
      trivial

theorem Reads.callsOpen {last : Option Item} {sign : Option Text.Position} {tokens : List Token}
    {row : Row} (h : Reads last sign tokens row) : row.CallsOpen := by
  induction h with
  | done last => trivial
  | layout ht h ih => exact ih
  | plusSign ht h ih => exact ih
  | @item last sign t rest row i more ht hs h ih =>
    cases i with
    | function name =>
      obtain ⟨hcall, rfl⟩ := TokenMeaning.startsCall_of_function ht
      exact ⟨h.startsOpen hcall, ih⟩
    | _ => exact ih

namespace Parsed

/-- The outcome of reading a text or a list of tokens without an error. -/
def Accepted (p : Parsed) : Prop :=
  (∃ text, ofText text = .ok p) ∨ ∃ tokens, ofTokens tokens = .ok p

theorem of_ofTokensNamed {expression : String} {tokens : List Token} {p : Parsed}
    (h : ofTokensNamed expression tokens = .ok p) :
    Reads none none tokens p.items ∧ Program.ofItems p.items = .ok p.program := by
  rw [ofTokensNamed] at h
  split at h
  · cases h
  · next items hitems =>
    split at h
    · cases h
    · next program hprogram =>
      cases h
      exact ⟨.of_ofTokensAfter hitems, hprogram⟩

theorem ofTokensNamed_eq_ok {tokens : List Token} {row : Row} {program : Program}
    (h : Reads none none tokens row) (hp : Program.ofItems row = .ok program)
    (expression : String) : ofTokensNamed expression tokens =
      .ok ⟨expression, tokens, row, program, Item.variableNames row⟩ := by
  rw [ofTokensNamed, Item.ofTokens, h.ofTokensAfter]
  dsimp only
  rw [hp]

theorem eq_of_ofTokensNamed {expression : String} {tokens : List Token} {p : Parsed}
    (h : ofTokensNamed expression tokens = .ok p) :
    p = ⟨expression, tokens, p.items, p.program, Item.variableNames p.items⟩ := by
  obtain ⟨hreads, hprogram⟩ := of_ofTokensNamed h
  exact Except.ok.inj (h.symm.trans (ofTokensNamed_eq_ok hreads hprogram expression))

namespace Accepted

variable {p : Parsed}

/-- Whatever it was read from, an accepted formula comes from some tokens. -/
theorem exists_ofTokensNamed (h : p.Accepted) :
    ∃ expression tokens, ofTokensNamed expression tokens = .ok p := by
  obtain ⟨text, h⟩ | ⟨tokens, h⟩ := h
  · rw [ofText] at h
    split at h
    · cases h
    · next tokens htokens => exact ⟨text, tokens, h⟩
  · exact ⟨compose tokens, tokens, h⟩

theorem reads (h : p.Accepted) : (∃ tokens, Reads none none tokens p.items) ∧
    Program.ofItems p.items = .ok p.program := by
  obtain ⟨expression, tokens, h⟩ := h.exists_ofTokensNamed
  obtain ⟨hreads, hprogram⟩ := of_ofTokensNamed h
  exact ⟨⟨tokens, hreads⟩, hprogram⟩

theorem variableNames_eq (h : p.Accepted) : p.variableNames = Item.variableNames p.items := by
  obtain ⟨expression, tokens, h⟩ := h.exists_ofTokensNamed
  exact congrArg Parsed.variableNames (eq_of_ofTokensNamed h)

theorem exists_tree (h : p.Accepted) (hne : p.program ≠ []) :
    ∃ e : Expr, e.Grouped ∧ e.items = p.items ∧ e.program = p.program := by
  obtain ⟨⟨tokens, hreads⟩, hprogram⟩ := h.reads
  obtain ⟨-, hnil⟩ | htree := Program.exists_tree_of_ofItems hreads.callsOpen hprogram
  · exact absurd hnil hne
  · exact htree

end Accepted

end Parsed

end Formula
