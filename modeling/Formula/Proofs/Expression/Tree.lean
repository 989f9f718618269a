import Formula.Expression.Program

/-!
# Formulas as trees

A tree keeps every item of a formula with its position, brackets and commas included, so it
can be written out again as the row it came from. Its program lists operands before the
operator or the function that takes them. A row alone does not say which operand belongs to
which operator; the trees that agree with the levels are the grouped ones.
-/

namespace Formula

abbrev Row := List (Located Item)

mutual

inductive Expr
  | constant (v : Value) (p : Text.Position)
  | variable (name : String) (p : Text.Position)
  | callEmpty (name : String) (p opened closed : Text.Position)
  | call (name : String) (p opened : Text.Position) (args : Args) (closed : Text.Position)
  | group (opened : Text.Position) (e : Expr) (closed : Text.Position)
  | prefixOp (op : PrefixOp) (p : Text.Position) (e : Expr)
  | suffixOp (e : Expr) (op : SuffixOp) (p : Text.Position)
  | infixOp (left : Expr) (op : InfixOp) (p : Text.Position) (right : Expr)
  | element (collection : Expr) (opened : Text.Position) (index : Expr) (closed : Text.Position)

/-- At least one argument; the last one stands apart. -/
inductive Args
  | one (e : Expr)
  | more (before : Args) (comma : Text.Position) (e : Expr)

end

mutual

def Expr.items : Expr → Row
  | .constant v p => [⟨.constant v, p⟩]
  | .variable name p => [⟨.variable name, p⟩]
  | .callEmpty name p opened closed =>
    [⟨.function name, p⟩, ⟨.openParen, opened⟩, ⟨.closeParen, closed⟩]
  | .call name p opened args closed =>
    ⟨.function name, p⟩ :: ⟨.openParen, opened⟩ :: (args.items ++ [⟨.closeParen, closed⟩])
  | .group opened e closed => ⟨.openParen, opened⟩ :: (e.items ++ [⟨.closeParen, closed⟩])
  | .prefixOp op p e => ⟨.prefixOp op, p⟩ :: e.items
  | .suffixOp e op p => e.items ++ [⟨.suffixOp op, p⟩]
  | .infixOp left op p right => left.items ++ ⟨.infixOp op, p⟩ :: right.items
  | .element collection opened index closed =>
    collection.items ++ ⟨.openBracket, opened⟩ :: (index.items ++ [⟨.closeBracket, closed⟩])

def Args.items : Args → Row
  | .one e => e.items
  | .more before comma e => before.items ++ ⟨.comma, comma⟩ :: e.items

end

def Args.size : Args → Nat
  | .one _ => 1
  | .more before _ _ => before.size + 1

mutual

def Expr.program : Expr → Program
  | .constant v p => [⟨.push v, p⟩]
  | .variable name p => [⟨.load name, p⟩]
  | .callEmpty name p _ _ => [⟨.call name 0, p⟩]
  | .call name p _ args _ => args.program ++ [⟨.call name args.size, p⟩]
  | .group _ e _ => e.program
  | .prefixOp op p e => e.program ++ [⟨.apply (.prefixOp op), p⟩]
  | .suffixOp e op p => e.program ++ [⟨.apply (.suffixOp op), p⟩]
  | .infixOp left op p right => left.program ++ right.program ++ [⟨.apply (.infixOp op), p⟩]
  | .element collection opened index _ =>
    collection.program ++ index.program ++ [⟨.apply .element, opened⟩]

def Args.program : Args → Program
  | .one e => e.program
  | .more before _ e => before.program ++ e.program

end

namespace Expr

theorem items_ne_nil (e : Expr) : e.items ≠ [] := by
  cases e <;> simp [items]

theorem program_ne_nil (e : Expr) : e.program ≠ [] := by
  match e with
  | .group opened e closed => exact e.program_ne_nil
  | .constant _ _ | .variable _ _ | .callEmpty _ _ _ _ | .call _ _ _ _ _ => simp [program]
  | .prefixOp _ _ _ | .suffixOp _ _ _ | .infixOp _ _ _ _ | .element _ _ _ _ => simp [program]

/-- The operators whose last operand reaches to the end of the tree. -/
def rightEdge : Expr → List Operator
  | .prefixOp op _ e => .prefixOp op :: e.rightEdge
  | .infixOp _ op _ right => .infixOp op :: right.rightEdge
  | _ => []

/-- The operators whose first operand reaches to the beginning of the tree. -/
def leftEdge : Expr → List Operator
  | .suffixOp e op _ => .suffixOp op :: e.leftEdge
  | .infixOp left op _ _ => .infixOp op :: left.leftEdge
  | .element collection _ _ _ => .element :: collection.leftEdge
  | _ => []

end Expr

namespace Operator

/-- The tree can stand before the operator as its first operand: whatever waits for its last
operand there is done before the operator is read on. -/
def TakesLeft (op : Operator) (e : Expr) : Prop := ∀ held ∈ e.rightEdge, held.Yields op

/-- The tree can stand after the operator as its last operand: nothing in it ends the
operator early. -/
def TakesRight (op : Operator) (e : Expr) : Prop := ∀ g ∈ e.leftEdge, ¬ op.Yields g

instance (op : Operator) (e : Expr) : Decidable (op.TakesLeft e) :=
  inferInstanceAs (Decidable (∀ held ∈ e.rightEdge, held.Yields op))

instance (op : Operator) (e : Expr) : Decidable (op.TakesRight e) :=
  inferInstanceAs (Decidable (∀ g ∈ e.leftEdge, ¬ op.Yields g))

end Operator

mutual

/-- Every operator has the operands that the levels give it; brackets hide what is inside. -/
def Expr.Grouped : Expr → Prop
  | .constant _ _ => True
  | .variable _ _ => True
  | .callEmpty _ _ _ _ => True
  | .call _ _ _ args _ => args.Grouped
  | .group _ e _ => e.Grouped
  | .prefixOp op _ e => e.Grouped ∧ (Operator.prefixOp op).TakesRight e
  | .suffixOp e op _ => e.Grouped ∧ (Operator.suffixOp op).TakesLeft e
  | .infixOp left op _ right =>
    left.Grouped ∧ right.Grouped ∧ (Operator.infixOp op).TakesLeft left ∧
      (Operator.infixOp op).TakesRight right
  | .element collection _ index _ =>
    collection.Grouped ∧ index.Grouped ∧ Operator.element.TakesLeft collection

def Args.Grouped : Args → Prop
  | .one e => e.Grouped
  | .more before _ e => before.Grouped ∧ e.Grouped

end

mutual

def Expr.decideGrouped : ∀ e : Expr, Decidable e.Grouped
  | .constant _ _ => .isTrue trivial
  | .variable _ _ => .isTrue trivial
  | .callEmpty _ _ _ _ => .isTrue trivial
  | .call _ _ _ args _ => args.decideGrouped
  | .group _ e _ => e.decideGrouped
  | .prefixOp _ _ e => @instDecidableAnd _ _ e.decideGrouped _
  | .suffixOp e _ _ => @instDecidableAnd _ _ e.decideGrouped _
  | .infixOp left _ _ right =>
    @instDecidableAnd _ _ left.decideGrouped (@instDecidableAnd _ _ right.decideGrouped _)
  | .element collection _ index _ =>
    @instDecidableAnd _ _ collection.decideGrouped (@instDecidableAnd _ _ index.decideGrouped _)

def Args.decideGrouped : ∀ args : Args, Decidable args.Grouped
  | .one e => e.decideGrouped
  | .more before _ e => @instDecidableAnd _ _ before.decideGrouped e.decideGrouped

end

instance (e : Expr) : Decidable e.Grouped := e.decideGrouped

/-- A grouped tree whose edges are hidden fits in every place where an operand stands. -/
structure Expr.Closed (e : Expr) : Prop where
  grouped : e.Grouped
  leftEdge : e.leftEdge = []
  rightEdge : e.rightEdge = []

theorem Operator.takesLeft_of_closed (op : Operator) {e : Expr} (h : e.Closed) :
    op.TakesLeft e := by
  intro held hheld
  rw [h.rightEdge] at hheld
  cases hheld

theorem Operator.takesRight_of_closed (op : Operator) {e : Expr} (h : e.Closed) :
    op.TakesRight e := by
  intro g hg
  rw [h.leftEdge] at hg
  cases hg

namespace Operator

/-- Operators of one level group the same way: to the right at the levels of `NOT`, of the
power and of the sign, to the left at all others. -/
theorem groupsRight_iff (op : Operator) :
    op.groupsRight = true ↔ op.level = 3 ∨ op.level = 9 ∨ op.level = 10 := by
  cases op with
  | infixOp op => cases op <;> decide
  | prefixOp op => cases op <;> decide
  | suffixOp op => cases op <;> decide
  | element => decide

/-- The lowest level of an operator within the last operand of `op`. -/
def operandLevel (op : Operator) : Nat := if op.groupsRight then op.level else op.level + 1

theorem not_yields_iff (held g : Operator) : ¬ held.Yields g ↔ held.operandLevel ≤ g.level := by
  unfold Yields operandLevel
  rw [← Bool.not_eq_true, g.groupsRight_iff]
  split
  · next h =>
    rw [held.groupsRight_iff] at h
    omega
  · next h =>
    rw [held.groupsRight_iff] at h
    omega

end Operator

/-- Brackets after an operand bind tighter than any operator before it. -/
theorem PrefixOp.not_yields_element (op : PrefixOp) : ¬ (Operator.prefixOp op).Yields .element := by
  cases op <;> decide

theorem InfixOp.not_yields_element (op : InfixOp) : ¬ (Operator.infixOp op).Yields .element := by
  cases op <;> decide

end Formula
