import Formula.Proofs.Expression.Tree

/-!
# The grammar of formulas

Which rows are formulas, without regard to levels. An operand is a leaf, a call, a formula in
parentheses or a prefix operator with a formula; brackets, suffix operators and infix
operators with another formula may follow. Commas stand between the arguments of a call only.
-/

namespace Formula

mutual

inductive Derives : Row → Prop
  | constant (v : Value) (p : Text.Position) : Derives [⟨.constant v, p⟩]
  | variable (name : String) (p : Text.Position) : Derives [⟨.variable name, p⟩]
  | callEmpty (name : String) (p opened closed : Text.Position) :
    Derives [⟨.function name, p⟩, ⟨.openParen, opened⟩, ⟨.closeParen, closed⟩]
  | call (name : String) (p opened closed : Text.Position) {args : Row} (h : DerivesArgs args) :
    Derives (⟨.function name, p⟩ :: ⟨.openParen, opened⟩ :: (args ++ [⟨.closeParen, closed⟩]))
  | group (opened closed : Text.Position) {row : Row} (h : Derives row) :
    Derives (⟨.openParen, opened⟩ :: (row ++ [⟨.closeParen, closed⟩]))
  | prefixOp (op : PrefixOp) (p : Text.Position) {row : Row} (h : Derives row) :
    Derives (⟨.prefixOp op, p⟩ :: row)
  | suffixOp (op : SuffixOp) (p : Text.Position) {row : Row} (h : Derives row) :
    Derives (row ++ [⟨.suffixOp op, p⟩])
  | infixOp (op : InfixOp) (p : Text.Position) {left right : Row} (hl : Derives left)
    (hr : Derives right) : Derives (left ++ ⟨.infixOp op, p⟩ :: right)
  | element (opened closed : Text.Position) {collection index : Row} (hc : Derives collection)
    (hi : Derives index) :
    Derives (collection ++ ⟨.openBracket, opened⟩ :: (index ++ [⟨.closeBracket, closed⟩]))

/-- At least one formula, with commas between. -/
inductive DerivesArgs : Row → Prop
  | one {row : Row} (h : Derives row) : DerivesArgs row
  | more (comma : Text.Position) {before row : Row} (hb : DerivesArgs before) (h : Derives row) :
    DerivesArgs (before ++ ⟨.comma, comma⟩ :: row)

end

mutual

theorem Expr.derives_items : ∀ e : Expr, Derives e.items
  | .constant v p => .constant v p
  | .variable name p => .variable name p
  | .callEmpty name p opened closed => .callEmpty name p opened closed
  | .call name p opened args closed => .call name p opened closed args.derivesArgs_items
  | .group opened e closed => .group opened closed e.derives_items
  | .prefixOp op p e => .prefixOp op p e.derives_items
  | .suffixOp e op p => .suffixOp op p e.derives_items
  | .infixOp left op p right => .infixOp op p left.derives_items right.derives_items
  | .element collection opened index closed =>
    .element opened closed collection.derives_items index.derives_items

theorem Args.derivesArgs_items : ∀ args : Args, DerivesArgs args.items
  | .one e => .one e.derives_items
  | .more before comma e => .more comma before.derivesArgs_items e.derives_items

end

namespace Row

def StartsOpen : Row → Prop
  | ⟨.openParen, _⟩ :: _ => True
  | _ => False

/-- Every function name is followed by its opening parenthesis. -/
def CallsOpen : Row → Prop
  | [] => True
  | ⟨.function _, _⟩ :: rest => StartsOpen rest ∧ CallsOpen rest
  | _ :: rest => CallsOpen rest

theorem value_of_startsOpen {i : Located Item} {rest : Row} (h : StartsOpen (i :: rest)) :
    i.value = .openParen := by
  obtain ⟨value, p⟩ := i
  cases value with
  | openParen => rfl
  | _ => cases h

theorem CallsOpen.tail {i : Located Item} {rest : Row} (h : CallsOpen (i :: rest)) :
    CallsOpen rest := by
  obtain ⟨value, p⟩ := i
  cases value with
  | function name => exact h.2
  | _ => exact h

end Row

end Formula
