import Formula.Proofs.Expression.Arranging

/-!
# Unfinished trees

Each entry that is held back while a row is arranged is a tree with its last operand missing,
so the stack is a way from the root of the tree of the whole row to the place that is read
next. The steps given out so far are those of the operands along this way. When operators are
given out from the top of the stack, the operand at its end grows by them.
-/

namespace Formula

/-- An operator that misses its last operand. -/
inductive Pending
  | prefixOp (op : PrefixOp) (p : Text.Position)
  | infixOp (left : Expr) (op : InfixOp) (p : Text.Position)

namespace Pending

def operator : Pending → Operator
  | prefixOp op _ => .prefixOp op
  | infixOp _ op _ => .infixOp op

def position : Pending → Text.Position
  | prefixOp _ p => p
  | infixOp _ _ p => p

def items : Pending → Row
  | prefixOp op p => [⟨.prefixOp op, p⟩]
  | infixOp left op p => left.items ++ [⟨.infixOp op, p⟩]

def program : Pending → Program
  | prefixOp _ _ => []
  | infixOp left _ _ => left.program

def leftEdge : Pending → List Operator
  | prefixOp _ _ => []
  | infixOp left op _ => .infixOp op :: left.leftEdge

def Grouped : Pending → Prop
  | prefixOp _ _ => True
  | infixOp left op _ => left.Grouped ∧ (Operator.infixOp op).TakesLeft left

def apply : Pending → Expr → Expr
  | prefixOp op p, e => .prefixOp op p e
  | infixOp left op p, e => .infixOp left op p e

theorem items_apply (o : Pending) (e : Expr) : (o.apply e).items = o.items ++ e.items := by
  cases o with
  | prefixOp op p => rfl
  | infixOp left op p => simp [apply, items, Expr.items]

theorem program_apply (o : Pending) (e : Expr) :
    (o.apply e).program = o.program ++ e.program ++ [⟨.apply o.operator, o.position⟩] := by
  cases o <;> rfl

theorem leftEdge_apply (o : Pending) (e : Expr) : (o.apply e).leftEdge = o.leftEdge := by
  cases o <;> rfl

theorem rightEdge_apply (o : Pending) (e : Expr) :
    (o.apply e).rightEdge = o.operator :: e.rightEdge := by
  cases o <;> rfl

theorem Grouped.apply {o : Pending} (ho : o.Grouped) {e : Expr} (he : e.Grouped)
    (hr : o.operator.TakesRight e) : (o.apply e).Grouped := by
  cases o with
  | prefixOp op p => exact ⟨he, hr⟩
  | infixOp left op p => exact ⟨ho.1, he, ho.2, hr⟩

end Pending

/-- An open bracket with what was read of its contents. -/
inductive Opening
  | group (opened : Text.Position)
  | callFirst (name : String) (p opened : Text.Position)
  | callNext (name : String) (p opened : Text.Position) (before : Args) (comma : Text.Position)
  | element (collection : Expr) (opened : Text.Position)

namespace Opening

def held : Opening → Held
  | group opened => .group opened none 0
  | callFirst name p opened => .group opened (some ⟨name, p⟩) 0
  | callNext name p opened before _ => .group opened (some ⟨name, p⟩) before.size
  | element _ opened => .bracket opened

def items : Opening → Row
  | group opened => [⟨.openParen, opened⟩]
  | callFirst name p opened => [⟨.function name, p⟩, ⟨.openParen, opened⟩]
  | callNext name p opened before comma =>
    ⟨.function name, p⟩ :: ⟨.openParen, opened⟩ :: (before.items ++ [⟨.comma, comma⟩])
  | element collection opened => collection.items ++ [⟨.openBracket, opened⟩]

def program : Opening → Program
  | group _ => []
  | callFirst _ _ _ => []
  | callNext _ _ _ before _ => before.program
  | element collection _ => collection.program

def leftEdge : Opening → List Operator
  | element collection _ => .element :: collection.leftEdge
  | _ => []

def Grouped : Opening → Prop
  | group _ => True
  | callFirst _ _ _ => True
  | callNext _ _ _ before _ => before.Grouped
  | element collection _ => collection.Grouped ∧ Operator.element.TakesLeft collection

/-- The last item read is the opening parenthesis. -/
def justOpened : Opening → Bool
  | group _ => true
  | callFirst _ _ _ => true
  | _ => false

end Opening

/-- A tree that misses its last operand. -/
inductive Frame
  | pending (o : Pending)
  | opening (b : Opening)

namespace Frame

def held : Frame → Held
  | pending o => .operator o.operator o.position
  | opening b => b.held

def items : Frame → Row
  | pending o => o.items
  | opening b => b.items

def program : Frame → Program
  | pending o => o.program
  | opening b => b.program

/-- The operators whose first operand reaches to the beginning. -/
def leftEdge : Frame → List Operator
  | pending o => o.leftEdge
  | opening b => b.leftEdge

def Grouped : Frame → Prop
  | pending o => o.Grouped
  | opening b => b.Grouped

/-- The frame goes on to be filled by a tree with such a left edge. -/
def Admits : Frame → List Operator → Prop
  | pending o, edge => ∀ g ∈ edge, ¬ o.operator.Yields g
  | opening _, _ => True

end Frame

/-- The way from the root of a tree to the place that is read next, innermost frame first. -/
abbrev Context := List Frame

namespace Context

def held (c : Context) : List Held := c.map Frame.held

def items : Context → Row
  | [] => []
  | f :: c => items c ++ f.items

def program : Context → Program
  | [] => []
  | f :: c => program c ++ f.program

def Admits : Context → List Operator → Prop
  | [], _ => True
  | f :: _, edge => f.Admits edge

def Grouped : Context → Prop
  | [] => True
  | f :: c => f.Grouped ∧ Admits c f.leftEdge ∧ Grouped c

def justOpened : Context → Bool
  | .opening b :: _ => b.justOpened
  | _ => false

theorem admits_nil (c : Context) : c.Admits [] := by
  cases c with
  | nil => trivial
  | cons f c =>
    cases f with
    | pending o =>
      intro g hg
      cases hg
    | opening b => trivial

/-- The operand at the end of the way takes in the operators before it of which `P` holds. -/
def absorb (P : Operator → Prop) [DecidablePred P] : Context → Expr → Context × Expr
  | .pending o :: c, e => if P o.operator then absorb P c (o.apply e) else (.pending o :: c, e)
  | c, e => (c, e)

section Absorb

variable (P : Operator → Prop) [DecidablePred P]

theorem popWhile_held (c : Context) (e : Expr) :
    (Held.popWhile P c.held).2 = (absorb P c e).1.held := by
  fun_induction absorb P c e with
  | case1 o c e hp ih => rw [← ih]; simp [held, Frame.held, Held.popWhile, hp]
  | case2 o c e hp => simp [held, Frame.held, Held.popWhile, hp]
  | case3 c e hc =>
    cases c with
    | nil => rfl
    | cons f c =>
      cases f with
      | pending o => exact absurd rfl (hc o c)
      | opening b => cases b <;> rfl

theorem items_absorb (c : Context) (e : Expr) :
    (absorb P c e).1.items ++ (absorb P c e).2.items = c.items ++ e.items := by
  fun_induction absorb P c e with
  | case1 o c e hp ih => rw [ih, Pending.items_apply, items, Frame.items, List.append_assoc]
  | case2 o c e hp => rfl
  | case3 c e hc => rfl

theorem program_absorb (c : Context) (e : Expr) :
    (absorb P c e).1.program ++ (absorb P c e).2.program =
      c.program ++ e.program ++ (Held.popWhile P c.held).1 := by
  fun_induction absorb P c e with
  | case1 o c e hp ih =>
    rw [ih, Pending.program_apply]
    simp [program, Frame.program, held, Frame.held, Held.popWhile, hp]
  | case2 o c e hp => simp [held, Frame.held, Held.popWhile, hp]
  | case3 c e hc =>
    cases c with
    | nil => simp [held, Held.popWhile]
    | cons f c =>
      cases f with
      | pending o => exact absurd rfl (hc o c)
      | opening b => cases b <;> simp [held, Frame.held, Opening.held, Held.popWhile]

/-- All that is still open at the end of the operand are operators that `P` holds of. -/
theorem rightEdge_absorb (c : Context) (e : Expr) (he : ∀ held ∈ e.rightEdge, P held) :
    ∀ held ∈ (absorb P c e).2.rightEdge, P held := by
  fun_induction absorb P c e with
  | case1 o c e hp ih =>
    apply ih
    rw [Pending.rightEdge_apply]
    exact List.forall_mem_cons.mpr ⟨hp, he⟩
  | case2 o c e hp => exact he
  | case3 c e hc => exact he

theorem not_of_absorb_eq_pending {c d : Context} {e : Expr} {o : Pending}
    (h : (absorb P c e).1 = .pending o :: d) : ¬ P o.operator := by
  fun_induction absorb P c e with
  | case1 o' c e hp ih => exact ih h
  | case2 o' c e hp =>
    cases h
    exact hp
  | case3 c e hc => exact absurd h (hc o d)

end Absorb

/-- The operand fits the context: together they are part of a grouped tree. -/
structure Fits (c : Context) (e : Expr) : Prop where
  context : c.Grouped
  operand : e.Grouped
  admits : c.Admits e.leftEdge

theorem Fits.absorb (P : Operator → Prop) [DecidablePred P] {c : Context} {e : Expr}
    (h : c.Fits e) : (absorb P c e).1.Fits (absorb P c e).2 := by
  fun_induction Context.absorb P c e with
  | case1 o c e hp ih =>
    apply ih
    obtain ⟨ho, hadmits, hc⟩ := h.context
    exact ⟨hc, ho.apply h.operand h.admits, by rw [Pending.leftEdge_apply]; exact hadmits⟩
  | case2 o c e hp => exact h
  | case3 c e hc => exact h

/-- What yields to an operator makes room for it as the next one at the left edge. -/
theorem Fits.admits_yield {c : Context} {e : Expr} (h : c.Fits e) (incoming : Operator) :
    (Context.absorb (fun held => held.Yields incoming) c e).1.Admits
      (incoming :: (Context.absorb (fun held => held.Yields incoming) c e).2.leftEdge) := by
  have hfits := h.absorb fun held => held.Yields incoming
  cases hd : (Context.absorb (fun held => held.Yields incoming) c e).1 with
  | nil => trivial
  | cons f d =>
    have hadmits := hfits.admits
    rw [hd] at hadmits
    cases f with
    | pending o => exact List.forall_mem_cons.mpr ⟨not_of_absorb_eq_pending _ hd, hadmits⟩
    | opening b => trivial

/-- No operator that misses its last operand ends before an opening bracket. -/
theorem Fits.admits_element {c : Context} {e : Expr} (h : c.Fits e) :
    c.Admits (.element :: e.leftEdge) := by
  cases c with
  | nil => trivial
  | cons f c =>
    cases f with
    | pending o =>
      refine List.forall_mem_cons.mpr ⟨?_, h.admits⟩
      cases o with
      | prefixOp op p => exact op.not_yields_element
      | infixOp left op p => exact op.not_yields_element
    | opening b => trivial

end Context

end Formula
