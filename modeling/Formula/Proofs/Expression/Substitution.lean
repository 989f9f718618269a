import Formula.Proofs.Expression.Tree
import Formula.Text.Characters

/-!
# Putting a tree in the place of a variable

Every occurrence of a variable in a tree is replaced by another tree. Rows and programs go
along item by item and step by step. If the other tree shows no operator at its edges, as
one in parentheses, the operators around the variable keep their operands.
-/

namespace Formula

open Text

namespace Row

def substituteItem (x : String) (r : Row) (i : Located Item) : Row :=
  match i.value with
  | .variable name => if AsciiCase.Same name x then r else [i]
  | _ => [i]

def substitute (x : String) (r row : Row) : Row := row.flatMap (substituteItem x r)

end Row

namespace Program

def substituteStep (x : String) (r : Program) (i : Located Instr) : Program :=
  match i.value with
  | .load name => if AsciiCase.Same name x then r else [i]
  | _ => [i]

/-- The program with the steps `r` in the place of every step that loads `x`. -/
def substitute (x : String) (r program : Program) : Program :=
  program.flatMap (substituteStep x r)

end Program

mutual

def Expr.substitute (x : String) (r : Expr) : Expr → Expr
  | .constant v p => .constant v p
  | .variable name p => if AsciiCase.Same name x then r else .variable name p
  | .callEmpty name p opened closed => .callEmpty name p opened closed
  | .call name p opened args closed => .call name p opened (Args.substitute x r args) closed
  | .group opened e closed => .group opened (Expr.substitute x r e) closed
  | .prefixOp op p e => .prefixOp op p (Expr.substitute x r e)
  | .suffixOp e op p => .suffixOp (Expr.substitute x r e) op p
  | .infixOp left op p right => .infixOp (Expr.substitute x r left) op p (Expr.substitute x r right)
  | .element collection opened index closed =>
    .element (Expr.substitute x r collection) opened (Expr.substitute x r index) closed

def Args.substitute (x : String) (r : Expr) : Args → Args
  | .one e => .one (Expr.substitute x r e)
  | .more before comma e => .more (Args.substitute x r before) comma (Expr.substitute x r e)

end

namespace Row

theorem substitute_append (x : String) (r first second : Row) :
    substitute x r (first ++ second) = substitute x r first ++ substitute x r second :=
  List.flatMap_append

theorem substitute_cons (x : String) (r : Row) (i : Located Item) (row : Row) :
    substitute x r (i :: row) = substituteItem x r i ++ substitute x r row :=
  List.flatMap_cons

theorem substitute_singleton (x : String) (r : Row) (i : Located Item) :
    substitute x r [i] = substituteItem x r i := by
  rw [substitute, List.flatMap_singleton]

end Row

mutual

theorem Expr.items_substitute (x : String) (r e : Expr) :
    (Expr.substitute x r e).items = Row.substitute x r.items e.items := by
  match e with
  | .constant v p => rfl
  | .variable name p =>
    rw [Expr.substitute, Expr.items, Row.substitute_singleton, Row.substituteItem]
    dsimp only
    split <;> rfl
  | .callEmpty name p opened closed => rfl
  | .call name p opened args closed =>
    have hargs := Args.items_substitute x r args
    simp only [Expr.substitute, Expr.items, Row.substitute_cons, Row.substitute_append, hargs]
    rfl
  | .group opened e closed =>
    have he := Expr.items_substitute x r e
    simp only [Expr.substitute, Expr.items, Row.substitute_cons, Row.substitute_append, he]
    rfl
  | .prefixOp op p e =>
    have he := Expr.items_substitute x r e
    simp only [Expr.substitute, Expr.items, Row.substitute_cons, he]
    rfl
  | .suffixOp e op p =>
    have he := Expr.items_substitute x r e
    simp only [Expr.substitute, Expr.items, Row.substitute_append, he]
    rfl
  | .infixOp left op p right =>
    have hleft := Expr.items_substitute x r left
    have hright := Expr.items_substitute x r right
    simp only [Expr.substitute, Expr.items, Row.substitute_cons, Row.substitute_append, hleft,
      hright]
    rfl
  | .element collection opened index closed =>
    have hcollection := Expr.items_substitute x r collection
    have hindex := Expr.items_substitute x r index
    simp only [Expr.substitute, Expr.items, Row.substitute_cons, Row.substitute_append,
      hcollection, hindex]
    rfl

theorem Args.items_substitute (x : String) (r : Expr) (args : Args) :
    (Args.substitute x r args).items = Row.substitute x r.items args.items := by
  match args with
  | .one e => exact Expr.items_substitute x r e
  | .more before comma e =>
    have hbefore := Args.items_substitute x r before
    have he := Expr.items_substitute x r e
    simp only [Args.substitute, Args.items, Row.substitute_cons, Row.substitute_append, hbefore,
      he]
    rfl

end

namespace Program

theorem substitute_append (x : String) (r first second : Program) :
    substitute x r (first ++ second) = substitute x r first ++ substitute x r second :=
  List.flatMap_append

theorem substitute_singleton (x : String) (r : Program) (i : Located Instr) :
    substitute x r [i] = substituteStep x r i := by
  rw [substitute, List.flatMap_singleton]

end Program

theorem Args.size_substitute (x : String) (r : Expr) (args : Args) :
    (Args.substitute x r args).size = args.size := by
  match args with
  | .one e => rfl
  | .more before comma e => exact congrArg (· + 1) (before.size_substitute x r)

mutual

theorem Expr.program_substitute (x : String) (r e : Expr) :
    (Expr.substitute x r e).program = Program.substitute x r.program e.program := by
  match e with
  | .constant v p => rfl
  | .variable name p =>
    rw [Expr.substitute, Expr.program, Program.substitute_singleton, Program.substituteStep]
    dsimp only
    split <;> rfl
  | .callEmpty name p opened closed => rfl
  | .call name p opened args closed =>
    have hargs := Args.program_substitute x r args
    simp only [Expr.substitute, Expr.program, Program.substitute_append, hargs,
      args.size_substitute]
    rfl
  | .group opened e closed => exact Expr.program_substitute x r e
  | .prefixOp op p e =>
    have he := Expr.program_substitute x r e
    simp only [Expr.substitute, Expr.program, Program.substitute_append, he]
    rfl
  | .suffixOp e op p =>
    have he := Expr.program_substitute x r e
    simp only [Expr.substitute, Expr.program, Program.substitute_append, he]
    rfl
  | .infixOp left op p right =>
    have hleft := Expr.program_substitute x r left
    have hright := Expr.program_substitute x r right
    simp only [Expr.substitute, Expr.program, Program.substitute_append, hleft, hright]
    rfl
  | .element collection opened index closed =>
    have hcollection := Expr.program_substitute x r collection
    have hindex := Expr.program_substitute x r index
    simp only [Expr.substitute, Expr.program, Program.substitute_append, hcollection, hindex]
    rfl

theorem Args.program_substitute (x : String) (r : Expr) (args : Args) :
    (Args.substitute x r args).program = Program.substitute x r.program args.program := by
  match args with
  | .one e => exact Expr.program_substitute x r e
  | .more before comma e =>
    have hbefore := Args.program_substitute x r before
    have he := Expr.program_substitute x r e
    simp only [Args.substitute, Args.program, Program.substitute_append, hbefore, he]

end

theorem Expr.leftEdge_substitute (x : String) {r : Expr} (hr : r.leftEdge = []) (e : Expr) :
    (Expr.substitute x r e).leftEdge = e.leftEdge := by
  match e with
  | .constant v p => rfl
  | .variable name p =>
    rw [Expr.substitute]
    split
    · exact hr
    · rfl
  | .callEmpty name p opened closed => rfl
  | .call name p opened args closed => rfl
  | .group opened e closed => rfl
  | .prefixOp op p e => rfl
  | .suffixOp e op p => exact congrArg (_ :: ·) (Expr.leftEdge_substitute x hr e)
  | .infixOp left op p right => exact congrArg (_ :: ·) (Expr.leftEdge_substitute x hr left)
  | .element collection opened index closed =>
    exact congrArg (_ :: ·) (Expr.leftEdge_substitute x hr collection)

theorem Expr.rightEdge_substitute (x : String) {r : Expr} (hr : r.rightEdge = []) (e : Expr) :
    (Expr.substitute x r e).rightEdge = e.rightEdge := by
  match e with
  | .constant v p => rfl
  | .variable name p =>
    rw [Expr.substitute]
    split
    · exact hr
    · rfl
  | .callEmpty name p opened closed => rfl
  | .call name p opened args closed => rfl
  | .group opened e closed => rfl
  | .prefixOp op p e => exact congrArg (_ :: ·) (Expr.rightEdge_substitute x hr e)
  | .suffixOp e op p => rfl
  | .infixOp left op p right => exact congrArg (_ :: ·) (Expr.rightEdge_substitute x hr right)
  | .element collection opened index closed => rfl

namespace Expr.Closed

variable {r : Expr} (hr : r.Closed)
include hr

theorem takesLeft (x : String) {op : Operator} {e : Expr} (h : op.TakesLeft e) :
    op.TakesLeft (Expr.substitute x r e) := by
  rw [Operator.TakesLeft, Expr.rightEdge_substitute x hr.rightEdge]
  exact h

theorem takesRight (x : String) {op : Operator} {e : Expr} (h : op.TakesRight e) :
    op.TakesRight (Expr.substitute x r e) := by
  rw [Operator.TakesRight, Expr.leftEdge_substitute x hr.leftEdge]
  exact h

end Expr.Closed

mutual

theorem Expr.grouped_substitute (x : String) {r : Expr} (hr : r.Closed) {e : Expr}
    (he : e.Grouped) : (Expr.substitute x r e).Grouped := by
  match e with
  | .constant v p => trivial
  | .variable name p =>
    rw [Expr.substitute]
    split
    · exact hr.grouped
    · trivial
  | .callEmpty name p opened closed => trivial
  | .call name p opened args closed => exact Args.grouped_substitute x hr he
  | .group opened e closed => exact Expr.grouped_substitute x hr (e := e) he
  | .prefixOp op p e => exact ⟨Expr.grouped_substitute x hr he.1, hr.takesRight x he.2⟩
  | .suffixOp e op p => exact ⟨Expr.grouped_substitute x hr he.1, hr.takesLeft x he.2⟩
  | .infixOp left op p right =>
    obtain ⟨hleft, hright, htl, htr⟩ := he
    exact ⟨Expr.grouped_substitute x hr hleft, Expr.grouped_substitute x hr hright,
      hr.takesLeft x htl, hr.takesRight x htr⟩
  | .element collection opened index closed =>
    obtain ⟨hcollection, hindex, htl⟩ := he
    exact ⟨Expr.grouped_substitute x hr hcollection, Expr.grouped_substitute x hr hindex,
      hr.takesLeft x htl⟩

theorem Args.grouped_substitute (x : String) {r : Expr} (hr : r.Closed) {args : Args}
    (ha : args.Grouped) : (Args.substitute x r args).Grouped := by
  match args with
  | .one e => exact Expr.grouped_substitute x hr (e := e) ha
  | .more before comma e =>
    exact ⟨Args.grouped_substitute x hr ha.1, Expr.grouped_substitute x hr ha.2⟩

end

end Formula
