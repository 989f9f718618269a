import Formula.Proofs.Expression.Arranging
import Mathlib.Tactic.SplitIfs

/-!
# Renaming

Arranging items looks neither at the names of variables and functions nor at the positions of the
items: the program of a row with other names at other positions is the program of the row with
these other names and positions. A row that makes no program makes none then, with the same error at
the position that the item has got.
-/

namespace Formula

def Located.map {α β : Type} (f : α → β) (x : Located α) : Located β := ⟨f x.value, x.position⟩

def Located.relabel {α β : Type} (f : α → β) (g : Text.Position → Text.Position) (x : Located α) :
    Located β := ⟨f x.value, g x.position⟩

def SyntaxError.move (g : Text.Position → Text.Position) (e : SyntaxError) : SyntaxError :=
  ⟨e.fault, g e.position⟩

section

variable (f : String → String)

def Item.rename : Item → Item
  | .variable name => .variable (f name)
  | .function name => .function (f name)
  | i => i

def Instr.rename : Instr → Instr
  | .load name => .load (f name)
  | .call name arguments => .call (f name) arguments
  | i => i

def Row.rename (row : Row) : Row := row.map (Located.map (Item.rename f))

def Program.rename (program : Program) : Program := program.map (Located.map (Instr.rename f))

variable (g : Text.Position → Text.Position)

def Row.relabel (row : Row) : Row := row.map (Located.relabel (Item.rename f) g)

def Program.relabel (program : Program) : Program :=
  program.map (Located.relabel (Instr.rename f) g)

def Held.relabel : Held → Held
  | .operator op p => .operator op (g p)
  | .group opened function commas =>
    .group (g opened) (function.map (Located.relabel f g)) commas
  | .bracket opened => .bracket (g opened)

def Arranging.relabel (a : Arranging) : Arranging :=
  { a with
    stack := a.stack.map (Held.relabel f g)
    function := a.function.map (Located.relabel f g) }

end

variable {f : String → String} {g : Text.Position → Text.Position}

namespace Program

theorem rename_cons (i : Located Instr) (steps : Program) :
    rename f (i :: steps) = i.map (Instr.rename f) :: rename f steps := rfl

theorem relabel_append (first second : Program) :
    relabel f g (first ++ second) = relabel f g first ++ relabel f g second :=
  List.map_append

end Program

namespace Held

theorem popWhile_relabel (P : Operator → Prop) [DecidablePred P] (stack : List Held) :
    popWhile P (stack.map (relabel f g)) =
      ((popWhile P stack).1.relabel f g, (popWhile P stack).2.map (relabel f g)) := by
  induction stack with
  | nil => rfl
  | cons held below ih =>
    cases held with
    | operator op p =>
      simp only [List.map_cons, relabel, popWhile, ih]
      split_ifs <;> rfl
    | group opened function commas => rfl
    | bracket opened => rfl

theorem release_relabel (stack : List Held) : release (stack.map (relabel f g)) =
    ((release stack).1.relabel f g, (release stack).2.map (relabel f g)) := by
  rw [release_eq_popWhile, release_eq_popWhile, popWhile_relabel]

theorem yield_relabel (incoming : Operator) (stack : List Held) :
    yield incoming (stack.map (relabel f g)) =
      ((yield incoming stack).1.relabel f g, (yield incoming stack).2.map (relabel f g)) := by
  rw [yield_eq_popWhile, yield_eq_popWhile, popWhile_relabel]

theorem close_relabel (stack : List Held) : close (stack.map (relabel f g)) =
    ((close stack).map (Program.relabel f g)).mapError (SyntaxError.move g) := by
  induction stack with
  | nil => rfl
  | cons held below ih =>
    cases held with
    | operator op p =>
      simp only [List.map_cons, relabel, close, ih]
      cases close below <;> rfl
    | group opened function commas => rfl
    | bracket opened => rfl

end Held

namespace Arranging

/-- The outcome of a step under other names and at other positions. -/
def Step.relabel (f : String → String) (g : Text.Position → Text.Position) (r : Step) : Step :=
  r.map (Prod.map (Program.relabel f g) (Arranging.relabel f g))

theorem Step.ok_append_relabel (first second : Program) (b : Arranging) :
    (.ok (first.relabel f g ++ second.relabel f g, b) : Step) =
      .ok ((first ++ second).relabel f g, b) := by
  rw [Program.relabel_append]

variable (a : Arranging)

theorem operand_relabel (i : Located Instr) :
    (a.relabel f g).operand (i.relabel (Instr.rename f) g) = Step.relabel f g (a.operand i) := by
  obtain ⟨stack, function, due, justOpened⟩ := a
  cases due <;> rfl

theorem openParen_relabel (p : Text.Position) :
    (a.relabel f g).openParen (g p) = Step.relabel f g (a.openParen p) := by
  obtain ⟨stack, function, due, justOpened⟩ := a
  cases due <;> rfl

theorem comma_relabel : (a.relabel f g).comma = Step.relabel f g a.comma := by
  obtain ⟨stack, function, due, justOpened⟩ := a
  cases due with
  | true => rfl
  | false =>
    simp only [comma, Arranging.relabel, Held.release_relabel]
    obtain ⟨steps, rest⟩ := Held.release stack
    cases rest with
    | nil => rfl
    | cons held below =>
      cases held with
      | operator op p => rfl
      | group p function commas => cases function <;> rfl
      | bracket p => rfl

theorem closeParen_relabel : (a.relabel f g).closeParen = Step.relabel f g a.closeParen := by
  obtain ⟨stack, function, due, justOpened⟩ := a
  simp only [closeParen, Arranging.relabel, Held.release_relabel]
  obtain ⟨steps, rest⟩ := Held.release stack
  cases rest with
  | nil => rfl
  | cons held below =>
    cases held with
    | operator op p => rfl
    | bracket p => rfl
    | group p function commas =>
      cases function with
      | none => cases due <;> rfl
      | some name =>
        have hcall (arguments : Nat) (b : Arranging) :=
          Step.ok_append_relabel (f := f) (g := g) steps
            [⟨.call name.value arguments, name.position⟩] b
        cases due <;> cases justOpened
        · exact hcall (commas + 1) _
        · exact hcall 0 _
        · rfl
        · exact hcall 0 _

theorem openBracket_relabel (p : Text.Position) :
    (a.relabel f g).openBracket (g p) = Step.relabel f g (a.openBracket p) := by
  obtain ⟨stack, function, due, justOpened⟩ := a
  cases due <;> rfl

theorem closeBracket_relabel :
    (a.relabel f g).closeBracket = Step.relabel f g a.closeBracket := by
  obtain ⟨stack, function, due, justOpened⟩ := a
  cases due with
  | true => rfl
  | false =>
    simp only [closeBracket, Arranging.relabel, Held.release_relabel]
    obtain ⟨steps, rest⟩ := Held.release stack
    cases rest with
    | nil => rfl
    | cons held below =>
      cases held with
      | operator op p => rfl
      | group p function commas => rfl
      | bracket p => exact Step.ok_append_relabel steps [⟨.apply .element, p⟩] _

theorem suffixOp_relabel (op : SuffixOp) (p : Text.Position) :
    (a.relabel f g).suffixOp op (g p) = Step.relabel f g (a.suffixOp op p) := by
  obtain ⟨stack, function, due, justOpened⟩ := a
  cases due with
  | true => rfl
  | false =>
    simp only [suffixOp, Arranging.relabel, Held.yield_relabel]
    exact Step.ok_append_relabel _ [⟨.apply (.suffixOp op), p⟩] _

theorem prefixOp_relabel (op : PrefixOp) (p : Text.Position) :
    (a.relabel f g).prefixOp op (g p) = Step.relabel f g (a.prefixOp op p) := by
  obtain ⟨stack, function, due, justOpened⟩ := a
  cases due <;> rfl

theorem infixOp_relabel (op : InfixOp) (p : Text.Position) :
    (a.relabel f g).infixOp op (g p) = Step.relabel f g (a.infixOp op p) := by
  obtain ⟨stack, function, due, justOpened⟩ := a
  cases due with
  | true => rfl
  | false =>
    simp only [infixOp, Arranging.relabel, Held.yield_relabel]
    rfl

theorem step_relabel (i : Located Item) :
    (a.relabel f g).step (i.relabel (Item.rename f) g) = Step.relabel f g (a.step i) := by
  obtain ⟨item, p⟩ := i
  cases item with
  | constant v => exact a.operand_relabel ⟨.push v, p⟩
  | «variable» name => exact a.operand_relabel ⟨.load name, p⟩
  | function name =>
    obtain ⟨stack, function, due, justOpened⟩ := a
    cases due <;> rfl
  | openParen => exact a.openParen_relabel p
  | closeParen => exact a.closeParen_relabel
  | openBracket => exact a.openBracket_relabel p
  | closeBracket => exact a.closeBracket_relabel
  | comma => exact a.comma_relabel
  | infixOp op => exact a.infixOp_relabel op p
  | prefixOp op => exact a.prefixOp_relabel op p
  | suffixOp op => exact a.suffixOp_relabel op p

theorem finish_relabel (last : Option Text.Position) : (a.relabel f g).finish (last.map g) =
    ((a.finish last).map (Program.relabel f g)).mapError (SyntaxError.move g) := by
  obtain ⟨stack, function, due, justOpened⟩ := a
  have hclose := Held.close_relabel (f := f) (g := g) stack
  cases last with
  | none => exact hclose
  | some p =>
    cases due with
    | true => rfl
    | false => exact hclose

theorem run_relabel (last : Option Text.Position) (row : Row) :
    (a.relabel f g).run (last.map g) (row.relabel f g) =
      ((a.run last row).map (Program.relabel f g)).mapError (SyntaxError.move g) := by
  induction row generalizing a last with
  | nil => exact a.finish_relabel last
  | cons i row ih =>
    rw [Row.relabel, List.map_cons, ← Row.relabel, run, run, step_relabel]
    cases a.step i with
    | error fault => rfl
    | ok next =>
      obtain ⟨steps, b⟩ := next
      have hrest := ih b (some i.position)
      rw [Option.map_some] at hrest
      simp only [Step.relabel, Except.map, Prod.map, Located.relabel, hrest]
      cases b.run (some i.position) row with
      | error e => rfl
      | ok more => exact congrArg Except.ok (Program.relabel_append steps more).symm

end Arranging

namespace Program

/-- A row with other names at other positions has the same program with these names and positions,
or the same error. -/
theorem ofItems_relabel (row : Row) : ofItems (row.relabel f g) =
    ((ofItems row).map (relabel f g)).mapError (SyntaxError.move g) :=
  Arranging.run_relabel {} none row

/-- A row under other names has the same program under these names, or the same error. -/
theorem ofItems_rename (row : Row) :
    ofItems (row.rename f) = (ofItems row).map (Program.rename f) := by
  have hplaces := ofItems_relabel (f := f) (g := id) row
  cases hrow : ofItems row <;> rw [hrow] at hplaces <;> exact hplaces

theorem exists_ofItems_of_values_eq {row row' : Row} {program : Program}
    (h : ofItems row = .ok program)
    (hvalues : row'.map Located.value = row.map Located.value) :
    ∃ program', ofItems row' = .ok program' ∧
      program'.map Located.value = program.map Located.value := by
  have hplaced : ∀ row : Row, row.relabel id (fun _ => {}) =
      (row.map Located.value).map fun i => ⟨i.rename id, {}⟩ := by
    intro row
    rw [Row.relabel, List.map_map]
    rfl
  have hrow := ofItems_relabel (f := id) (g := fun _ => {}) row
  have hrow' := ofItems_relabel (f := id) (g := fun _ => {}) row'
  rw [hplaced, hvalues, ← hplaced, hrow, h] at hrow'
  cases hresult : ofItems row' with
  | error e =>
    rw [hresult] at hrow'
    cases hrow'
  | ok program' =>
    rw [hresult] at hrow'
    have hsteps : program.relabel id (fun _ => {}) = program'.relabel id fun _ => {} :=
      Except.ok.inj hrow'
    refine ⟨program', rfl, ?_⟩
    have hvalue : ∀ steps : Program,
        (steps.relabel id fun _ => {}).map Located.value = steps.map Located.value := by
      intro steps
      rw [relabel, List.map_map]
      refine List.map_congr_left fun i _ => ?_
      obtain ⟨value, p⟩ := i
      cases value <;> rfl
    rw [← hvalue program, hsteps, hvalue]

end Program

end Formula
