import Formula.Proofs.Expression.Grammar

/-!
# Arranging part of a row

What the items of a row set free before its end is known, and what they leave on the stack.
Every row of the grammar is taken in where an operand is due, and the brackets that were open
before it are open after it.
-/

namespace Formula

namespace Held

/-- Gives out operators from the top for as long as `P` holds of them. -/
def popWhile (P : Operator → Prop) [DecidablePred P] : List Held → Program × List Held
  | .operator op p :: below =>
    if P op then (⟨.apply op, p⟩ :: (popWhile P below).1, (popWhile P below).2)
    else ([], .operator op p :: below)
  | stack => ([], stack)

theorem release_eq_popWhile (stack : List Held) : release stack = popWhile (fun _ => True) stack := by
  induction stack with
  | nil => rfl
  | cons h below ih =>
    cases h with
    | operator op p => rw [release, ih, popWhile, if_pos trivial]
    | group opened function commas => rfl
    | bracket opened => rfl

theorem yield_eq_popWhile (incoming : Operator) (stack : List Held) :
    yield incoming stack = popWhile (fun held => held.Yields incoming) stack := by
  induction stack with
  | nil => rfl
  | cons h below ih =>
    cases h with
    | operator op p => rw [yield, ih, popWhile]
    | group opened function commas => rfl
    | bracket opened => rfl

def brackets (stack : List Held) : List Held := (release stack).2

@[simp] theorem brackets_operator (op : Operator) (p : Text.Position) (below : List Held) :
    brackets (.operator op p :: below) = brackets below := rfl

theorem brackets_popWhile (P : Operator → Prop) [DecidablePred P] (stack : List Held) :
    brackets (popWhile P stack).2 = brackets stack := by
  induction stack with
  | nil => rfl
  | cons h below ih =>
    cases h with
    | operator op p =>
      rw [popWhile]
      split
      · exact ih
      · rfl
    | group opened function commas => rfl
    | bracket opened => rfl

theorem brackets_yield (incoming : Operator) (stack : List Held) :
    brackets (yield incoming stack).2 = brackets stack := by
  rw [yield_eq_popWhile, brackets_popWhile]

theorem close_of_brackets_eq_nil {stack : List Held} (h : brackets stack = []) :
    close stack = .ok (release stack).1 := by
  induction stack with
  | nil => rfl
  | cons held below ih =>
    cases held with
    | operator op p => rw [close, ih h]; rfl
    | group opened function commas => cases h
    | bracket opened => cases h

theorem brackets_eq_nil_of_close {stack : List Held} {program : Program}
    (h : close stack = .ok program) : brackets stack = [] := by
  induction stack generalizing program with
  | nil => rfl
  | cons held below ih =>
    cases held with
    | operator op p =>
      rw [close] at h
      split at h
      · next hbelow => exact ih hbelow
      · cases h
    | group opened function commas => cases h
    | bracket opened => cases h

end Held

namespace Arranging

/-- The steps that a part of a row sets free, and the state after it. -/
def feed (a : Arranging) : Row → Except SyntaxError (Program × Arranging)
  | [] => .ok ([], a)
  | i :: row =>
    match a.step i with
    | .error fault => .error ⟨fault, i.position⟩
    | .ok (steps, b) =>
      match feed b row with
      | .ok (more, c) => .ok (steps ++ more, c)
      | .error e => .error e

theorem exists_of_feed_cons {a c : Arranging} {i : Located Item} {row : Row} {program : Program}
    (h : a.feed (i :: row) = .ok (program, c)) :
    ∃ steps b more, a.step i = .ok (steps, b) ∧ b.feed row = .ok (more, c) ∧
      program = steps ++ more := by
  rw [feed] at h
  split at h
  · cases h
  · next steps b hs =>
    split at h
    · next more c hf =>
      cases h
      exact ⟨steps, b, more, hs, hf, rfl⟩
    · cases h

theorem feed_cons {a b c : Arranging} {i : Located Item} {row : Row} {steps more : Program}
    (hs : a.step i = .ok (steps, b)) (hf : b.feed row = .ok (more, c)) :
    a.feed (i :: row) = .ok (steps ++ more, c) := by
  rw [feed, hs]
  dsimp only
  rw [hf]

theorem feed_append {a b c : Arranging} {row rest : Row} {steps more : Program}
    (hf : a.feed row = .ok (steps, b)) (hg : b.feed rest = .ok (more, c)) :
    a.feed (row ++ rest) = .ok (steps ++ more, c) := by
  induction row generalizing a steps with
  | nil =>
    cases hf
    exact hg
  | cons i row ih =>
    rw [feed] at hf
    split at hf
    · cases hf
    · next first a' hs =>
      split at hf
      · next second b' hrow =>
        cases hf
        rw [List.append_assoc]
        exact feed_cons hs (ih hrow)
      · cases hf

def endOf (last : Option Text.Position) : Row → Option Text.Position
  | [] => last
  | i :: row => endOf (some i.position) row

theorem endOf_eq_some (p : Text.Position) (row : Row) : ∃ q, endOf (some p) row = some q := by
  induction row generalizing p with
  | nil => exact ⟨p, rfl⟩
  | cons i row ih => exact ih i.position

/-- A row is arranged item by item, and finished at its last item. -/
theorem run_eq_feed (a : Arranging) (last : Option Text.Position) (row : Row) :
    a.run last row =
      match a.feed row with
      | .error e => .error e
      | .ok (steps, b) => (b.finish (endOf last row)).map (steps ++ ·) := by
  induction row generalizing a last with
  | nil =>
    rw [run, feed, endOf]
    dsimp only
    cases a.finish last <;> rfl
  | cons i row ih =>
    rw [run, feed, endOf]
    cases hs : a.step i with
    | error fault => rfl
    | ok next =>
      obtain ⟨steps, b⟩ := next
      dsimp only
      rw [ih]
      cases hf : b.feed row with
      | error e => rfl
      | ok next =>
        obtain ⟨more, c⟩ := next
        dsimp only
        cases c.finish (endOf (some i.position) row) with
        | error e => rfl
        | ok rest => exact congrArg Except.ok (List.append_assoc ..).symm

theorem feed_of_run {a : Arranging} {row : Row} {program : Program} {last : Option Text.Position}
    (h : a.run last row = .ok program) :
    ∃ steps b more, a.feed row = .ok (steps, b) ∧ b.finish (endOf last row) = .ok more ∧
      program = steps ++ more := by
  rw [run_eq_feed] at h
  split at h
  · cases h
  · next steps b hf =>
    cases hb : b.finish (endOf last row) with
    | error e =>
      rw [hb] at h
      cases h
    | ok more =>
      rw [hb] at h
      cases h
      exact ⟨steps, b, more, hf, hb, rfl⟩

section Closing

variable {a : Arranging} {opened : Text.Position} {f : Located String} {commas : Nat}
  {below : List Held}

theorem release_eq {rest : List Held} (hb : Held.brackets a.stack = rest) :
    Held.release a.stack = ((Held.release a.stack).1, rest) := by
  rw [← hb]
  rfl

theorem closeParen_group (hd : a.operandDue = false)
    (hb : Held.brackets a.stack = .group opened none commas :: below) :
    a.closeParen = .ok ((Held.release a.stack).1, a.operandDone below) := by
  rw [closeParen, release_eq hb]
  simp only [hd, Bool.false_eq_true, if_false]

theorem closeParen_call (hd : a.operandDue = false) (hj : a.justOpened = false)
    (hb : Held.brackets a.stack = .group opened (some f) commas :: below) :
    a.closeParen = .ok ((Held.release a.stack).1 ++ [⟨.call f.value (commas + 1), f.position⟩],
      a.operandDone below) := by
  rw [closeParen, release_eq hb]
  simp only [hd, hj, Bool.false_and, Bool.false_eq_true, if_false]

theorem closeParen_callEmpty (hj : a.justOpened = true)
    (hb : Held.brackets a.stack = .group opened (some f) commas :: below) :
    a.closeParen = .ok ((Held.release a.stack).1 ++ [⟨.call f.value 0, f.position⟩],
      a.operandDone below) := by
  rw [closeParen, release_eq hb]
  simp only [hj, Bool.not_true, Bool.and_false, Bool.false_eq_true, if_false, if_true]

theorem comma_call (hd : a.operandDue = false)
    (hb : Held.brackets a.stack = .group opened (some f) commas :: below) :
    a.comma = .ok ((Held.release a.stack).1,
      a.awaitOperand (.group opened (some f) (commas + 1) :: below)) := by
  rw [comma, release_eq hb]
  simp only [hd, Bool.false_eq_true, if_false]

theorem closeBracket_bracket (hd : a.operandDue = false)
    (hb : Held.brackets a.stack = .bracket opened :: below) :
    a.closeBracket = .ok ((Held.release a.stack).1 ++ [⟨.apply .element, opened⟩],
      a.operandDone below) := by
  rw [closeBracket, release_eq hb]
  simp only [hd, Bool.false_eq_true, if_false]

end Closing

/-- An operand is due, and no function waits for its parenthesis. -/
structure Ready (a : Arranging) : Prop where
  due : a.operandDue = true
  function : a.function = none

/-- An operand was read last, and the open brackets are `open`. -/
structure Filled (a : Arranging) (brackets : List Held) : Prop where
  due : a.operandDue = false
  function : a.function = none
  justOpened : a.justOpened = false
  brackets : Held.brackets a.stack = brackets

/-- The row fills the place of an operand that is due. -/
def Fills (row : Row) : Prop :=
  ∀ a : Arranging, a.Ready →
    ∃ steps b, a.feed row = .ok (steps, b) ∧ b.Filled (Held.brackets a.stack)

/-- The row fills the parentheses of a call. -/
def FillsCall (row : Row) : Prop :=
  ∀ (a : Arranging) (opened : Text.Position) (f : Located String) (commas : Nat)
    (below : List Held), a.Ready → a.stack = .group opened (some f) commas :: below →
    ∃ steps b commas', a.feed row = .ok (steps, b) ∧
      b.Filled (.group opened (some f) commas' :: below)

theorem feed_singleton {a b : Arranging} {i : Located Item} {steps : Program}
    (hs : a.step i = .ok (steps, b)) : a.feed [i] = .ok (steps, b) := by
  have h : a.feed [i] = .ok (steps ++ [], b) := feed_cons hs rfl
  rwa [List.append_nil] at h

theorem fills_operand {i : Located Item} {s : Located Instr}
    (hs : ∀ a : Arranging, a.step i = a.operand s) : Fills [i] := by
  intro a ha
  have hi : a.step i = .ok ([s], a.operandDone a.stack) := by
    rw [hs, operand, if_pos ha.due]
  exact ⟨_, _, feed_singleton hi, rfl, ha.function, rfl, rfl⟩

def parenOpened (a : Arranging) (opened : Text.Position) : Arranging :=
  { stack := .group opened a.function 0 :: a.stack, function := none, operandDue := true,
    justOpened := true }

theorem step_openParen {a : Arranging} (hd : a.operandDue = true) (opened : Text.Position) :
    a.step ⟨.openParen, opened⟩ = .ok ([], a.parenOpened opened) := by
  rw [step, openParen, if_pos hd]
  rfl

def named (a : Arranging) (name : String) (p : Text.Position) : Arranging :=
  { a with function := some ⟨name, p⟩, justOpened := false }

theorem step_function {a : Arranging} (hd : a.operandDue = true) (name : String)
    (p : Text.Position) : a.step ⟨.function name, p⟩ = .ok ([], a.named name p) := by
  rw [step]
  dsimp only
  rw [if_pos hd]
  rfl

theorem feed_call {a b : Arranging} {name : String} {p opened : Text.Position} {row : Row}
    {steps : Program} (hd : a.operandDue = true)
    (hf : ((a.named name p).parenOpened opened).feed row = .ok (steps, b)) :
    a.feed (⟨.function name, p⟩ :: ⟨.openParen, opened⟩ :: row) = .ok (steps, b) :=
  feed_cons (step_function hd name p) (feed_cons (step_openParen (a := a.named name p) hd opened) hf)

theorem Fills.group {row : Row} (h : Fills row) (opened closed : Text.Position) :
    Fills (⟨.openParen, opened⟩ :: (row ++ [⟨.closeParen, closed⟩])) := by
  intro a ha
  obtain ⟨steps, b, hf, hb⟩ := h (a.parenOpened opened) ⟨rfl, rfl⟩
  have hbrackets : Held.brackets b.stack = .group opened none 0 :: a.stack := by
    rw [hb.brackets, parenOpened, ha.function]
    rfl
  have hclose : b.step ⟨.closeParen, closed⟩ = _ := closeParen_group hb.due hbrackets
  exact ⟨_, _, feed_cons (step_openParen ha.due opened) (feed_append hf (feed_singleton hclose)),
    rfl, hb.function, rfl, rfl⟩

theorem fills_callEmpty (name : String) (p opened closed : Text.Position) :
    Fills [⟨.function name, p⟩, ⟨.openParen, opened⟩, ⟨.closeParen, closed⟩] := by
  intro a ha
  have hclose : ((a.named name p).parenOpened opened).step ⟨.closeParen, closed⟩ = _ :=
    closeParen_callEmpty (a := (a.named name p).parenOpened opened) rfl rfl
  exact ⟨_, _, feed_call ha.due (feed_singleton hclose), rfl, rfl, rfl, rfl⟩

theorem FillsCall.call {row : Row} (h : FillsCall row) (name : String)
    (p opened closed : Text.Position) :
    Fills (⟨.function name, p⟩ :: ⟨.openParen, opened⟩ :: (row ++ [⟨.closeParen, closed⟩])) := by
  intro a ha
  obtain ⟨steps, b, commas, hf, hb⟩ := h ((a.named name p).parenOpened opened) opened ⟨name, p⟩ 0
    a.stack ⟨rfl, rfl⟩ rfl
  have hclose : b.step ⟨.closeParen, closed⟩ = _ :=
    closeParen_call hb.due hb.justOpened hb.brackets
  exact ⟨_, _, feed_call ha.due (feed_append hf (feed_singleton hclose)), rfl, hb.function, rfl,
    rfl⟩

theorem Fills.prefixOp {row : Row} (h : Fills row) (op : PrefixOp) (p : Text.Position) :
    Fills (⟨.prefixOp op, p⟩ :: row) := by
  intro a ha
  have hop : a.step ⟨.prefixOp op, p⟩ =
      .ok ([], a.awaitOperand (.operator (.prefixOp op) p :: a.stack)) := by
    change a.prefixOp op p = _
    rw [Arranging.prefixOp, if_pos ha.due]
  obtain ⟨steps, b, hf, hb⟩ := h (a.awaitOperand (.operator (.prefixOp op) p :: a.stack))
    ⟨rfl, ha.function⟩
  exact ⟨_, _, feed_cons hop hf, hb⟩

theorem Fills.suffixOp {row : Row} (h : Fills row) (op : SuffixOp) (p : Text.Position) :
    Fills (row ++ [⟨.suffixOp op, p⟩]) := by
  intro a ha
  obtain ⟨steps, b, hf, hb⟩ := h a ha
  have hop : b.step ⟨.suffixOp op, p⟩ =
      .ok ((Held.yield (.suffixOp op) b.stack).1 ++ [⟨.apply (.suffixOp op), p⟩],
        b.operandDone (Held.yield (.suffixOp op) b.stack).2) := by
    change b.suffixOp op p = _
    rw [Arranging.suffixOp, hb.due]
    rfl
  refine ⟨_, _, feed_append hf (feed_singleton hop), rfl, hb.function, rfl, ?_⟩
  exact (Held.brackets_yield _ _).trans hb.brackets

theorem Fills.infixOp {left right : Row} (hl : Fills left) (hr : Fills right) (op : InfixOp)
    (p : Text.Position) : Fills (left ++ ⟨.infixOp op, p⟩ :: right) := by
  intro a ha
  obtain ⟨steps, b, hf, hb⟩ := hl a ha
  let below := (Held.yield (.infixOp op) b.stack).2
  have hop : b.step ⟨.infixOp op, p⟩ = .ok ((Held.yield (.infixOp op) b.stack).1,
      b.awaitOperand (.operator (.infixOp op) p :: below)) := by
    change b.infixOp op p = _
    rw [Arranging.infixOp, hb.due]
    rfl
  obtain ⟨more, c, hg, hc⟩ := hr (b.awaitOperand (.operator (.infixOp op) p :: below))
    ⟨rfl, hb.function⟩
  refine ⟨_, _, feed_append hf (feed_cons hop hg), hc.due, hc.function, hc.justOpened, ?_⟩
  rw [hc.brackets, ← hb.brackets]
  exact Held.brackets_yield _ _

theorem Fills.element {collection index : Row} (hc : Fills collection) (hi : Fills index)
    (opened closed : Text.Position) :
    Fills (collection ++ ⟨.openBracket, opened⟩ :: (index ++ [⟨.closeBracket, closed⟩])) := by
  intro a ha
  obtain ⟨steps, b, hf, hb⟩ := hc a ha
  have hopen : b.step ⟨.openBracket, opened⟩ =
      .ok ([], b.awaitOperand (.bracket opened :: b.stack)) := by
    rw [step, openBracket, hb.due]
    rfl
  obtain ⟨more, c, hg, hin⟩ := hi (b.awaitOperand (.bracket opened :: b.stack)) ⟨rfl, hb.function⟩
  have hclose : c.step ⟨.closeBracket, closed⟩ = _ := closeBracket_bracket hin.due hin.brackets
  exact ⟨_, _, feed_append hf (feed_cons hopen (feed_append hg (feed_singleton hclose))),
    rfl, hin.function, rfl, hb.brackets⟩

theorem Fills.one {row : Row} (h : Fills row) : FillsCall row := by
  intro a opened f commas below ha hs
  obtain ⟨steps, b, hf, hb⟩ := h a ha
  rw [hs] at hb
  exact ⟨steps, b, commas, hf, hb⟩

theorem FillsCall.more {before row : Row} (hbefore : FillsCall before) (h : Fills row)
    (comma : Text.Position) : FillsCall (before ++ ⟨.comma, comma⟩ :: row) := by
  intro a opened f commas below ha hs
  obtain ⟨steps, b, commas, hf, hb⟩ := hbefore a opened f commas below ha hs
  have hcomma : b.step ⟨.comma, comma⟩ = _ := comma_call hb.due hb.brackets
  obtain ⟨more, c, hg, hc⟩ := h (b.awaitOperand (.group opened (some f) (commas + 1) :: below))
    ⟨rfl, hb.function⟩
  exact ⟨_, _, commas + 1, feed_append hf (feed_cons hcomma hg), hc⟩

end Arranging

open Arranging

mutual

/-- Every row of the grammar is taken in where an operand is due. -/
theorem Derives.fills : ∀ {row : Row}, Derives row → Fills row
  | _, .constant v p => fills_operand fun _ => rfl
  | _, .variable name p => fills_operand fun _ => rfl
  | _, .callEmpty name p opened closed => fills_callEmpty name p opened closed
  | _, .call name p opened closed h => h.fillsCall.call name p opened closed
  | _, .group opened closed h => h.fills.group opened closed
  | _, .prefixOp op p h => h.fills.prefixOp op p
  | _, .suffixOp op p h => h.fills.suffixOp op p
  | _, .infixOp op p hl hr => hl.fills.infixOp hr.fills op p
  | _, .element opened closed hc hi => hc.fills.element hi.fills opened closed

theorem DerivesArgs.fillsCall : ∀ {row : Row}, DerivesArgs row → FillsCall row
  | _, .one h => h.fills.one
  | _, .more comma hb h => hb.fillsCall.more h.fills comma

end

end Formula
