import Formula.Proofs.Expression.Climbing
import Formula.Proofs.Expression.Context

/-!
# Arranging and grouped trees agree

While a row is arranged, the state stands for the items read so far: a way into a grouped
tree, and at its end a place where an operand is due, the name of a function, or an operand.
At the end of the row the way closes to the grouped tree of the row. So the programs of rows
are the programs of their grouped trees, and the rows that have one are those of the grammar.
-/

namespace Formula

namespace Context

/-- The states at the end of a way into a tree. -/
def due (c : Context) : Arranging := ⟨c.held, none, true, c.justOpened⟩

def called (c : Context) (name : String) (p : Text.Position) : Arranging :=
  ⟨c.held, some ⟨name, p⟩, true, false⟩

def filled (c : Context) : Arranging := ⟨c.held, none, false, false⟩

theorem filled_stack (c : Context) : c.filled.stack = c.held := rfl

end Context

/-- The items read, the steps given out and the state belong to one unfinished grouped tree. -/
inductive Stands : Row → Program → Arranging → Prop
  | due {c : Context} (hc : c.Grouped) : Stands c.items c.program c.due
  | called {c : Context} (hc : c.Grouped) (name : String) (p : Text.Position) :
    Stands (c.items ++ [⟨.function name, p⟩]) c.program (c.called name p)
  | filled {c : Context} {e : Expr} (h : c.Fits e) (hr : e.rightEdge = []) :
    Stands (c.items ++ e.items) (c.program ++ e.program) c.filled

namespace Stands

variable {row : Row} {program steps : Program} {a b : Arranging} {i : Located Item}

theorem of_eq {row' : Row} {program' : Program} {a' : Arranging} (h : Stands row' program' a')
    (hrow : row = row') (hprogram : program = program') (ha : a = a') : Stands row program a := by
  subst hrow hprogram ha
  exact h

theorem justOpened_of_closeParen (hd : a.operandDue = true)
    (hs : a.closeParen = .ok (steps, b)) : a.justOpened = true := by
  rw [Arranging.closeParen] at hs
  split at hs
  · rw [hd] at hs
    cases hj : a.justOpened with
    | false =>
      rw [hj] at hs
      cases hs
    | true => rfl
  · rw [hd] at hs
    cases hs
  · cases hs

theorem eq_callFirst_of_closeParen {c : Context} (hj : c.justOpened = true)
    (hs : c.due.closeParen = .ok (steps, b)) :
    ∃ name p opened, ∃ d : Context, c = .opening (.callFirst name p opened) :: d := by
  cases c with
  | nil => cases hj
  | cons f d =>
    cases f with
    | pending o => cases hj
    | opening bracket =>
      cases bracket with
      | group opened => cases hs
      | callFirst name p opened => exact ⟨name, p, opened, d, rfl⟩
      | callNext name p opened before comma => cases hj
      | element collection opened => cases hj

theorem step_due {c : Context} (hc : c.Grouped) (hs : c.due.step i = .ok (steps, b)) :
    Stands (c.items ++ [i]) (c.program ++ steps) b := by
  obtain ⟨value, p⟩ := i
  cases value with
  | constant v =>
    cases hs
    exact filled (e := .constant v p) ⟨hc, trivial, c.admits_nil⟩ rfl
  | «variable» name =>
    cases hs
    exact filled (e := .variable name p) ⟨hc, trivial, c.admits_nil⟩ rfl
  | function name =>
    cases hs
    exact (called hc name p).of_eq rfl (List.append_nil _) rfl
  | openParen =>
    cases hs
    exact due (c := .opening (.group p) :: c) ⟨trivial, c.admits_nil, hc⟩
  | closeParen =>
    have hj : c.justOpened = true := justOpened_of_closeParen rfl hs
    obtain ⟨name, q, opened, c, rfl⟩ := eq_callFirst_of_closeParen hj hs
    cases hs
    exact (filled (e := .callEmpty name q opened p) ⟨hc.2.2, trivial, c.admits_nil⟩ rfl).of_eq
      (List.append_assoc ..) (by rw [Context.program, List.append_assoc]; rfl) rfl
  | openBracket => cases hs
  | closeBracket => cases hs
  | comma => cases hs
  | infixOp op => cases hs
  | prefixOp op =>
    cases hs
    exact due (c := .pending (.prefixOp op p) :: c) ⟨trivial, c.admits_nil, hc⟩
  | suffixOp op => cases hs

theorem step_called {c : Context} (hc : c.Grouped) {name : String} {p opened : Text.Position}
    (hs : (c.called name p).step ⟨.openParen, opened⟩ = .ok (steps, b)) :
    Stands (c.items ++ [⟨.function name, p⟩] ++ [⟨.openParen, opened⟩]) (c.program ++ steps) b := by
  cases hs
  exact (due (c := .opening (.callFirst name p opened) :: c) ⟨trivial, c.admits_nil, hc⟩).of_eq
    (List.append_assoc ..) rfl rfl

/-- The operand `e` at the end of `c` becomes `f` when all operators up to the innermost open
bracket, which stands in `d`, get their last operand. -/
structure Completes (c : Context) (e : Expr) (bracket : Opening) (d : Context) (f : Expr) :
    Prop where
  release : Held.release c.held = ((Held.release c.held).1, bracket.held :: d.held)
  opening : bracket.Grouped
  admits : d.Admits bracket.leftEdge
  context : d.Grouped
  operand : f.Grouped
  items : c.items ++ e.items = d.items ++ bracket.items ++ f.items
  program : c.program ++ e.program ++ (Held.release c.held).1 =
    d.program ++ bracket.program ++ f.program

theorem exists_completes {c : Context} {e : Expr} (h : c.Fits e) :
    Held.release c.held = ((Held.release c.held).1, []) ∨
      ∃ bracket d f, Completes c e bracket d f := by
  have hfits := h.absorb fun _ => True
  have hstack := Context.popWhile_held (fun _ => True) c e
  have hitems := Context.items_absorb (fun _ => True) c e
  have hprogram := Context.program_absorb (fun _ => True) c e
  rw [← Held.release_eq_popWhile] at hstack hprogram
  cases hd : (Context.absorb (fun _ => True) c e).1 with
  | nil =>
    rw [hd] at hstack
    exact .inl (Prod.ext rfl hstack)
  | cons frame d =>
    cases frame with
    | pending o => exact absurd trivial (Context.not_of_absorb_eq_pending _ hd)
    | opening bracket =>
      rw [hd] at hfits hstack hitems hprogram
      obtain ⟨hbracket, hadmits, hc⟩ := hfits.context
      exact .inr ⟨bracket, d, _, Prod.ext rfl hstack, hbracket, hadmits, hc, hfits.operand,
        hitems.symm, hprogram.symm⟩

theorem step_closeParen {c : Context} {e : Expr} {p : Text.Position} (h : c.Fits e)
    (hs : c.filled.closeParen = .ok (steps, b)) :
    Stands (c.items ++ e.items ++ [⟨.closeParen, p⟩]) (c.program ++ e.program ++ steps) b := by
  obtain hnil | ⟨bracket, d, f, k⟩ := exists_completes h
  · rw [Arranging.closeParen, c.filled_stack, hnil] at hs
    cases hs
  · rw [Arranging.closeParen, c.filled_stack, k.release] at hs
    cases bracket with
    | group opened =>
      cases hs
      have hs := filled (e := .group opened f p) ⟨k.context, k.operand, d.admits_nil⟩ rfl
      refine hs.of_eq ?_ ?_ rfl
      · rw [k.items]
        simp [Opening.items, Expr.items]
      · rw [k.program]
        simp [Opening.program, Expr.program]
    | callFirst name q opened =>
      cases hs
      have hs := filled (e := .call name q opened (.one f) p) ⟨k.context, k.operand, d.admits_nil⟩
        rfl
      refine hs.of_eq ?_ ?_ rfl
      · rw [k.items]
        simp [Opening.items, Expr.items, Args.items]
      · rw [← List.append_assoc, k.program]
        simp [Opening.program, Expr.program, Args.program, Args.size, Context.filled]
    | callNext name q opened before comma =>
      cases hs
      have hs := filled (e := .call name q opened (.more before comma f) p)
        ⟨k.context, ⟨k.opening, k.operand⟩, d.admits_nil⟩ rfl
      refine hs.of_eq ?_ ?_ rfl
      · rw [k.items]
        simp [Opening.items, Expr.items, Args.items]
      · rw [← List.append_assoc, k.program]
        simp [Opening.program, Expr.program, Args.program, Args.size, Context.filled]
    | element collection opened => cases hs

theorem step_comma {c : Context} {e : Expr} {p : Text.Position} (h : c.Fits e)
    (hs : c.filled.comma = .ok (steps, b)) :
    Stands (c.items ++ e.items ++ [⟨.comma, p⟩]) (c.program ++ e.program ++ steps) b := by
  obtain hnil | ⟨bracket, d, f, k⟩ := exists_completes h
  · rw [Arranging.comma, c.filled_stack, hnil] at hs
    cases hs
  · rw [Arranging.comma, c.filled_stack, k.release] at hs
    cases bracket with
    | group opened => cases hs
    | callFirst name q opened =>
      cases hs
      have hs := due (c := .opening (.callNext name q opened (.one f) p) :: d)
        ⟨k.operand, d.admits_nil, k.context⟩
      refine hs.of_eq ?_ ?_ rfl
      · rw [k.items]
        simp [Opening.items, Context.items, Frame.items, Args.items]
      · rw [k.program]
        simp [Opening.program, Context.program, Frame.program, Args.program]
    | callNext name q opened before comma =>
      cases hs
      have hs := due (c := .opening (.callNext name q opened (.more before comma f) p) :: d)
        ⟨⟨k.opening, k.operand⟩, d.admits_nil, k.context⟩
      refine hs.of_eq ?_ ?_ rfl
      · rw [k.items]
        simp [Opening.items, Context.items, Frame.items, Args.items]
      · rw [k.program]
        simp [Opening.program, Context.program, Frame.program, Args.program]
    | element collection opened => cases hs

theorem step_closeBracket {c : Context} {e : Expr} {p : Text.Position} (h : c.Fits e)
    (hs : c.filled.closeBracket = .ok (steps, b)) :
    Stands (c.items ++ e.items ++ [⟨.closeBracket, p⟩]) (c.program ++ e.program ++ steps) b := by
  obtain hnil | ⟨bracket, d, f, k⟩ := exists_completes h
  · rw [Arranging.closeBracket, c.filled_stack, hnil] at hs
    cases hs
  · rw [Arranging.closeBracket, c.filled_stack, k.release] at hs
    cases bracket with
    | group opened => cases hs
    | callFirst name q opened => cases hs
    | callNext name q opened before comma => cases hs
    | element collection opened =>
      cases hs
      have hs := filled (e := .element collection opened f p)
        ⟨k.context, ⟨k.opening.1, k.operand, k.opening.2⟩, k.admits⟩ rfl
      refine hs.of_eq ?_ ?_ rfl
      · rw [k.items]
        simp [Opening.items, Expr.items]
      · rw [← List.append_assoc, k.program]
        simp [Opening.program, Expr.program]

/-- An operator after an operand takes the operand that is completed by what yields to it. -/
theorem step_operator {c : Context} {e : Expr} (h : c.Fits e) (hr : e.rightEdge = [])
    (op : Operator) : ∃ d f, Held.yield op c.held = ((Held.yield op c.held).1, Context.held d) ∧
      Context.Fits d f ∧ op.TakesLeft f ∧ Context.Admits d (op :: f.leftEdge) ∧
      c.items ++ e.items = d.items ++ f.items ∧
      c.program ++ e.program ++ (Held.yield op c.held).1 = d.program ++ f.program := by
  have hstack := Context.popWhile_held (fun held => held.Yields op) c e
  have hprogram := Context.program_absorb (fun held => held.Yields op) c e
  rw [← Held.yield_eq_popWhile] at hstack hprogram
  refine ⟨_, _, Prod.ext rfl hstack, h.absorb _, ?_, h.admits_yield op,
    (Context.items_absorb _ c e).symm, hprogram.symm⟩
  apply Context.rightEdge_absorb
  intro held hheld
  rw [hr] at hheld
  cases hheld

theorem step_infixOp {c : Context} {e : Expr} {op : InfixOp} {p : Text.Position} (h : c.Fits e)
    (hr : e.rightEdge = []) (hs : c.filled.infixOp op p = .ok (steps, b)) :
    Stands (c.items ++ e.items ++ [⟨.infixOp op, p⟩]) (c.program ++ e.program ++ steps) b := by
  obtain ⟨d, f, hyield, hfits, hleft, hadmits, hitems, hprogram⟩ := step_operator h hr (.infixOp op)
  rw [Arranging.infixOp, c.filled_stack, hyield] at hs
  cases hs
  have hs := due (c := .pending (.infixOp f op p) :: d)
    ⟨⟨hfits.operand, hleft⟩, hadmits, hfits.context⟩
  refine hs.of_eq ?_ hprogram rfl
  rw [hitems]
  exact List.append_assoc ..

theorem step_suffixOp {c : Context} {e : Expr} {op : SuffixOp} {p : Text.Position}
    (h : c.Fits e) (hr : e.rightEdge = []) (hs : c.filled.suffixOp op p = .ok (steps, b)) :
    Stands (c.items ++ e.items ++ [⟨.suffixOp op, p⟩]) (c.program ++ e.program ++ steps) b := by
  obtain ⟨d, f, hyield, hfits, hleft, hadmits, hitems, hprogram⟩ := step_operator h hr (.suffixOp op)
  rw [Arranging.suffixOp, c.filled_stack, hyield] at hs
  cases hs
  have hs := filled (e := .suffixOp f op p) ⟨hfits.context, ⟨hfits.operand, hleft⟩, hadmits⟩ rfl
  refine hs.of_eq ?_ ?_ rfl
  · rw [hitems]
    exact List.append_assoc ..
  · rw [← List.append_assoc, hprogram]
    exact List.append_assoc ..

theorem step_openBracket {c : Context} {e : Expr} {p : Text.Position} (h : c.Fits e)
    (hr : e.rightEdge = []) (hs : c.filled.step ⟨.openBracket, p⟩ = .ok (steps, b)) :
    Stands (c.items ++ e.items ++ [⟨.openBracket, p⟩]) (c.program ++ e.program ++ steps) b := by
  cases hs
  have hleft : Operator.element.TakesLeft e := by
    intro held hheld
    rw [hr] at hheld
    cases hheld
  have hs := due (c := .opening (.element e p) :: c)
    ⟨⟨h.operand, hleft⟩, h.admits_element, h.context⟩
  refine hs.of_eq ?_ ?_ rfl
  · simp [Context.items, Frame.items, Opening.items]
  · simp [Context.program, Frame.program, Opening.program]

theorem step_filled {c : Context} {e : Expr} (h : c.Fits e) (hr : e.rightEdge = [])
    (hs : c.filled.step i = .ok (steps, b)) :
    Stands (c.items ++ e.items ++ [i]) (c.program ++ e.program ++ steps) b := by
  obtain ⟨value, p⟩ := i
  cases value with
  | constant v => cases hs
  | «variable» name => cases hs
  | function name => cases hs
  | openParen => cases hs
  | closeParen => exact step_closeParen h hs
  | openBracket => exact step_openBracket h hr hs
  | closeBracket => exact step_closeBracket h hs
  | comma => exact step_comma h hs
  | infixOp op => exact step_infixOp h hr hs
  | prefixOp op => cases hs
  | suffixOp op => exact step_suffixOp h hr hs

theorem step (h : Stands row program a) (hf : a.function ≠ none → i.value = .openParen)
    (hs : a.step i = .ok (steps, b)) : Stands (row ++ [i]) (program ++ steps) b := by
  cases h with
  | due hc => exact step_due hc hs
  | called hc name p =>
    obtain ⟨value, opened⟩ := i
    obtain rfl : value = .openParen := hf (Option.some_ne_none _)
    exact step_called hc hs
  | filled h hr => exact step_filled h hr hs

theorem eq_function_of_function (h : Stands (row ++ [i]) program a) (hf : a.function ≠ none) :
    ∃ name p, i = ⟨.function name, p⟩ := by
  generalize hrow : row ++ [i] = r at h
  cases h with
  | due hc => exact absurd rfl hf
  | called hc name p => exact ⟨name, p, List.singleton_inj.mp (List.append_inj' hrow rfl).2⟩
  | filled h hr => exact absurd rfl hf

theorem feed {rest : Row} (h : Stands row program a) (hf : a.function ≠ none → rest.StartsOpen)
    (hc : rest.CallsOpen) (hs : a.feed rest = .ok (steps, b)) :
    Stands (row ++ rest) (program ++ steps) b := by
  induction rest generalizing row program a steps with
  | nil =>
    cases hs
    rwa [List.append_nil, List.append_nil]
  | cons i rest ih =>
    obtain ⟨first, next, more, hi, hrest, rfl⟩ := Arranging.exists_of_feed_cons hs
    have hnext := h.step (fun hn => Row.value_of_startsOpen (hf hn)) hi
    have hopen : next.function ≠ none → Row.StartsOpen rest := by
      intro hn
      obtain ⟨name, p, rfl⟩ := hnext.eq_function_of_function hn
      exact hc.1
    have hlast := ih hnext hopen hc.tail hrest
    rwa [List.append_assoc, List.append_assoc] at hlast

end Stands

/-- At the end of a row the way into the tree closes to the tree of the row. -/
theorem Context.Fits.exists_tree {c : Context} {e : Expr} (h : c.Fits e) {more : Program}
    (hclose : Held.close c.held = .ok more) :
    ∃ f : Expr, f.Grouped ∧ f.items = c.items ++ e.items ∧
      f.program = c.program ++ e.program ++ more := by
  have hbrackets := Held.brackets_eq_nil_of_close hclose
  rw [Held.close_of_brackets_eq_nil hbrackets] at hclose
  cases hclose
  have hfits := h.absorb fun _ => True
  have hstack := Context.popWhile_held (fun _ => True) c e
  have hitems := Context.items_absorb (fun _ => True) c e
  have hprogram := Context.program_absorb (fun _ => True) c e
  rw [← Held.release_eq_popWhile] at hstack hprogram
  have hnil : (Context.absorb (fun _ => True) c e).1 = [] :=
    List.map_eq_nil_iff.mp (hstack.symm.trans hbrackets)
  rw [hnil] at hitems hprogram
  exact ⟨_, hfits.operand, hitems, hprogram⟩

namespace Program

/-- An arranged row is the row of a grouped tree and gives the program of the tree. -/
theorem exists_tree_of_ofItems {row : Row} (h : row.CallsOpen) {program : Program}
    (hp : ofItems row = .ok program) :
    (row = [] ∧ program = []) ∨ ∃ e : Expr, e.Grouped ∧ e.items = row ∧ e.program = program := by
  cases row with
  | nil =>
    cases hp
    exact .inl ⟨rfl, rfl⟩
  | cons i row =>
    obtain ⟨steps, b, more, hfeed, hfinish, rfl⟩ := Arranging.feed_of_run hp
    have hstart : Stands [] [] {} := Stands.due (c := []) trivial
    have hstands := hstart.feed (fun hn => absurd rfl hn) h hfeed
    obtain ⟨p, hp⟩ := Arranging.endOf_eq_some i.position row
    rw [Arranging.endOf, hp] at hfinish
    rw [List.nil_append, List.nil_append] at hstands
    generalize hrow : i :: row = r at hstands
    cases hstands with
    | due hc => cases hfinish
    | called hc name q => cases hfinish
    | filled hfits hr =>
      obtain ⟨f, hf, hitems, hprogram⟩ := hfits.exists_tree hfinish
      exact .inr ⟨f, hf, hitems, hprogram⟩

theorem exists_ofItems_of_derives {row : Row} (h : Derives row) :
    ∃ program, ofItems row = .ok program := by
  obtain ⟨steps, b, hfeed, hb⟩ := h.fills {} ⟨rfl, rfl⟩
  have hclose := Held.close_of_brackets_eq_nil hb.brackets
  have hfinish : ∀ last, b.finish last = Held.close b.stack := by
    intro last
    cases last with
    | none => rfl
    | some p => rw [Arranging.finish, hb.due, if_neg Bool.false_ne_true]
  rw [ofItems, Arranging.run_eq_feed, hfeed]
  dsimp only
  rw [hfinish, hclose]
  exact ⟨_, rfl⟩

theorem ofItems_items {e : Expr} (he : e.Grouped) (h : Row.CallsOpen e.items) :
    ofItems e.items = .ok e.program := by
  obtain ⟨program, hp⟩ := exists_ofItems_of_derives e.derives_items
  obtain ⟨hnil, -⟩ | ⟨f, hf, hitems, rfl⟩ := exists_tree_of_ofItems h hp
  · exact absurd hnil e.items_ne_nil
  · rw [hp, hf.eq_of_items_eq he hitems]

theorem exists_ofItems_iff {row : Row} (h : row.CallsOpen) :
    (∃ program, ofItems row = .ok program) ↔ row = [] ∨ Derives row := by
  constructor
  · rintro ⟨program, hp⟩
    obtain ⟨rfl, -⟩ | ⟨e, -, rfl, -⟩ := exists_tree_of_ofItems h hp
    · exact .inl rfl
    · exact .inr e.derives_items
  · rintro (rfl | hd)
    · exact ⟨[], rfl⟩
    · exact exists_ofItems_of_derives hd

theorem ofItems_eq_ok_iff {row : Row} (h : row.CallsOpen) (program : Program) :
    ofItems row = .ok program ↔ (row = [] ∧ program = []) ∨
      ∃ e : Expr, e.Grouped ∧ e.items = row ∧ e.program = program := by
  constructor
  · exact exists_tree_of_ofItems h
  · rintro (⟨rfl, rfl⟩ | ⟨e, he, rfl, rfl⟩)
    · rfl
    · exact ofItems_items he h

theorem toOption_ofItems {row : Row} (h : row.CallsOpen) (hne : row ≠ []) :
    (ofItems row).toOption = (Expr.ofItems? row).map Expr.program := by
  cases hp : ofItems row with
  | ok program =>
    obtain ⟨hnil, -⟩ | ⟨e, he, rfl, rfl⟩ := exists_tree_of_ofItems h hp
    · exact absurd hnil hne
    · rw [Expr.ofItems?_items he]
      rfl
  | error fault =>
    cases he : Expr.ofItems? row with
    | none => rfl
    | some e =>
      obtain rfl := Expr.items_of_ofItems? he
      obtain ⟨program, hok⟩ := exists_ofItems_of_derives e.derives_items
      rw [hp] at hok
      cases hok

/-- Arranging accepts the empty row and the rows of the grammar, and nothing else. What it
gives for a row is the program of the one grouped tree of the row, and it is what reading by
precedence climbing finds, whether the row is accepted or not. -/
theorem ofItems_agrees_with_climbing {row : Row} (h : row.CallsOpen) :
    ((∃ program, ofItems row = .ok program) ↔ row = [] ∨ Derives row) ∧
      (∀ program, ofItems row = .ok program ↔ (row = [] ∧ program = []) ∨
        ∃ e : Expr, e.Grouped ∧ e.items = row ∧ e.program = program) ∧
      (∀ e f : Expr, e.Grouped → f.Grouped → e.items = row → f.items = row → e = f) ∧
      (row ≠ [] → (ofItems row).toOption = (Expr.ofItems? row).map Expr.program) := by
  refine ⟨exists_ofItems_iff h, ofItems_eq_ok_iff h, ?_, toOption_ofItems h⟩
  intro e f he hf hrow hrow'
  exact he.eq_of_items_eq hf (hrow.trans hrow'.symm)

/-- In `NOT f(-x ^ y) IS NULL` the sign takes `x` alone, the suffix takes the call, and `NOT`
takes all of it. -/
theorem ofItems_not_isNull :
    Row.CallsOpen [⟨.prefixOp .not, ⟨1, 1⟩⟩, ⟨.function "f", ⟨1, 5⟩⟩, ⟨.openParen, ⟨1, 6⟩⟩,
        ⟨.prefixOp .negate, ⟨1, 7⟩⟩, ⟨.variable "x", ⟨1, 8⟩⟩, ⟨.infixOp .power, ⟨1, 10⟩⟩,
        ⟨.variable "y", ⟨1, 12⟩⟩, ⟨.closeParen, ⟨1, 13⟩⟩, ⟨.suffixOp .isNull, ⟨1, 15⟩⟩] ∧
      ofItems [⟨.prefixOp .not, ⟨1, 1⟩⟩, ⟨.function "f", ⟨1, 5⟩⟩, ⟨.openParen, ⟨1, 6⟩⟩,
        ⟨.prefixOp .negate, ⟨1, 7⟩⟩, ⟨.variable "x", ⟨1, 8⟩⟩, ⟨.infixOp .power, ⟨1, 10⟩⟩,
        ⟨.variable "y", ⟨1, 12⟩⟩, ⟨.closeParen, ⟨1, 13⟩⟩, ⟨.suffixOp .isNull, ⟨1, 15⟩⟩] =
      .ok [⟨.load "x", ⟨1, 8⟩⟩, ⟨.apply (.prefixOp .negate), ⟨1, 7⟩⟩, ⟨.load "y", ⟨1, 12⟩⟩,
        ⟨.apply (.infixOp .power), ⟨1, 10⟩⟩, ⟨.call "f" 1, ⟨1, 5⟩⟩,
        ⟨.apply (.suffixOp .isNull), ⟨1, 15⟩⟩, ⟨.apply (.prefixOp .not), ⟨1, 1⟩⟩] := by
  let power : Expr := .infixOp (.prefixOp .negate ⟨1, 7⟩ (.variable "x" ⟨1, 8⟩)) .power ⟨1, 10⟩
    (.variable "y" ⟨1, 12⟩)
  let call : Expr := .call "f" ⟨1, 5⟩ ⟨1, 6⟩ (.one power) ⟨1, 13⟩
  let e : Expr := .prefixOp .not ⟨1, 1⟩ (.suffixOp call .isNull ⟨1, 15⟩)
  have he : e.Grouped := by decide
  have hopen : Row.CallsOpen e.items := ⟨trivial, trivial⟩
  exact ⟨hopen, ((ofItems_agrees_with_climbing hopen).2.1 _).mpr (.inr ⟨e, he, rfl, rfl⟩)⟩

end Program

end Formula
