import Formula.Proofs.Expression.Arranging

/-!
# Rows that can go on

Part of a formula is lost if nothing that could follow makes a formula of it. Whatever has been
taken in can still go on: an operand that is due may be any constant in parentheses, and then the
open brackets are closed from the innermost on. So a row is refused at the first item behind which
nothing helps, and at its end only if more items would have helped.
-/

namespace Formula

namespace Arranging

variable {a b : Arranging} {steps : Program} {row : Row} {e : SyntaxError}

theorem feed_append_of_error (h : a.feed row = .error e) (rest : Row) :
    a.feed (row ++ rest) = .error e := by
  induction row generalizing a with
  | nil => cases h
  | cons i row ih =>
    rw [feed] at h
    rw [List.cons_append, feed]
    split at h
    · exact h
    · next steps b hs =>
      split at h
      · cases h
      · next e' hf =>
        rw [ih (hf.trans h)]

theorem feed_append_singleton_error {i : Located Item} {fault : SyntaxFault}
    (hf : a.feed row = .ok (steps, b)) (hs : b.step i = .error fault) :
    a.feed (row ++ [i]) = .error ⟨fault, i.position⟩ := by
  induction row generalizing a steps with
  | nil =>
    cases hf
    rw [List.nil_append, feed, hs]
  | cons j row ih =>
    obtain ⟨first, c, more, hj, hfeed, -⟩ := exists_of_feed_cons hf
    rw [List.cons_append, feed, hj]
    dsimp only
    rw [ih hfeed]

/-- Items that are not all taken in are refused at one of them. -/
theorem exists_refused_of_feed_error (h : a.feed row = .error e) :
    ∃ k steps b i, a.feed (row.take k) = .ok (steps, b) ∧ row[k]? = some i ∧
      b.step i = .error e.fault ∧ e.position = i.position := by
  induction row generalizing a with
  | nil => cases h
  | cons i row ih =>
    rw [feed] at h
    split at h
    · next fault hs =>
      cases h
      exact ⟨0, [], a, i, rfl, rfl, hs, rfl⟩
    · next steps b hs =>
      split at h
      · cases h
      · next e' hf =>
        cases h
        obtain ⟨k, more, c, j, htake, hj⟩ := ih hf
        exact ⟨k + 1, steps ++ more, c, j, feed_cons hs htake, hj⟩

end Arranging

def Held.closing : List Held → Row
  | [] => []
  | .operator _ _ :: below => closing below
  | .group _ _ _ :: below => ⟨.closeParen, {}⟩ :: closing below
  | .bracket _ :: below => ⟨.closeBracket, {}⟩ :: closing below

/-- An operand that fits behind the name of a function too. -/
def Row.filler : Row := [⟨.openParen, {}⟩, ⟨.constant .null, {}⟩, ⟨.closeParen, {}⟩]

namespace Arranging

variable {a b : Arranging} {steps : Program}

/-- An end that makes a formula of whatever led to the state. -/
def completion (a : Arranging) : Row :=
  (if a.operandDue then Row.filler else []) ++ Held.closing a.stack

theorem exists_closeParen {opened : Text.Position} {function : Option (Located String)}
    {commas : Nat} {below : List Held} (hd : a.operandDue = false)
    (hb : Held.brackets a.stack = .group opened function commas :: below) :
    ∃ steps, a.closeParen = .ok (steps, a.operandDone below) := by
  cases function with
  | none => exact ⟨_, closeParen_group hd hb⟩
  | some f =>
    rw [closeParen, release_eq hb]
    simp [hd]

theorem exists_feed_closing (stack : List Held) (hd : a.operandDue = false)
    (hb : Held.brackets a.stack = Held.brackets stack) :
    ∃ steps b, a.feed (Held.closing stack) = .ok (steps, b) ∧ b.operandDue = false ∧
      Held.brackets b.stack = [] := by
  induction stack generalizing a with
  | nil => exact ⟨[], a, rfl, hd, hb⟩
  | cons held below ih =>
    cases held with
    | operator op p => exact ih hd hb
    | group opened function commas =>
      obtain ⟨first, hclose⟩ := exists_closeParen hd hb
      obtain ⟨more, b, hf, hb⟩ := ih (a := a.operandDone below) rfl rfl
      exact ⟨_, b, feed_cons hclose hf, hb⟩
    | bracket opened =>
      have hclose : a.step ⟨.closeBracket, {}⟩ = _ := closeBracket_bracket hd hb
      obtain ⟨more, b, hf, hb⟩ := ih (a := a.operandDone below) rfl rfl
      exact ⟨_, b, feed_cons hclose hf, hb⟩

theorem exists_feed_filler (hd : a.operandDue = true) :
    ∃ steps b, a.feed Row.filler = .ok (steps, b) ∧ b.operandDue = false ∧ b.stack = a.stack := by
  let inside := (a.parenOpened {}).operandDone (a.parenOpened {}).stack
  have hconstant : (a.parenOpened {}).step ⟨.constant .null, {}⟩ = .ok (_, inside) := rfl
  obtain ⟨steps, hclose⟩ := exists_closeParen (a := inside) rfl rfl
  exact ⟨_, _, feed_cons (step_openParen hd {}) (feed_cons hconstant (feed_singleton hclose)),
    rfl, rfl⟩

theorem exists_feed_completion (a : Arranging) :
    ∃ steps b, a.feed a.completion = .ok (steps, b) ∧ b.operandDue = false ∧
      Held.brackets b.stack = [] := by
  rw [completion]
  cases hd : a.operandDue with
  | false => exact exists_feed_closing a.stack hd rfl
  | true =>
    obtain ⟨first, b, hfiller, hb, hstack⟩ := exists_feed_filler hd
    obtain ⟨more, c, hclosing, hc⟩ := exists_feed_closing a.stack hb (by rw [hstack])
    exact ⟨_, c, feed_append hfiller hclosing, hc⟩

theorem exists_finish (hd : a.operandDue = false) (hb : Held.brackets a.stack = [])
    (last : Option Text.Position) : ∃ program, a.finish last = .ok program := by
  refine ⟨(Held.release a.stack).1, ?_⟩
  cases last with
  | none => exact Held.close_of_brackets_eq_nil hb
  | some p =>
    rw [finish, hd]
    exact Held.close_of_brackets_eq_nil hb

theorem due_of_function {name : String} {p : Text.Position}
    (h : a.step ⟨.function name, p⟩ = .ok (steps, b)) : b.operandDue = true := by
  change (if a.operandDue then _ else _) = _ at h
  split at h
  · next hd =>
    cases h
    exact hd
  · cases h

end Arranging

namespace Row

open Arranging

variable {row : Row} {e : SyntaxError}

theorem callsOpen_closing (stack : List Held) : CallsOpen (Held.closing stack) := by
  induction stack with
  | nil => trivial
  | cons held below ih => cases held <;> exact ih

theorem callsOpen_completion (a : Arranging) : CallsOpen a.completion := by
  rw [completion]
  cases a.operandDue <;> exact callsOpen_closing a.stack

theorem startsOpen_completion {a : Arranging} (hd : a.operandDue = true) :
    StartsOpen a.completion := by
  rw [completion, if_pos hd]
  trivial

theorem StartsOpen.change_tail {i : Located Item} (h : StartsOpen (i :: row)) (rest : Row) :
    StartsOpen (i :: rest) := by
  obtain ⟨value, p⟩ := i
  cases value_of_startsOpen h
  trivial

/-- What was taken in may go on in another way than the row does. -/
theorem CallsOpen.append_completion {a b : Arranging} {front back : Row} {steps : Program}
    (h : CallsOpen (front ++ back)) (hf : a.feed front = .ok (steps, b)) :
    CallsOpen (front ++ b.completion) := by
  induction front generalizing a steps with
  | nil => exact callsOpen_completion b
  | cons i front ih =>
    obtain ⟨first, c, more, hs, hfeed, -⟩ := exists_of_feed_cons hf
    have hrest : CallsOpen (front ++ b.completion) := ih h.tail hfeed
    obtain ⟨value, p⟩ := i
    cases value with
    | function name =>
      refine ⟨?_, hrest⟩
      cases front with
      | nil =>
        cases hfeed
        exact startsOpen_completion (due_of_function hs)
      | cons j front => exact StartsOpen.change_tail h.1 _
    | _ => exact hrest

/-- Some row behind this one makes a formula of both. -/
def Extendable (row : Row) : Prop :=
  ∃ rest program, (row ++ rest).CallsOpen ∧ Program.ofItems (row ++ rest) = .ok program

/-- The items before place `k` are taken in, and the one at place `k` fits nowhere. -/
def RefusedAt (row : Row) (k : Nat) (e : SyntaxError) : Prop :=
  ∃ steps a i, feed {} (row.take k) = .ok (steps, a) ∧ row[k]? = some i ∧
    a.step i = .error e.fault ∧ e.position = i.position

/-- All items are taken in, and they may not end here. -/
def RefusedAtEnd (row : Row) (e : SyntaxError) : Prop :=
  ∃ steps a, feed {} row = .ok (steps, a) ∧ a.finish (endOf none row) = .error e

theorem ofItems_of_feed_error (h : feed {} row = .error e) : Program.ofItems row = .error e := by
  rw [Program.ofItems, run_eq_feed, h]

theorem ofItems_of_feed {steps : Program} {a : Arranging} (h : feed {} row = .ok (steps, a)) :
    Program.ofItems row = (a.finish (endOf none row)).map (steps ++ ·) := by
  rw [Program.ofItems, run_eq_feed, h]

theorem CallsOpen.extendable_iff {back : Row} (h : CallsOpen (row ++ back)) :
    row.Extendable ↔ ∃ steps a, feed {} row = .ok (steps, a) := by
  constructor
  · rintro ⟨rest, program, -, hprogram⟩
    cases hf : feed {} row with
    | ok next => exact ⟨next.1, next.2, rfl⟩
    | error e =>
      rw [ofItems_of_feed_error (feed_append_of_error hf rest)] at hprogram
      cases hprogram
  · rintro ⟨steps, a, hf⟩
    obtain ⟨more, b, hg, hd, hb⟩ := exists_feed_completion a
    obtain ⟨last, hlast⟩ := exists_finish hd hb (endOf none (row ++ a.completion))
    refine ⟨a.completion, steps ++ more ++ last, h.append_completion hf, ?_⟩
    rw [ofItems_of_feed (feed_append hf hg), hlast]
    rfl

theorem RefusedAt.feed_take_succ {k : Nat} (h : row.RefusedAt k e) :
    feed {} (row.take (k + 1)) = .error e := by
  obtain ⟨steps, a, i, hf, hi, hs, hp⟩ := h
  rw [List.take_add_one, hi, Option.toList_some, feed_append_singleton_error hf hs, ← hp]

/-- Whatever follows the refused item, the row is refused with the same error. -/
theorem RefusedAt.ofItems_eq {k : Nat} (h : row.RefusedAt k e) (rest : Row) :
    Program.ofItems (row.take (k + 1) ++ rest) = .error e :=
  ofItems_of_feed_error (feed_append_of_error h.feed_take_succ rest)

theorem RefusedAtEnd.ofItems_eq (h : row.RefusedAtEnd e) : Program.ofItems row = .error e := by
  obtain ⟨steps, a, hf, hfinish⟩ := h
  rw [ofItems_of_feed hf, hfinish]
  rfl

theorem refusedAtEnd_of_feed {steps : Program} {a : Arranging} (hf : feed {} row = .ok (steps, a))
    (h : Program.ofItems row = .error e) : row.RefusedAtEnd e := by
  refine ⟨steps, a, hf, ?_⟩
  rw [ofItems_of_feed hf] at h
  cases hfinish : a.finish (endOf none row) with
  | ok last =>
    rw [hfinish] at h
    cases h
  | error e' =>
    rw [hfinish] at h
    cases h
    rfl

theorem ofItems_eq_error_iff :
    Program.ofItems row = .error e ↔ (∃ k, row.RefusedAt k e) ∨ row.RefusedAtEnd e := by
  constructor
  · intro h
    cases hf : feed {} row with
    | ok next => exact .inr (refusedAtEnd_of_feed hf h)
    | error e' =>
      cases (ofItems_of_feed_error hf).symm.trans h
      exact .inl (exists_refused_of_feed_error hf)
  · rintro (⟨k, h⟩ | h)
    · have hrow := h.ofItems_eq (row.drop (k + 1))
      rwa [List.take_append_drop] at hrow
    · exact h.ofItems_eq

theorem CallsOpen.extendable_take_iff (h : row.CallsOpen) (k : Nat) :
    Extendable (row.take k) ↔ ∃ steps a, feed {} (row.take k) = .ok (steps, a) := by
  have hk : CallsOpen (row.take k ++ row.drop k) := by rwa [List.take_append_drop]
  exact hk.extendable_iff

theorem CallsOpen.exists_refusedAt_iff (h : row.CallsOpen) (k : Nat) :
    (∃ e, row.RefusedAt k e) ↔ Extendable (row.take k) ∧ ¬Extendable (row.take (k + 1)) := by
  rw [h.extendable_take_iff, h.extendable_take_iff]
  constructor
  · rintro ⟨e, he⟩
    refine ⟨?_, ?_⟩
    · obtain ⟨steps, a, i, hf, -⟩ := he
      exact ⟨steps, a, hf⟩
    · rintro ⟨steps, a, hf⟩
      cases he.feed_take_succ.symm.trans hf
  · rintro ⟨⟨steps, a, hf⟩, hno⟩
    rw [List.take_add_one] at hno
    cases hi : row[k]? with
    | none =>
      rw [hi, Option.toList_none, List.append_nil] at hno
      exact absurd ⟨steps, a, hf⟩ hno
    | some i =>
      rw [hi, Option.toList_some] at hno
      cases hs : a.step i with
      | error fault => exact ⟨⟨fault, i.position⟩, steps, a, i, hf, hi, hs, rfl⟩
      | ok next => exact absurd ⟨_, _, feed_append hf (feed_singleton hs)⟩ hno

theorem CallsOpen.exists_refusedAtEnd_iff (h : row.CallsOpen) :
    (∃ e, row.RefusedAtEnd e) ↔
      row.Extendable ∧ ¬∃ program, Program.ofItems row = .ok program := by
  have hrow : CallsOpen (row ++ []) := by rwa [List.append_nil]
  rw [hrow.extendable_iff]
  constructor
  · rintro ⟨e, he⟩
    refine ⟨?_, ?_⟩
    · obtain ⟨steps, a, hf, -⟩ := he
      exact ⟨steps, a, hf⟩
    · rintro ⟨program, hprogram⟩
      cases he.ofItems_eq.symm.trans hprogram
  · rintro ⟨⟨steps, a, hf⟩, hno⟩
    cases hrow : Program.ofItems row with
    | ok program => exact absurd ⟨program, hrow⟩ hno
    | error e => exact ⟨e, refusedAtEnd_of_feed hf hrow⟩

/-- A row is refused at the first item with which it is lost, at the place of that item and with
the same error whatever follows; and at its end if it is no formula but could still go on. -/
theorem CallsOpen.refused_where_lost (h : row.CallsOpen) :
    (∀ k, (∃ e, row.RefusedAt k e) ↔
      Extendable (row.take k) ∧ ¬Extendable (row.take (k + 1))) ∧
    ((∃ e, row.RefusedAtEnd e) ↔
      row.Extendable ∧ ¬∃ program, Program.ofItems row = .ok program) ∧
    (∀ k e, row.RefusedAt k e → row[k]?.map Located.position = some e.position ∧
      ∀ rest, Program.ofItems (row.take (k + 1) ++ rest) = .error e) ∧
    (∀ e, Program.ofItems row = .error e ↔ (∃ k, row.RefusedAt k e) ∨ row.RefusedAtEnd e) := by
  refine ⟨h.exists_refusedAt_iff, h.exists_refusedAtEnd_iff, ?_, fun e => ofItems_eq_error_iff⟩
  intro k e he
  refine ⟨?_, he.ofItems_eq⟩
  obtain ⟨steps, a, i, -, hi, -, hp⟩ := he
  rw [hi, hp]
  rfl

/-- In `f(x,)` nothing helps behind the closing parenthesis. -/
theorem callsOpen_refused_where_lost_comma :
    let row : Row := [⟨.function "f", ⟨1, 1⟩⟩, ⟨.openParen, ⟨1, 2⟩⟩, ⟨.variable "x", ⟨1, 3⟩⟩,
      ⟨.comma, ⟨1, 4⟩⟩, ⟨.closeParen, ⟨1, 5⟩⟩]
    row.CallsOpen ∧ Extendable (row.take 4) ∧ ¬Extendable (row.take 5) ∧
      ∀ rest, Program.ofItems (row ++ rest) = .error ⟨.missingOperand, ⟨1, 5⟩⟩ := by
  intro row
  have hcalls : row.CallsOpen := ⟨trivial, trivial⟩
  have hrefused : row.RefusedAt 4 ⟨.missingOperand, ⟨1, 5⟩⟩ :=
    ⟨_, _, _, rfl, rfl, rfl, rfl⟩
  have hlost := (hcalls.refused_where_lost.1 4).mp ⟨_, hrefused⟩
  exact ⟨hcalls, hlost.1, hlost.2, (hcalls.refused_where_lost.2.2.1 4 _ hrefused).2⟩

end Row

end Formula
