import Formula.Expression.Reading
import Formula.Proofs.Expression.Tree
import Mathlib.Data.List.Induction
import Mathlib.Tactic.SplitIfs

/-!
# The names in a formula

The variables of a row are those that its program loads, in the same order. Of names that are
the same up to case a formula keeps the first one, so every variable of the row has exactly one
name among those kept.
-/

namespace Formula

open Text

namespace Row

def names (row : Row) : List String :=
  row.flatMap fun i =>
    match i.value with
    | .variable name => [name]
    | _ => []

theorem names_append (first second : Row) :
    names (first ++ second) = names first ++ names second :=
  List.flatMap_append

theorem names_cons (i : Located Item) (row : Row) : names (i :: row) = names [i] ++ names row :=
  names_append [i] row

end Row

def Program.loads (program : Program) : List String :=
  program.flatMap fun i =>
    match i.value with
    | .load name => [name]
    | _ => []

namespace Program

theorem loads_append (first second : Program) :
    loads (first ++ second) = loads first ++ loads second :=
  List.flatMap_append

theorem loads_cons (i : Located Instr) (steps : Program) :
    loads (i :: steps) = loads [i] ++ loads steps :=
  loads_append [i] steps

end Program

mutual

theorem Expr.loads_program (e : Expr) : e.program.loads = e.items.names := by
  match e with
  | .constant v p => rfl
  | .variable name p => rfl
  | .callEmpty name p opened closed => rfl
  | .call name p opened args closed =>
    rw [Expr.program, Expr.items, Program.loads_append, args.loads_program, Row.names_cons,
      Row.names_cons _ (_ ++ _), Row.names_append]
    rfl
  | .group opened e closed =>
    rw [Expr.program, Expr.items, e.loads_program, Row.names_cons, Row.names_append]
    exact (List.append_nil _).symm
  | .prefixOp op p e =>
    rw [Expr.program, Expr.items, Program.loads_append, e.loads_program, Row.names_cons]
    exact List.append_nil _
  | .suffixOp e op p =>
    rw [Expr.program, Expr.items, Program.loads_append, e.loads_program, Row.names_append]
    rfl
  | .infixOp left op p right =>
    rw [Expr.program, Expr.items, Program.loads_append, Program.loads_append, left.loads_program,
      right.loads_program, Row.names_append, Row.names_cons _ right.items]
    exact List.append_nil _
  | .element collection opened index closed =>
    rw [Expr.program, Expr.items, Program.loads_append, Program.loads_append,
      collection.loads_program, index.loads_program, Row.names_append, Row.names_cons _ (_ ++ _),
      Row.names_append index.items, List.append_assoc]
    rfl

theorem Args.loads_program (args : Args) : args.program.loads = args.items.names := by
  match args with
  | .one e => exact e.loads_program
  | .more before comma e =>
    rw [Args.program, Args.items, Program.loads_append, Row.names_append, Row.names_cons,
      before.loads_program, e.loads_program]
    rfl

end

namespace Item

/-- A variable adds its name at the end if no name that is kept is the same. -/
theorem variableNames_append_singleton (row : Row) (i : Located Item) :
    variableNames (row ++ [i]) =
      match i.value with
      | .variable name =>
        if ∃ known ∈ variableNames row, AsciiCase.Same known name then variableNames row
        else variableNames row ++ [name]
      | _ => variableNames row := by
  rw [variableNames, List.foldl_append, List.foldl_cons, List.foldl_nil, ← variableNames]
  obtain ⟨value, p⟩ := i
  cases value with
  | «variable» name => simp only [List.any_eq_true, decide_eq_true_eq]
  | _ => rfl

theorem exists_mem_variableNames {row : Row} {name : String} (h : name ∈ row.names) :
    ∃ known ∈ variableNames row, AsciiCase.Same known name := by
  induction row using List.reverseRecOn with
  | nil => cases h
  | append_singleton row i ih =>
    rw [variableNames_append_singleton]
    rw [Row.names_append, List.mem_append] at h
    obtain ⟨value, p⟩ := i
    cases value with
    | «variable» other =>
      dsimp only
      split_ifs with hknown
      · obtain h | h := h
        · exact ih h
        · obtain rfl : name = other := List.mem_singleton.mp h
          exact hknown
      · obtain h | h := h
        · obtain ⟨known, hmem, hsame⟩ := ih h
          exact ⟨known, List.mem_append_left _ hmem, hsame⟩
        · obtain rfl : name = other := List.mem_singleton.mp h
          exact ⟨name, by simp, AsciiCase.same_refl name⟩
    | _ => exact ih (h.resolve_right List.not_mem_nil)

theorem pairwise_variableNames (row : Row) :
    (variableNames row).Pairwise fun a b => ¬ AsciiCase.Same a b := by
  induction row using List.reverseRecOn with
  | nil => exact .nil
  | append_singleton row i ih =>
    rw [variableNames_append_singleton]
    split
    · split_ifs with hknown
      · exact ih
      · rw [List.pairwise_append]
        refine ⟨ih, List.pairwise_singleton _ _, fun known hmem name hname hsame => ?_⟩
        rw [List.mem_singleton.mp hname] at hsame
        exact hknown ⟨known, hmem, hsame⟩
    · exact ih

end Item

end Formula
