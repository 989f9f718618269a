import Formula.Text.Regex
import Mathlib.Data.List.Basic

/-!
# What a search finds

At a place in a text an expression matches if its atoms, one after another, agree with what stands
there: an anchor with the end it asks for, a character with the next one, and a character before a
star with a run that may be empty. A search finds a match if there is one at any place. Its rows tell
for every place whether the rest of the expression matches there, which each atom carries over from
the rest of the expression to itself.
-/

namespace Formula.Text.Regex

/-- The atoms match at the place between `before` and `after`. -/
def MatchesAt (o : Options) : List Atom → List Char → List Char → Prop
  | [], _, _ => True
  | .start :: atoms, before, after => before = [] ∧ MatchesAt o atoms before after
  | .stop :: atoms, before, after => after = [] ∧ MatchesAt o atoms before after
  | .one x :: atoms, before, after =>
    ∃ c rest, after = c :: rest ∧ x.takes o c = true ∧ MatchesAt o atoms (before ++ [c]) rest
  | .many x :: atoms, before, after =>
    ∃ run rest, after = run ++ rest ∧ (∀ c ∈ run, x.takes o c = true) ∧
      MatchesAt o atoms (before ++ run) rest

/-- The row has one verdict for each place in the text behind `before`. -/
inductive Tells (P : List Char → List Char → Prop) : List Char → List Char → List Bool → Prop
  | last {before : List Char} {r : Bool} (h : r = true ↔ P before []) : Tells P before [] [r]
  | next {before cs : List Char} {c : Char} {r : Bool} {row : List Bool}
    (h : r = true ↔ P before (c :: cs)) (more : Tells P (before ++ [c]) cs row) :
    Tells P before (c :: cs) (r :: row)

namespace Tells

variable {P : List Char → List Char → Prop} {before text : List Char} {row : List Bool}

theorem headD (h : Tells P before text row) : row.headD false = true ↔ P before text := by
  cases h with
  | last h => exact h
  | next h more => exact h

theorem everywhere (before text : List Char) :
    Tells (fun _ _ => True) before text (Regex.everywhere text) := by
  induction text generalizing before with
  | nil => exact .last (iff_of_true rfl trivial)
  | cons c cs ih => exact .next (iff_of_true rfl trivial) (ih _)

theorem notStart (h : Tells P before text row) (hne : before ≠ []) :
    Tells (fun b a => b = [] ∧ P b a) before text (row.map fun _ => false) := by
  induction h with
  | last h => exact .last (by simp [hne])
  | next h more ih => exact .next (by simp [hne]) (ih (by simp))

theorem startRow (h : Tells P [] text row) :
    Tells (fun b a => b = [] ∧ P b a) [] text (Regex.startRow row) := by
  cases h with
  | last h => exact .last (by simpa using h)
  | next h more => exact .next (by simpa using h) (more.notStart (by simp))

theorem stopRow (h : Tells P before text row) :
    Tells (fun b a => a = [] ∧ P b a) before text (Regex.stopRow row) := by
  induction h with
  | last h => exact .last (by simpa using h)
  | next h more ih =>
    cases more with
    | last _ => exact .next (by simp) ih
    | next _ _ => exact .next (by simp) ih

variable (takes : Char → Bool)

theorem oneRow (h : Tells P before text row) :
    Tells (fun b a => ∃ c rest, a = c :: rest ∧ takes c = true ∧ P (b ++ [c]) rest) before text
      (Regex.oneRow takes text row) := by
  induction h with
  | last h => exact .last (by simp)
  | next h more ih =>
    refine .next ?_ ih
    rw [Bool.and_eq_true, more.headD]
    simp

theorem manyRow (h : Tells P before text row) :
    Tells
      (fun b a => ∃ run rest, a = run ++ rest ∧ (∀ c ∈ run, takes c = true) ∧ P (b ++ run) rest)
      before text (Regex.manyRow takes text row) := by
  induction h with
  | last h => exact .last (by simp [h])
  | @next before cs c r row h more ih =>
    refine .next ?_ ih
    rw [Bool.or_eq_true, Bool.and_eq_true, h, ih.headD]
    constructor
    · rintro (hempty | ⟨hc, run, rest, rfl, hrun, hrest⟩)
      · exact ⟨[], c :: cs, rfl, by simp, by simpa using hempty⟩
      · exact ⟨c :: run, rest, rfl, by simpa [hc] using hrun, by simpa using hrest⟩
    · rintro ⟨run, rest, hsplit, hrun, hrest⟩
      rcases List.cons_eq_append_iff.mp hsplit with ⟨rfl, rfl⟩ | ⟨run, rfl, rfl⟩
      · exact .inl (by simpa using hrest)
      · obtain ⟨hc, hrun⟩ := List.forall_mem_cons.mp hrun
        exact .inr ⟨hc, run, rest, rfl, hrun, by simpa using hrest⟩

theorem any (h : Tells P before text row) :
    row.any id = true ↔ ∃ front rest, text = front ++ rest ∧ P (before ++ front) rest := by
  induction h with
  | last h => simp [h]
  | @next before cs c r row h more ih =>
    rw [List.any_cons, Bool.or_eq_true, ih, id, h]
    constructor
    · rintro (hempty | ⟨front, rest, rfl, hrest⟩)
      · exact ⟨[], c :: cs, rfl, by simpa using hempty⟩
      · exact ⟨c :: front, rest, rfl, by simpa using hrest⟩
    · rintro ⟨front, rest, hsplit, hrest⟩
      rcases List.cons_eq_append_iff.mp hsplit with ⟨rfl, rfl⟩ | ⟨front, rfl, rfl⟩
      · exact .inl (by simpa using hrest)
      · exact .inr ⟨front, rest, rfl, by simpa using hrest⟩

end Tells

theorem tells_verdicts (o : Options) (text : List Char) (atoms : List Atom) :
    Tells (MatchesAt o atoms) [] text (verdicts o text atoms) := by
  induction atoms with
  | nil => exact .everywhere [] text
  | cons a atoms ih =>
    cases a with
    | start => exact ih.startRow
    | stop => exact ih.stopRow
    | one x => exact ih.oneRow (x.takes o)
    | many x => exact ih.manyRow (x.takes o)

/-- A search finds a match at some place in the text if there is one. -/
theorem isMatch_iff {r : Regex} {text : List Char} : r.isMatch text = true ↔
    ∃ before after, text = before ++ after ∧ MatchesAt r.options r.atoms before after :=
  (tells_verdicts r.options text r.atoms).any

end Formula.Text.Regex
