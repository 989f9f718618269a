import Formula.Proofs.Runs
import Formula.Text.CharMap
import Mathlib.Data.List.Induction
import Mathlib.Logic.Function.Basic

/-!
# Runs of a character map

The table of a character map and its ranges answer together as one map on all codes: a call
gives a value to the codes of its range, or takes theirs away, and leaves the other codes as they
are. So what is found under a code was left there by the last call whose range holds it, and
nothing is found if all has been cleared since.
-/

namespace Formula.Text

variable {α : Type}

namespace CharMap

/-- What can be done with a character map. -/
inductive Call (α : Type)
  | set (first last : Nat) (value : α)
  | erase (first last : Nat)
  | setChar (c : Char) (value : α)
  | clear
  | lookup (c : Char)
  deriving DecidableEq, Repr

/-- The answer of a map, and the map after it. There is one only where something is looked up. -/
def perform (m : CharMap α) : Call α → Option α × CharMap α
  | .set first last value => (none, m.set first last value)
  | .erase first last => (none, m.erase first last)
  | .setChar c value => (none, m.setChar c value)
  | .clear => (none, m.clear)
  | .lookup c => (m.lookup c, m)

namespace Call

/-- The range of the call holds the code; some calls have no range. -/
def Covers (code : Nat) : Call α → Prop
  | .set first last _ | .erase first last => first ≤ code ∧ code ≤ last
  | .setChar c _ => c.toNat = code
  | .clear | .lookup _ => False

instance (code : Nat) : DecidablePred (Covers (α := α) code)
  | .set _ _ _ | .erase _ _ => inferInstanceAs (Decidable (_ ∧ _))
  | .setChar _ _ => inferInstanceAs (Decidable (_ = _))
  | .clear | .lookup _ => inferInstanceAs (Decidable False)

def value? : Call α → Option α
  | .set _ _ value | .setChar _ value => some value
  | .erase _ _ | .clear | .lookup _ => none

def isClear : Call α → Bool
  | .clear => true
  | _ => false

/-- The calls that come after the last one that clears, the latest first. -/
def sinceClear (calls : List (Call α)) : List (Call α) :=
  calls.reverse.takeWhile fun call => !call.isClear

theorem sinceClear_concat (calls : List (Call α)) (call : Call α) :
    sinceClear (calls ++ [call]) = if call.isClear then [] else call :: sinceClear calls := by
  rw [sinceClear, List.reverse_concat, List.takeWhile_cons]
  cases call.isClear with
  | true => rfl
  | false => rfl

end Call

end CharMap

/-- Every code has a value or none. -/
abbrev CodeMap (α : Type) := Nat → Option α

namespace CodeMap

open CharMap (Call)

def perform (f : CodeMap α) : Call α → Option α × CodeMap α
  | .set first last value =>
    (none, fun code => if first ≤ code ∧ code ≤ last then some value else f code)
  | .erase first last => (none, fun code => if first ≤ code ∧ code ≤ last then none else f code)
  | .setChar c value => (none, Function.update f c.toNat (some value))
  | .clear => (none, fun _ => none)
  | .lookup c => (f c.toNat, f)

/-- A call that does not clear is seen at the codes of its range, and only there. -/
theorem perform_apply {call : Call α} (h : call.isClear = false) (f : CodeMap α) (code : Nat) :
    (f.perform call).2 code = if call.Covers code then call.value? else f code := by
  cases call with
  | set | erase => rfl
  | setChar c value =>
    simp only [perform, Function.update_apply, Call.Covers, Call.value?, eq_comm]
  | clear => cases h
  | lookup c => exact (if_neg id).symm

/-- The last call whose range holds a code decides what is under it. -/
theorem stateAfter_apply (calls : List (Call α)) (code : Nat) :
    stateAfter perform (fun _ => none) calls code =
      ((Call.sinceClear calls).find? fun call => decide (call.Covers code)).bind Call.value? := by
  induction calls using List.reverseRecOn with
  | nil => rfl
  | append_singleton calls call ih =>
    rw [stateAfter_concat, Call.sinceClear_concat]
    cases hclear : call.isClear with
    | true =>
      cases call with
      | clear => rfl
      | _ => cases hclear
    | false =>
      rw [perform_apply hclear, ih, if_neg Bool.false_ne_true, List.find?_cons]
      by_cases hcovers : call.Covers code
      · simp [hcovers]
      · simp [hcovers]

end CodeMap

namespace CharMap

theorem find_set (m : CharMap α) (first last : Nat) (value : α) :
    (m.set first last value).find =
      fun code => if first ≤ code ∧ code ≤ last then some value else m.find code :=
  funext (m.find_assign ⟨first, last, some value⟩)

theorem perform_eq_codeMap (m : CharMap α) (call : Call α) :
    (m.perform call).1 = (CodeMap.perform m.find call).1 ∧
      (m.perform call).2.find = (CodeMap.perform m.find call).2 := by
  cases call with
  | set first last value => exact ⟨rfl, m.find_set first last value⟩
  | erase first last => exact ⟨rfl, funext (m.find_assign ⟨first, last, none⟩)⟩
  | setChar c value =>
    refine ⟨rfl, (m.find_set c.toNat c.toNat value).trans ?_⟩
    funext code
    simp only [CodeMap.perform, Function.update_apply, Nat.le_antisymm_iff, and_comm]
  | clear => exact ⟨rfl, funext m.find_clear⟩
  | lookup c => exact ⟨rfl, rfl⟩

/-- Whatever ranges are set, erased and cleared, below the end of the table, above it or across it, a
character map answers as one map on all codes. Under a character it has what the last call since all was
cleared left there whose range holds its code, and nothing if there is no such call. -/
theorem acts_on_all_codes (calls : List (Call α)) :
    answers perform empty calls = answers CodeMap.perform (fun _ => none) calls ∧
      (stateAfter perform empty calls).find = stateAfter CodeMap.perform (fun _ => none) calls ∧
      ∀ c : Char, (stateAfter perform empty calls).lookup c =
        ((Call.sinceClear calls).find? fun call => decide (call.Covers c.toNat)).bind
          Call.value? := by
  have hstep : ∀ (m : CharMap α) (f : CodeMap α) (call : Call α), m.find = f →
      (m.perform call).1 = (f.perform call).1 ∧ (m.perform call).2.find = (f.perform call).2 := by
    rintro m f call rfl
    exact m.perform_eq_codeMap call
  have hempty : (empty : CharMap α).find = fun _ => none := funext find_empty
  obtain ⟨hanswers, hfind⟩ := answers_eq_of_step hstep hempty calls
  refine ⟨hanswers, hfind, fun c => ?_⟩
  calc (stateAfter perform empty calls).lookup c
    _ = stateAfter CodeMap.perform (fun _ => none) calls c.toNat := congrFun hfind c.toNat
    _ = _ := CodeMap.stateAfter_apply calls c.toNat

example : answers perform empty
    [.set 250 300 1, .erase 255 256, .setChar 'Ā' 2, .set 300 250 3, .lookup 'þ', .lookup 'ÿ',
      .lookup 'Ā', .lookup 'ā', .clear, .lookup 'ā'] =
    [none, none, none, none, some 1, none, some 2, some 1, none, none] := by decide +kernel

end CharMap

end Formula.Text
