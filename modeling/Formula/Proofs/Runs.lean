/-!
# Runs

A machine takes calls one after another; each call has an answer and leaves the machine in a state
for the next one. Machines whose states are related give the same answers if no call can tell related
states apart.
-/

namespace Formula

variable {σ τ κ α : Type}

def answers (step : σ → κ → α × σ) (s : σ) : List κ → List α
  | [] => []
  | call :: calls => (step s call).1 :: answers step (step s call).2 calls

def stateAfter (step : σ → κ → α × σ) (s : σ) (calls : List κ) : σ :=
  calls.foldl (fun s call => (step s call).2) s

variable {step : σ → κ → α × σ} {step' : τ → κ → α × τ}

theorem answers_append (s : σ) (calls more : List κ) :
    answers step s (calls ++ more) =
      answers step s calls ++ answers step (stateAfter step s calls) more := by
  induction calls generalizing s with
  | nil => rfl
  | cons call calls ih => exact congrArg ((step s call).1 :: ·) (ih (step s call).2)

theorem stateAfter_concat (s : σ) (calls : List κ) (call : κ) :
    stateAfter step s (calls ++ [call]) = (step (stateAfter step s calls) call).2 :=
  List.foldl_append

theorem answers_eq_of_step {R : σ → τ → Prop}
    (hstep : ∀ s t call, R s t →
      (step s call).1 = (step' t call).1 ∧ R (step s call).2 (step' t call).2)
    {s : σ} {t : τ} (h : R s t) (calls : List κ) :
    answers step s calls = answers step' t calls ∧
      R (stateAfter step s calls) (stateAfter step' t calls) := by
  induction calls generalizing s t with
  | nil => exact ⟨rfl, h⟩
  | cons call calls ih =>
    obtain ⟨hanswer, hnext⟩ := hstep s t call h
    obtain ⟨hanswers, hafter⟩ := ih hnext
    exact ⟨by rw [answers, answers, hanswer, hanswers], hafter⟩

end Formula
