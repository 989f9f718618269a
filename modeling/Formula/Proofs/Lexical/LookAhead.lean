import Formula.Proofs.Lexical.Options
import Formula.Proofs.Runs
import Mathlib.Tactic.ByContra

/-!
# Looking ahead

A token that is looked ahead at is the one that is given out next, and looking does nothing else. So
however looks and takes are mixed, what is given out, with the faults met on the way, is the front of
what is given out without a look. The end stays the end.
-/

namespace Formula

theorem Lexicon.WellRouted.eq_nil_of_eof {l : Lexicon} (hl : l.WellRouted) {cs : List Char} {x : Lexeme}
    (h : l.next cs = .ok x) (heof : x.kind = .eof) : cs = [] := by
  by_contra hmore
  exact (hl.takes_of_next hmore h).kind_ne_eof heof

namespace Tokenizer

variable {t u : Tokenizer}

theorem advance_keeps (t : Tokenizer) :
    t.advance.2.lexicon = t.lexicon ∧ t.advance.2.ahead = t.ahead := by
  fun_induction advance t with
  | case3 t _ x _ _ _ _ _ ih => exact ih
  | _ => exact ⟨rfl, rfl⟩

/-- The search for a token ends with none or with the end only where the text does. -/
theorem finished_of_advance (hl : t.lexicon.WellRouted) {token : Option Token}
    (h : t.advance.1 = .ok token) (hend : ∀ x ∈ token, x.kind = .eof) :
    t.advance.2.finished = true := by
  fun_induction advance t with
  | case1 t hfinished => exact hfinished
  | case2 => cases h
  | case3 t _ x _ _ _ _ _ ih => exact ih hl h
  | case4 => cases h
  | case5 t _ x hx cursor finished _ heof =>
    exact List.isEmpty_iff.mpr (hl.eq_nil_of_eof hx heof.1)
  | case6 t _ x hx cursor finished _ _ given =>
    cases h
    have heof := (t.options.kind_finish_eq_iff _ (by decide)).mp (hend given rfl)
    exact List.isEmpty_iff.mpr (hl.eq_nil_of_eof hx heof)

theorem next_keeps (t : Tokenizer) : t.next.2.lexicon = t.lexicon ∧ t.next.2.ahead = none := by
  unfold next
  split
  · exact ⟨rfl, rfl⟩
  · next h => exact ⟨(advance_keeps t).1, (advance_keeps t).2.trans h⟩

theorem with_ahead_eq {ahead : Option Token} (h : u.ahead = ahead) : { u with ahead := ahead } = u := by
  subst h
  rfl

/-- A token that has been looked at is given out next, and nothing else has changed. -/
theorem next_of_ahead (h : u.ahead = none) (token : Token) :
    ({ u with ahead := some token } : Tokenizer).next = (.ok (some token), u) :=
  congrArg (Except.ok (some token), ·) (with_ahead_eq h)

/-- What is next, and what a look tells of it: the tokenizer keeps a token that it has looked at. -/
inductive Outlook (t : Tokenizer) : Prop
  | fault (e : SyntaxError) (u : Tokenizer) (hnext : t.next = (.error e, u))
    (hlook : t.hasNext = (.error e, u))
  | atEnd (u : Tokenizer) (hnext : t.next = (.ok none, u)) (hlook : t.hasNext = (.ok false, u))
  | token (token : Token) (u : Tokenizer) (hnext : t.next = (.ok (some token), u))
    (hlook : t.hasNext = (.ok true, { u with ahead := some token }))

theorem outlook (t : Tokenizer) : t.Outlook := by
  cases hahead : t.ahead with
  | some token =>
    refine .token token { t with ahead := none } (by simp [next, hahead]) ?_
    rw [hasNext, hahead]
    exact congrArg (Except.ok true, ·) (with_ahead_eq hahead).symm
  | none =>
    have hnext : t.next = t.advance := by simp [next, hahead]
    have hkeeps := (next_keeps t).2
    rcases hadvance : t.advance with ⟨e | (_ | token), u⟩
    · exact .fault e u (hnext.trans hadvance) (by simp [hasNext, hahead, hadvance])
    · rw [hnext, hadvance] at hkeeps
      refine .atEnd u (hnext.trans hadvance) ?_
      simp [hasNext, hahead, hadvance, with_ahead_eq hkeeps]
    · exact .token token u (hnext.trans hadvance) (by simp [hasNext, hahead, hadvance])

/-- What can be asked of a tokenizer in the middle of a text. -/
inductive Call
  | hasNext
  | next
  deriving DecidableEq, Repr

inductive Answer
  | looked (r : Except SyntaxError Bool)
  | given (r : Except SyntaxError (Option Token))

def perform (t : Tokenizer) : Call → Answer × Tokenizer
  | .hasNext => (.looked t.hasNext.1, t.hasNext.2)
  | .next => (.given t.next.1, t.next.2)

/-- The answer reports the end: there is nothing more, or the token that stands for the end is given
out. -/
def Answer.isEnd : Answer → Bool
  | .looked (.ok false) => true
  | .given (.ok token) => token.all fun x => x.kind = .eof
  | _ => false

/-- The text is used up and nothing of it is left to give out. -/
structure Ended (t : Tokenizer) : Prop where
  finished : t.finished = true
  ahead : t.ahead = none

theorem Ended.advance_eq (h : t.Ended) : t.advance = (.ok none, t) := by
  rw [advance.eq_def, if_pos h.finished]

theorem Ended.next_eq (h : t.Ended) : t.next = (.ok none, t) := by
  rw [next, h.ahead]
  exact h.advance_eq

theorem Ended.hasNext_eq (h : t.Ended) : t.hasNext = (.ok false, t) := by
  rw [hasNext, h.ahead]
  dsimp only
  rw [h.advance_eq]
  exact congrArg (Except.ok false, ·) (with_ahead_eq h.ahead)

theorem Ended.perform (h : t.Ended) (call : Call) :
    (t.perform call).1.isEnd = true ∧ (t.perform call).2 = t := by
  cases call with
  | hasNext =>
    rw [Tokenizer.perform, h.hasNext_eq]
    exact ⟨rfl, rfl⟩
  | next =>
    rw [Tokenizer.perform, h.next_eq]
    exact ⟨rfl, rfl⟩

/-- A tokenizer in the middle of a text: an end that has been looked at is the end of the text. -/
structure Steady (t : Tokenizer) : Prop where
  wellRouted : t.lexicon.WellRouted
  finished : ∀ x ∈ t.ahead, x.kind = .eof → t.finished = true

theorem Steady.ended_of_next (h : t.Steady) {token : Option Token} (hnext : t.next = (.ok token, u))
    (hend : ∀ x ∈ token, x.kind = .eof) : u.Ended := by
  have hahead : u.ahead = none := by simpa [hnext] using (next_keeps t).2
  refine ⟨?_, hahead⟩
  unfold next at hnext
  split at hnext
  · next x hx =>
    cases hnext
    exact h.finished x hx (hend x rfl)
  · have hfinished := finished_of_advance h.wellRouted (by rw [hnext]) hend
    rwa [hnext] at hfinished

theorem Steady.ended_of_isEnd (h : t.Steady) {call : Call} (hend : (t.perform call).1.isEnd = true) :
    (t.perform call).2.Ended := by
  cases t.outlook with
  | fault e u hnext hlook => cases call <;> simp [perform, hnext, hlook, Answer.isEnd] at hend
  | atEnd u hnext hlook =>
    have hended : u.Ended := h.ended_of_next hnext (by simp)
    cases call with
    | hasNext => rwa [perform, hlook]
    | next => rwa [perform, hnext]
  | token token u hnext hlook =>
    cases call with
    | hasNext => simp [perform, hlook, Answer.isEnd] at hend
    | next =>
      rw [perform, hnext] at hend ⊢
      exact h.ended_of_next hnext (by simpa [Answer.isEnd] using hend)

theorem Ended.isEnd_answers (h : t.Ended) (calls : List Call) :
    ∀ a ∈ answers Tokenizer.perform t calls, a.isEnd = true := by
  induction calls with
  | nil => exact nofun
  | cons call calls ih =>
    obtain ⟨hanswer, hsame⟩ := h.perform call
    rw [answers, hsame]
    exact List.forall_mem_cons.mpr ⟨hanswer, ih⟩

theorem lexicon_perform (t : Tokenizer) (call : Call) :
    (t.perform call).2.lexicon = t.lexicon := by
  have hnext : t.next.2.lexicon = t.lexicon := (next_keeps t).1
  cases call with
  | next => exact hnext
  | hasNext =>
    rw [← hnext]
    cases t.outlook with
    | fault e u hnext hlook => simp [perform, hnext, hlook]
    | atEnd u hnext hlook => simp [perform, hnext, hlook]
    | token token u hnext hlook => simp [perform, hnext, hlook]

theorem Steady.perform (h : t.Steady) (call : Call) : (t.perform call).2.Steady := by
  refine ⟨(t.lexicon_perform call).symm ▸ h.wellRouted, fun x hx heof => ?_⟩
  have hahead := (next_keeps t).2
  cases call with
  | next =>
    rw [Tokenizer.perform, hahead] at hx
    cases hx
  | hasNext =>
    rw [Tokenizer.perform] at hx ⊢
    cases t.outlook with
    | fault e u hnext hlook => simp_all
    | atEnd u hnext hlook => simp_all
    | token token u hnext hlook =>
      rw [hlook] at hx ⊢
      cases hx
      exact (h.ended_of_next hnext (by simpa using heof)).finished

theorem Steady.stateAfter (h : t.Steady) (calls : List Call) :
    (stateAfter Tokenizer.perform t calls).Steady := by
  induction calls generalizing t with
  | nil => exact h
  | cons call calls ih => exact ih (h.perform call)

theorem Steady.pairwise_isEnd (h : t.Steady) (calls : List Call) :
    (answers Tokenizer.perform t calls).Pairwise fun earlier later =>
      earlier.isEnd = true → later.isEnd = true := by
  induction calls generalizing t with
  | nil => exact .nil
  | cons call calls ih =>
    rw [answers, List.pairwise_cons]
    refine ⟨fun later hlater hend => ?_, ih (h.perform call)⟩
    exact (h.ended_of_isEnd hend).isEnd_answers calls later hlater

/-- What an answer reports: a token that is given out, or a fault. -/
def Answer.report? : Answer → Option (Except SyntaxError Token)
  | .looked (.error e) => some (.error e)
  | .looked (.ok _) => none
  | .given (.error e) => some (.error e)
  | .given (.ok token) => token.map .ok

/-- The tokens and faults that some calls report, in their order. -/
def reports (t : Tokenizer) (calls : List Call) : List (Except SyntaxError Token) :=
  (answers perform t calls).filterMap Answer.report?

theorem reports_cons (t : Tokenizer) (call : Call) (calls : List Call) :
    t.reports (call :: calls) =
      (t.perform call).1.report?.toList ++ (t.perform call).2.reports calls := by
  rw [reports, answers, List.filterMap_cons]
  cases (t.perform call).1.report? with
  | none => rfl
  | some report => rfl

theorem reports_mono (t : Tokenizer) {calls more : List Call} (h : calls <+: more) :
    t.reports calls <+: t.reports more := by
  obtain ⟨rest, rfl⟩ := h
  rw [reports, reports, answers_append, List.filterMap_append]
  exact List.prefix_append _ _

theorem reports_next_of_next_eq (h : u.next = t.next) (calls : List Call) :
    u.reports (.next :: calls) = t.reports (.next :: calls) := by
  simp only [reports_cons, perform, h]

/-- A call reports what a take reports, or it is a look that reports nothing and leaves what comes
next as it was. -/
theorem report_of_perform (t : Tokenizer) (call : Call) :
    ((t.perform call).1.report? = (t.perform .next).1.report? ∧
        (t.perform call).2 = (t.perform .next).2) ∨
      ((t.perform call).1.report? = none ∧ (t.perform call).2.next = t.next) := by
  cases call with
  | next => exact .inl ⟨rfl, rfl⟩
  | hasNext =>
    rw [perform, perform]
    cases t.outlook with
    | fault e u hnext hlook =>
      rw [hnext, hlook]
      exact .inl ⟨rfl, rfl⟩
    | atEnd u hnext hlook =>
      rw [hnext, hlook]
      exact .inl ⟨rfl, rfl⟩
    | token token u hnext hlook =>
      have hahead : u.ahead = none := by simpa [hnext] using (next_keeps t).2
      rw [hnext, hlook]
      exact .inr ⟨rfl, next_of_ahead hahead token⟩

/-- Calls report no more than as many takes do, and nothing else. -/
theorem reports_prefix (t : Tokenizer) (calls : List Call) :
    t.reports calls <+: t.reports (List.replicate calls.length .next) := by
  induction calls generalizing t with
  | nil => exact List.nil_prefix
  | cons call calls ih =>
    rw [List.length_cons, List.replicate_succ, reports_cons]
    obtain ⟨hreport, hstate⟩ | ⟨hreport, hnext⟩ := t.report_of_perform call
    · rw [reports_cons, hreport, hstate]
      exact (List.prefix_append_right_inj _).mpr (ih _)
    · -- what the look has left to come is taken by one of the later calls
      rw [hreport, ← reports_next_of_next_eq hnext, ← List.replicate_succ]
      exact (ih _).trans (reports_mono _ (by simp [List.prefix_replicate_iff]))

/-- A look tells whether a take would give a token, and fails as the take would. -/
theorem hasNext_eq (t : Tokenizer) : t.hasNext.1 = t.next.1.map Option.isSome := by
  cases t.outlook with
  | fault e u hnext hlook => simp [hnext, hlook, Except.map]
  | atEnd u hnext hlook => simp [hnext, hlook, Except.map]
  | token token u hnext hlook => simp [hnext, hlook, Except.map]

/-- Behind a look that does not fail everything is as before it. -/
theorem Steady.unchanged_of_hasNext (h : t.Steady) {b : Bool} (hlooked : t.hasNext.1 = .ok b) :
    t.hasNext.2.next = t.next ∧ t.hasNext.2.hasNext = t.hasNext := by
  cases t.outlook with
  | fault e u hnext hlook =>
    rw [hlook] at hlooked
    cases hlooked
  | atEnd u hnext hlook =>
    have hended : u.Ended := h.ended_of_next hnext (by simp)
    rw [hlook, hnext]
    exact ⟨hended.next_eq, hended.hasNext_eq⟩
  | token token u hnext hlook =>
    have hahead : u.ahead = none := by simpa [hnext] using (next_keeps t).2
    rw [hlook, hnext]
    exact ⟨next_of_ahead hahead token, rfl⟩

/-- However looks and takes are mixed on a text, what they report is the front of what takes alone
report. A look tells whether a take would give a token, and unless it meets a fault it changes
nothing, however often it is repeated. An end that has been reported stays the end. -/
theorem looks_lose_nothing (t : Tokenizer) (hl : t.lexicon.Ready) (text : String)
    (calls : List Call) :
    let start := t.setInput text
    let now := stateAfter perform start calls
    (∀ n, calls.length ≤ n → start.reports calls <+: start.reports (List.replicate n .next)) ∧
      now.hasNext.1 = now.next.1.map Option.isSome ∧
      (∀ b, now.hasNext.1 = .ok b →
        now.hasNext.2.next = now.next ∧ now.hasNext.2.hasNext = now.hasNext) ∧
      (answers perform start calls).Pairwise fun earlier later =>
        earlier.isEnd = true → later.isEnd = true := by
  intro start now
  have hstart : start.Steady := ⟨hl.wellRouted, by simp [start, setInput]⟩
  have hnow : now.Steady := hstart.stateAfter calls
  refine ⟨fun n hn => ?_, now.hasNext_eq, fun b => hnow.unchanged_of_hasNext,
    hstart.pairwise_isEnd calls⟩
  exact (start.reports_prefix calls).trans
    (reports_mono start (by simpa [List.prefix_replicate_iff] using hn))

/-- An open string behind a word: the fault is met by a look, and reported once. -/
theorem looks_lose_nothing_open_string :
    Lexicon.formulas.Ready ∧
      (let start := setInput { lexicon := .formulas, options := { skipWhitespace := true } } "a 'b"
       let calls : List Call :=
        [.hasNext, .hasNext, .next, .hasNext, .next, .hasNext, .next]
       start.reports calls <+: start.reports (List.replicate 7 .next) ∧
         (start.reports calls).map Except.toOption =
           [some ⟨.word, "a", ⟨1, 1⟩⟩, none, some ⟨.eof, "", ⟨1, 5⟩⟩]) := by
  refine ⟨.inr rfl, ?_⟩
  have hfront := (looks_lose_nothing
    { lexicon := .formulas, options := { skipWhitespace := true } } (.inr rfl) "a 'b"
    [.hasNext, .hasNext, .next, .hasNext, .next, .hasNext, .next]).1 7 (Nat.le_refl 7)
  refine ⟨hfront, ?_⟩
  rw [Lexicon.formulas_eq_ofRanges]
  decide +kernel

end Tokenizer

end Formula
