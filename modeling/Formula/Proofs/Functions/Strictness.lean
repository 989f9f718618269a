import Formula.Functions.Library
import Formula.Proofs.Evaluation.Strictness
import Formula.Proofs.Registry
import Mathlib.Data.List.Forall2

/-!
# The library under a stricter strategy

Functions pass the errors of conversions on as operators do, so a call that succeeds under a
stricter strategy has the same result under the other one. Calls that depend on the time or on
chance are left out, since two evaluations have surroundings of their own.
-/

namespace Formula

namespace Keeps

theorem unary {f f' : Value → Result} (hf : ∀ v, Keeps (f v) (f' v)) (args : List Value) :
    Keeps (Arguments.unary f args) (Arguments.unary f' args) := by
  unfold Arguments.unary
  split
  · exact hf _
  · exact .error _ _

theorem atLeastTwo {f f' : Value → List Value → Result}
    (hf : ∀ v vs, Keeps (f v vs) (f' v vs)) (args : List Value) :
    Keeps (Functions.atLeastTwo f args) (Functions.atLeastTwo f' args) := by
  unfold Functions.atLeastTwo
  split
  · exact hf _ _
  · exact .error _ _

theorem best {beats beats' : Value → Value → Result}
    (hbeats : ∀ v w, Keeps (beats v w) (beats' v w)) (first : Value) (vs : List Value) :
    Keeps (Functions.best beats first vs) (Functions.best beats' first vs) := by
  induction vs generalizing first with
  | nil => exact .refl _
  | cons v vs ih =>
    unfold Functions.best
    refine (hbeats first v).elim (fun e _ => .error e _) fun w => ?_
    split
    · exact .error _ _
    · exact ih v
    · exact ih first

theorem ofKind {rest rest' : Value → Result} (hrest : ∀ v, Keeps (rest v) (rest' v))
    (ofNull : Result) (ofInteger : Int32 → Result) (ofLong : Int64 → Result)
    (ofFloat : Float32 → Result) (v : Value) :
    Keeps
      (match v with
        | .null => ofNull
        | .integer n => ofInteger n
        | .long n => ofLong n
        | .float x => ofFloat x
        | v => rest v)
      (match v with
        | .null => ofNull
        | .integer n => ofInteger n
        | .long n => ofLong n
        | .float x => ofFloat x
        | v => rest' v) := by
  split
  · exact .refl _
  · exact .refl _
  · exact .refl _
  · exact .refl _
  · exact hrest _

end Keeps

namespace Strategy.Stricter

variable {s s' : Strategy} (h : s.Stricter s')
include h

theorem toDouble? (v : Value) :
    Keeps (Arguments.toDouble? s v) (Arguments.toDouble? s' v) := by
  unfold Arguments.toDouble?
  split
  · exact .refl _
  · exact (h v .double).map _

theorem toLong (v : Value) : Keeps (Arguments.toLong s v) (Arguments.toLong s' v) := by
  unfold Arguments.toLong
  split
  · exact .refl _
  · exact .refl _
  · exact (h v .long).elim (fun e _ => .error e _) fun w => .refl _

theorem toMoment? (v : Value) :
    Keeps (Arguments.toMoment? s v) (Arguments.toMoment? s' v) := by
  unfold Arguments.toMoment?
  dsimp only
  split
  · exact .refl _
  · exact .refl _
  · exact (h v .dateTime).map _

theorem ticks (now now' : Time.Moment) {args : List Value} (hne : args ≠ []) :
    Keeps (Functions.ticks now s args) (Functions.ticks now' s' args) := by
  unfold Functions.ticks
  dsimp only
  split
  · exact absurd rfl hne
  · exact (h.toMoment? _).map _
  · exact .error _ _

theorem date (args : List Value) : Keeps (Functions.date s args) (Functions.date s' args) := by
  unfold Functions.date
  split
  · exact (h.toMoment? _).map _
  · split
    · exact (Keeps.mapM h.toLong args).elim (fun e _ => .error e _) fun parts => .refl _
    · exact .error _ _

theorem timeSpan (args : List Value) :
    Keeps (Functions.timeSpan s args) (Functions.timeSpan s' args) := by
  unfold Functions.timeSpan
  exact (Keeps.mapM h.toLong args).elim (fun e _ => .error e _) fun parts => .refl _

theorem dayOfWeek (args : List Value) :
    Keeps (Functions.dayOfWeek s args) (Functions.dayOfWeek s' args) :=
  .unary (fun v => (h.toMoment? v).map _) args

theorem real (f : Float → Float) (args : List Value) :
    Keeps (Functions.real f s args) (Functions.real f s' args) :=
  .unary (fun v => (h.toDouble? v).map _) args

theorem abs (args : List Value) : Keeps (Functions.abs s args) (Functions.abs s' args) := by
  unfold Functions.abs
  refine .unary (fun v => ?_) args
  exact .ofKind (fun w => (h.toDouble? w).map _) _ _ _ _ v

theorem roundTo (v : Value) (digits : Option Int) :
    Keeps (Functions.roundTo s v digits) (Functions.roundTo s' v digits) := by
  unfold Functions.roundTo
  exact (h.toDouble? v).elim (fun e _ => .error e _) fun x => .refl _

theorem round (args : List Value) :
    Keeps (Functions.round s args) (Functions.round s' args) := by
  unfold Functions.round
  split
  · exact h.roundTo _ none
  · exact (h.toLong _).elim (fun e _ => .error e _) fun n => h.roundTo _ (some n)
  · exact .error _ _

theorem trunc (args : List Value) :
    Keeps (Functions.trunc s args) (Functions.trunc s' args) := by
  unfold Functions.trunc
  refine .unary (fun v => ?_) args
  exact (h.toDouble? v).elim (fun e _ => .error e _) fun x => .refl _

theorem sumFrom (total : Value) (vs : List Value) :
    Keeps (Functions.sumFrom s total vs) (Functions.sumFrom s' total vs) := by
  induction vs generalizing total with
  | nil => exact .refl _
  | cons v vs ih =>
    unfold Functions.sumFrom
    exact (h.add total v).elim (fun e _ => .error e _) ih

theorem choice (args : List Value) :
    Keeps (Functions.choice s args) (Functions.choice s' args) := by
  unfold Functions.choice
  split
  · exact (h _ .boolean).elim (fun e _ => .error e _) fun w => .refl _
  · exact .error _ _

theorem choose (args : List Value) :
    Keeps (Functions.choose s args) (Functions.choose s' args) := by
  unfold Functions.choose Arguments.expectAtLeast
  split
  · split
    · exact .refl _
    · exact (h.toLong _).elim (fun e _ => .error e _) fun n => .refl _
  · exact .error _ _

theorem contains (args : List Value) :
    Keeps (Functions.contains s args) (Functions.contains s' args) := by
  unfold Functions.contains
  split
  · refine (h _ .string).elim (fun e _ => .error e _) fun haystack => ?_
    exact (h _ .string).elim (fun e _ => .error e _) fun needle => .refl _
  · exact .error _ _

end Strategy.Stricter

namespace Functions

open Text

/-- The result of the call depends neither on the time nor on chance. -/
def Reproducible (name : String) (count : Nat) : Prop :=
  (∀ chancy ∈ ["Now", "Time", "Rnd", "Random"], ¬ AsciiCase.Same chancy name) ∧
    (AsciiCase.Same "Ticks" name → count ≠ 0)

instance (name : String) (count : Nat) : Decidable (Reproducible name count) :=
  inferInstanceAs (Decidable (_ ∧ _))

/-- Both functions have one name, and the calls that can be reproduced keep their values. -/
def KeepsCalls (s s' : Strategy) (f f' : Function) : Prop :=
  f'.name = f.name ∧ ∀ name args, AsciiCase.Same f.name name → Reproducible name args.length →
    Keeps (f.apply s args) (f'.apply s' args)

variable {s s' : Strategy}

theorem keepsCalls_of_chancy {name : String} (hname : name ∈ ["Now", "Time", "Rnd", "Random"])
    (apply apply' : Strategy → List Value → Result) :
    KeepsCalls s s' ⟨name, apply⟩ ⟨name, apply'⟩ :=
  ⟨rfl, fun _ _ hsame hrep => absurd hsame (hrep.1 name hname)⟩

theorem keepsCalls_of_keeps (name : String) {apply apply' : Strategy → List Value → Result}
    (h : ∀ args, Keeps (apply s args) (apply' s' args)) :
    KeepsCalls s s' ⟨name, apply⟩ ⟨name, apply'⟩ :=
  ⟨rfl, fun _ args _ _ => h args⟩

/-- Entry by entry, the library keeps its values under a less strict strategy, in whatever
surroundings. -/
theorem keepsCalls_libraryList (h : s.Stricter s') (around around' : Surroundings) :
    List.Forall₂ (KeepsCalls s s') (libraryList around) (libraryList around') :=
  have hreal (name : String) (f : Float → Float) := keepsCalls_of_keeps name (h.real f)
  have hsame (name : String) (f : List Value → Result) :
      KeepsCalls s s' ⟨name, fun _ => f⟩ ⟨name, fun _ => f⟩ :=
    keepsCalls_of_keeps name fun args => .refl (f args)
  .cons (keepsCalls_of_chancy (by decide) _ _) <|
  .cons (keepsCalls_of_chancy (by decide) _ _) <|
  .cons ⟨rfl, fun _ args hname hrep => h.ticks _ _ fun hargs => hrep.2 hname (by simp [hargs])⟩ <|
  .cons (keepsCalls_of_keeps "Date" h.date) <|
  .cons (keepsCalls_of_keeps "TimeSpan" h.timeSpan) <|
  .cons (keepsCalls_of_keeps "DayOfWeek" h.dayOfWeek) <|
  .cons (keepsCalls_of_keeps "Min" (Keeps.atLeastTwo (Keeps.best (h.ordering _ _)))) <|
  .cons (keepsCalls_of_keeps "Max" (Keeps.atLeastTwo (Keeps.best (h.ordering _ _)))) <|
  .cons (keepsCalls_of_keeps "Sum" (Keeps.atLeastTwo h.sumFrom)) <|
  .cons (keepsCalls_of_keeps "If" h.choice) <|
  .cons (keepsCalls_of_keeps "Choose" h.choose) <|
  .cons (hsame "E" _) <|
  .cons (hsame "Pi" _) <|
  .cons (keepsCalls_of_chancy (by decide) _ _) <|
  .cons (keepsCalls_of_chancy (by decide) _ _) <|
  .cons (keepsCalls_of_keeps "Abs" h.abs) <|
  .cons (hreal "Acos" _) <|
  .cons (hreal "Asin" _) <|
  .cons (hreal "Atan" _) <|
  .cons (hreal "Exp" _) <|
  .cons (hreal "Log" _) <|
  .cons (hreal "Ln" _) <|
  .cons (hreal "Log10" _) <|
  .cons (hreal "Ceil" _) <|
  .cons (hreal "Ceiling" _) <|
  .cons (hreal "Floor" _) <|
  .cons (keepsCalls_of_keeps "Round" h.round) <|
  .cons (keepsCalls_of_keeps "Trunc" h.trunc) <|
  .cons (keepsCalls_of_keeps "Truncate" h.trunc) <|
  .cons (hreal "Cos" _) <|
  .cons (hreal "Sin" _) <|
  .cons (hreal "Tan" _) <|
  .cons (hreal "Sqr" _) <|
  .cons (hreal "Sqrt" _) <|
  .cons (hsame "Empty" _) <|
  .cons (hsame "Null" _) <|
  .cons (keepsCalls_of_keeps "Contains" h.contains) <|
  .cons (hsame "Array" _) .nil

theorem add_of_new {fs : Functions} {f : Function}
    (hnew : ∀ g ∈ fs.entries, ¬ AsciiCase.Same g.name f.name) :
    fs.add f = ⟨fs.entries ++ [f]⟩ := by
  have hnone : Named.find? Function.name f.name fs.entries = none :=
    List.find?_eq_none.mpr fun g hg hnamed => hnew g hg (of_decide_eq_true hnamed)
  exact congrArg Functions.mk (Named.put_of_new hnone)

theorem addAll_of_distinct (entries more : List Function)
    (h : (entries ++ more).Pairwise fun f g => ¬ AsciiCase.Same f.name g.name) :
    addAll ⟨entries⟩ more = ⟨entries ++ more⟩ := by
  induction more generalizing entries with
  | nil => rw [List.append_nil, addAll, List.foldl_nil]
  | cons f more ih =>
    have hnew : ∀ g ∈ entries, ¬ AsciiCase.Same g.name f.name := fun g hg =>
      (List.pairwise_append.mp h).2.2 g hg f (.head _)
    have happend : entries ++ f :: more = entries ++ [f] ++ more := by simp
    rw [happend] at h ⊢
    rw [addAll, List.foldl_cons, add_of_new hnew]
    exact ih (entries ++ [f]) h

def libraryNames : List String :=
  ["Now", "Time", "Ticks", "Date", "TimeSpan", "DayOfWeek", "Min", "Max", "Sum", "If", "Choose",
    "E", "Pi", "Rnd", "Random", "Abs", "Acos", "Asin", "Atan", "Exp", "Log", "Ln", "Log10",
    "Ceil", "Ceiling", "Floor", "Round", "Trunc", "Truncate", "Cos", "Sin", "Tan", "Sqr", "Sqrt",
    "Empty", "Null", "Contains", "Array"]

theorem map_name_libraryList (around : Surroundings) :
    (libraryList around).map Function.name = libraryNames := rfl

theorem library_eq (around : Surroundings) : library around = ⟨libraryList around⟩ := by
  have hnames : libraryNames.Pairwise fun a b => ¬ AsciiCase.Same a b := by decide +kernel
  rw [← map_name_libraryList around, List.pairwise_map] at hnames
  exact addAll_of_distinct [] _ hnames

/-- Under one name two libraries have functions that keep the values of reproducible calls. -/
theorem find?_library (h : s.Stricter s') (around around' : Surroundings) (name : String) :
    Option.Rel
      (fun f f' => ∀ args, Reproducible name args.length →
        Keeps (f.apply s args) (f'.apply s' args))
      ((library around).find? name) ((library around').find? name) := by
  have hcalls := keepsCalls_libraryList h around around'
  rw [library_eq, library_eq]
  unfold find? Named.find?
  dsimp only
  generalize libraryList around = fs at hcalls ⊢
  generalize libraryList around' = fs' at hcalls ⊢
  induction hcalls with
  | nil => exact .none
  | @cons f f' fs fs' hf _ ih =>
    have hname' : Named.IsNamed Function.name name f' ↔ Named.IsNamed Function.name name f := by
      unfold Named.IsNamed
      rw [hf.1]
    by_cases hname : Named.IsNamed Function.name name f
    · rw [List.find?_cons_of_pos (by simpa using hname),
        List.find?_cons_of_pos (by simpa using hname'.mpr hname)]
      exact .some fun args => hf.2 name args hname
    · rw [List.find?_cons_of_neg (by simpa using hname),
        List.find?_cons_of_neg (by simpa using mt hname'.mp hname)]
      exact ih

end Functions

end Formula
