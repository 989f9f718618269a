import Formula.Registry
import Mathlib.Logic.Basic
import Mathlib.Tactic.SplitIfs

/-!
# Registries

A name is in a list of entries in whatever case it is spelled. Putting an entry under a name keeps
the names that are there, in their order, and adds the name at the end if it is new; so no two
entries ever come to share a name. Setting a variable changes what is found under its name and under
no other. The nulls that are added for the names of a formula go to the end, one for each name that
is new.
-/

namespace Formula

open Text

namespace Named

variable {α : Type} {nameOf : α → String} {name : String} {change : α → α} {fresh : α}
  {xs : List α}

theorem distinct_iff :
    Distinct nameOf xs ↔ (xs.map nameOf).Pairwise fun a b => ¬ AsciiCase.Same a b := by
  rw [List.pairwise_map]
  rfl

theorem find?_cons (x : α) : find? nameOf name (x :: xs) =
    if IsNamed nameOf name x then some x else find? nameOf name xs := by
  rw [find?, List.find?_cons]
  by_cases hx : IsNamed nameOf name x
  · rw [decide_eq_true hx, if_pos hx]
  · rw [decide_eq_false hx, if_neg hx]
    rfl

theorem isSome_find?_iff :
    (find? nameOf name xs).isSome ↔ ∃ known ∈ xs.map nameOf, AsciiCase.Same known name := by
  simp only [find?, List.find?_isSome, decide_eq_true_eq, List.mem_map]
  constructor
  · rintro ⟨x, hx, hnamed⟩
    exact ⟨nameOf x, ⟨x, hx, rfl⟩, hnamed⟩
  · rintro ⟨known, ⟨x, hx, rfl⟩, hsame⟩
    exact ⟨x, hx, hsame⟩

theorem find?_append_of_not {x : α} (hx : ¬ IsNamed nameOf name x) :
    find? nameOf name (xs ++ [x]) = find? nameOf name xs := by
  have hnone : find? nameOf name [x] = none := (find?_cons x).trans (if_neg hx)
  rw [find?, List.find?_append, ← find?, ← find?, hnone, Option.or_none]

theorem find?_congr {other : String} (h : AsciiCase.Same name other) :
    find? nameOf name xs = find? nameOf other xs := by
  have hnamed : ∀ x, IsNamed nameOf name x ↔ IsNamed nameOf other x :=
    fun x => ⟨fun hx => hx.trans h, fun hx => hx.trans h.symm⟩
  simp only [find?, hnamed]

theorem put_of_new (h : find? nameOf name xs = none) :
    put nameOf name change fresh xs = xs ++ [fresh] := by
  induction xs with
  | nil => rfl
  | cons x xs ih =>
    rw [find?_cons] at h
    split_ifs at h with hx
    rw [put, if_neg hx, ih h, List.cons_append]

theorem map_nameOf_put (hchange : ∀ x, nameOf (change x) = nameOf x) :
    (put nameOf name change fresh xs).map nameOf =
      if (find? nameOf name xs).isSome then xs.map nameOf else xs.map nameOf ++ [nameOf fresh] := by
  induction xs with
  | nil => rfl
  | cons x xs ih =>
    rw [put, find?_cons]
    by_cases hx : IsNamed nameOf name x
    · simp [hx, hchange]
    · simp only [hx, if_false, List.map_cons, ih]
      split_ifs <;> rfl

theorem distinct_put (hchange : ∀ x, nameOf (change x) = nameOf x) (hfresh : nameOf fresh = name)
    (h : Distinct nameOf xs) : Distinct nameOf (put nameOf name change fresh xs) := by
  rw [distinct_iff] at h ⊢
  rw [map_nameOf_put hchange]
  split_ifs with hfound
  · exact h
  · rw [List.pairwise_append]
    refine ⟨h, List.pairwise_singleton _ _, fun known hmem other hother hsame => ?_⟩
    rw [List.mem_singleton.mp hother, hfresh] at hsame
    exact hfound (isSome_find?_iff.mpr ⟨known, hmem, hsame⟩)

end Named

namespace Variables

theorem value?_cons (entry : Variable) (entries : List Variable) (name : String) :
    (Variables.mk (entry :: entries)).value? name =
      if Named.IsNamed Variable.name name entry then some entry.value
      else (Variables.mk entries).value? name := by
  rw [value?, find?, Named.find?_cons, apply_ite (Option.map Variable.value)]
  rfl

theorem value?_set (vs : Variables) (x : String) (v : Value) (name : String) :
    (vs.set x v).value? name = if AsciiCase.Same name x then some v else vs.value? name := by
  obtain ⟨entries⟩ := vs
  rw [set]
  induction entries with
  | nil =>
    rw [Named.put, value?_cons]
    exact if_congr AsciiCase.same_comm rfl rfl
  | cons entry entries ih =>
    rw [Named.put, value?_cons]
    by_cases hx : Named.IsNamed Variable.name x entry
    · rw [if_pos hx, value?_cons]
      by_cases hname : AsciiCase.Same name x
      · rw [if_pos hname]
        exact if_pos (hx.trans hname.symm)
      · have hentry : ¬ Named.IsNamed Variable.name name entry :=
          fun h => hname (h.symm.trans hx)
        rw [if_neg hname, if_neg hentry]
        exact if_neg hentry
    · rw [if_neg hx, value?_cons, ih]
      by_cases hentry : Named.IsNamed Variable.name name entry
      · have hname : ¬ AsciiCase.Same name x := fun h => hx (hentry.trans h)
        rw [if_pos hentry, if_pos hentry, if_neg hname]
      · rw [if_neg hentry, if_neg hentry]

def names (vs : Variables) : List String := vs.entries.map Variable.name

theorem isSome_find?_iff {vs : Variables} {name : String} :
    (vs.find? name).isSome ↔ ∃ known ∈ vs.names, AsciiCase.Same known name :=
  Named.isSome_find?_iff

theorem names_set (vs : Variables) (name : String) (v : Value) :
    (vs.set name v).names = if (vs.find? name).isSome then vs.names else vs.names ++ [name] :=
  Named.map_nameOf_put fun _ => rfl

theorem names_clearValues (vs : Variables) : vs.clearValues.names = vs.names := by
  simp [names, clearValues]

theorem ensure_of_isSome {vs : Variables} {name : String} (h : (vs.find? name).isSome) :
    vs.ensure name = vs :=
  if_pos h

theorem ensure_of_isNone {vs : Variables} {name : String} (h : (vs.find? name).isNone) :
    vs.ensure name = ⟨vs.entries ++ [⟨name, .null⟩]⟩ := by
  rw [ensure, if_neg (by simpa using h), set]
  exact congrArg Variables.mk (Named.put_of_new (Option.isNone_iff_eq_none.mp h))

/-- Each name that is new gets a null at the end, and all else stays as it is. -/
theorem ensureAll_eq (vs : Variables) {names : List String}
    (hnames : names.Pairwise fun a b => ¬ AsciiCase.Same a b) :
    vs.ensureAll names = ⟨vs.entries ++
      (names.filter fun name => (vs.find? name).isNone).map fun name => ⟨name, .null⟩⟩ := by
  induction names generalizing vs with
  | nil => simp [ensureAll]
  | cons name names ih =>
    obtain ⟨hname, hnames⟩ := List.pairwise_cons.mp hnames
    rw [ensureAll, List.foldl_cons, ← ensureAll, ih _ hnames]
    by_cases hnew : (vs.find? name).isNone
    · have hlater : ∀ other ∈ names, ((vs.ensure name).find? other).isNone =
          (vs.find? other).isNone := by
        intro other hother
        rw [ensure_of_isNone hnew]
        exact congrArg Option.isNone (Named.find?_append_of_not (hname other hother))
      rw [List.filter_cons, if_pos hnew, List.filter_congr hlater, ensure_of_isNone hnew]
      simp
    · rw [List.filter_cons, if_neg hnew, ensure_of_isSome (Option.isSome_iff_ne_none.mpr (by simpa using hnew))]

theorem distinct_set {vs : Variables} (h : Named.Distinct Variable.name vs.entries) (name : String)
    (v : Value) : Named.Distinct Variable.name (vs.set name v).entries :=
  Named.distinct_put (fun _ => rfl) rfl h

theorem distinct_clearValues {vs : Variables} (h : Named.Distinct Variable.name vs.entries) :
    Named.Distinct Variable.name vs.clearValues.entries := by
  rw [Named.distinct_iff, ← names] at h ⊢
  rwa [names_clearValues]

theorem distinct_ensureAll {vs : Variables} (h : Named.Distinct Variable.name vs.entries)
    (names : List String) : Named.Distinct Variable.name (vs.ensureAll names).entries := by
  induction names generalizing vs with
  | nil => exact h
  | cons name names ih =>
    rw [ensureAll, List.foldl_cons]
    refine ih ?_
    rw [ensure]
    split_ifs
    · exact h
    · exact distinct_set h name .null

theorem isSome_find?_set {vs : Variables} {name : String} (h : (vs.find? name).isSome)
    (other : String) (v : Value) : ((vs.set other v).find? name).isSome := by
  obtain ⟨known, hmem, hsame⟩ := isSome_find?_iff.mp h
  refine isSome_find?_iff.mpr ⟨known, ?_, hsame⟩
  rw [names_set]
  split_ifs
  · exact hmem
  · exact List.mem_append_left _ hmem

theorem isSome_find?_ensureAll (vs : Variables) {names : List String}
    (hnames : names.Pairwise fun a b => ¬ AsciiCase.Same a b) {name : String} (h : name ∈ names) :
    ((vs.ensureAll names).find? name).isSome := by
  rw [isSome_find?_iff, ensureAll_eq vs hnames, Variables.names, List.map_append]
  by_cases hnew : (vs.find? name).isNone
  · refine ⟨name, List.mem_append_right _ ?_, AsciiCase.same_refl name⟩
    simpa [h] using hnew
  · obtain ⟨known, hmem, hsame⟩ := isSome_find?_iff.mp
      (Option.isSome_iff_ne_none.mpr (by simpa using hnew))
    exact ⟨known, List.mem_append_left _ hmem, hsame⟩

end Variables

end Formula
