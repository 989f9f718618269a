import Formula.Proofs.Registry
import Mathlib.Data.List.Induction

/-!
# What edits leave in a registry

An edit drops the entries under some names, revises those that stay, and brings in an entry if its
name is new. So the entries of a registry are those that came in and were not dropped since, in the
order in which they came: a variable in the spelling it came with and with the last value it was
given, a function as it was added last. An edit under one name leaves all other entries as they are.
-/

namespace Formula

open Text

namespace Named

variable {α : Type} {nameOf : α → String} {name : String} {change : α → α} {fresh : α} {x : α}
  {xs : List α}

theorem isNamed_self (x : α) : IsNamed nameOf (nameOf x) x := AsciiCase.same_refl _

/-- A name that is spelled by one of several distinct entries is spelled by no other. -/
theorem not_isNamed_of_distinct_cons (h : Distinct nameOf (x :: xs)) (hx : IsNamed nameOf name x) :
    ∀ y ∈ xs, ¬ IsNamed nameOf name y := by
  intro y hy hnamed
  exact List.rel_of_pairwise_cons h hy (hx.trans hnamed.symm)

theorem find?_eq_some_iff (h : Distinct nameOf xs) :
    find? nameOf name xs = some x ↔ x ∈ xs ∧ IsNamed nameOf name x := by
  induction xs with
  | nil => simp [find?]
  | cons y xs ih =>
    rw [find?_cons, List.mem_cons]
    by_cases hy : IsNamed nameOf name y
    · have hothers := not_isNamed_of_distinct_cons h hy
      rw [if_pos hy, Option.some_inj]
      constructor
      · rintro rfl
        exact ⟨.inl rfl, hy⟩
      · rintro ⟨rfl | hx, hnamed⟩
        · rfl
        · exact absurd hnamed (hothers x hx)
    · rw [if_neg hy, ih h.of_cons]
      constructor
      · rintro ⟨hx, hnamed⟩
        exact ⟨.inr hx, hnamed⟩
      · rintro ⟨rfl | hx, hnamed⟩
        · exact absurd hnamed hy
        · exact ⟨hx, hnamed⟩

theorem exists_named_iff :
    (find? nameOf name xs).isSome ↔ ∃ x ∈ xs, IsNamed nameOf name x := by
  simp [find?]

theorem put_of_found (h : (find? nameOf name xs).isSome) :
    put nameOf name change fresh xs = modify nameOf name change xs := by
  induction xs with
  | nil => cases h
  | cons x xs ih =>
    rw [find?_cons] at h
    rw [put, modify]
    split_ifs at h ⊢ with hx
    · rfl
    · rw [ih h]

theorem modify_eq (h : Distinct nameOf xs) :
    modify nameOf name change xs =
      xs.map fun x => if IsNamed nameOf name x then change x else x := by
  induction xs with
  | nil => rfl
  | cons x xs ih =>
    rw [modify, List.map_cons]
    by_cases hx : IsNamed nameOf name x
    · have hothers := not_isNamed_of_distinct_cons h hx
      rw [if_pos hx, if_pos hx, List.map_congr_left fun y hy => if_neg (hothers y hy),
        List.map_id']
    · rw [if_neg hx, if_neg hx, ih h.of_cons]

theorem put_eq (h : Distinct nameOf xs) :
    put nameOf name change fresh xs =
      (xs.map fun x => if IsNamed nameOf name x then change x else x) ++
        if (find? nameOf name xs).isSome then [] else [fresh] := by
  by_cases hfound : (find? nameOf name xs).isSome
  · rw [put_of_found hfound, modify_eq h, if_pos hfound, List.append_nil]
  · have hunnamed : ∀ x ∈ xs, ¬ IsNamed nameOf name x :=
      fun x hx hnamed => hfound (exists_named_iff.mpr ⟨x, hx, hnamed⟩)
    rw [put_of_new (by simpa using hfound), if_neg hfound,
      List.map_congr_left fun x hx => if_neg (hunnamed x hx), List.map_id']

def others (nameOf : α → String) (name : String) (xs : List α) : List α :=
  xs.filter fun x => !decide (IsNamed nameOf name x)

theorem remove_eq (h : Distinct nameOf xs) : remove nameOf name xs = others nameOf name xs := by
  induction xs with
  | nil => rfl
  | cons x xs ih =>
    by_cases hx : IsNamed nameOf name x
    · have hothers : ∀ y ∈ xs, (!decide (IsNamed nameOf name y)) = true := by
        simpa using not_isNamed_of_distinct_cons h hx
      simp [remove, others, hx, List.filter_eq_self.mpr hothers]
    · have hrest := ih h.of_cons
      rw [remove, others] at hrest
      simp [remove, others, hx, hrest]

theorem others_modify (hchange : ∀ x, IsNamed nameOf name x → IsNamed nameOf name (change x)) :
    others nameOf name (modify nameOf name change xs) = others nameOf name xs := by
  induction xs with
  | nil => rfl
  | cons x xs ih =>
    rw [modify]
    by_cases hx : IsNamed nameOf name x
    · simp [others, hx, hchange x hx]
    · rw [others, others] at ih
      simp [others, hx, ih]

theorem others_put (hchange : ∀ x, IsNamed nameOf name x → IsNamed nameOf name (change x))
    (hfresh : IsNamed nameOf name fresh) :
    others nameOf name (put nameOf name change fresh xs) = others nameOf name xs := by
  by_cases hfound : (find? nameOf name xs).isSome
  · rw [put_of_found hfound, others_modify hchange]
  · rw [put_of_new (by simpa using hfound)]
    simp [others, hfresh]

theorem others_remove : others nameOf name (remove nameOf name xs) = others nameOf name xs := by
  induction xs with
  | nil => rfl
  | cons x xs ih =>
    by_cases hx : IsNamed nameOf name x
    · simp [others, remove, hx]
    · rw [others, others, remove] at ih
      simp [others, remove, hx, ih]

end Named

/-- What edits do to a list of named entries. An edit drops the entries under some names, revises
those that stay, and may bring an entry, which comes in if its name is not there. -/
structure Effects (α ε : Type) where
  nameOf : α → String
  brings? : ε → Option α
  drops : ε → String → Bool
  revise : ε → α → α
  drops_congr : ∀ {e a b}, AsciiCase.Same a b → drops e a = drops e b
  same_revise : ∀ e x, AsciiCase.Same (nameOf (revise e x)) (nameOf x)
  keeps_of_brings : ∀ {e x}, brings? e = some x → drops e (nameOf x) = false

namespace Effects

variable {α ε : Type} (k : Effects α ε)

def act (e : ε) (xs : List α) : List α :=
  (xs.filter fun x => !k.drops e (k.nameOf x)).map (k.revise e) ++
    (k.brings? e).toList.filter fun x => (Named.find? k.nameOf (k.nameOf x) xs).isNone

def run (edits : List ε) : List α := edits.foldl (fun xs e => k.act e xs) []

def brings (e : ε) (name : String) : Bool :=
  (k.brings? e).any fun x => decide (Named.IsNamed k.nameOf name x)

/-- The name has come and was not dropped since, in some edits, the latest first. -/
def isThere (name : String) (before : List ε) : Bool :=
  (before.takeWhile fun e => !k.drops e name).any fun e => k.brings e name

/-- The entries that come in and stay to the end, in their order, each with the edits after it. -/
def stays (before : List ε) : List ε → List (α × List ε)
  | [] => []
  | e :: later =>
    let comes := (k.brings? e).toList.filter fun x =>
      !k.isThere (k.nameOf x) before && !later.any fun e => k.drops e (k.nameOf x)
    comes.map (·, later) ++ stays (e :: before) later

def revised (x : α) (later : List ε) : α := later.foldl (fun x e => k.revise e x) x

variable {k} {e : ε} {name : String} {x : α} {xs : List α}

theorem act_of_keeps (h : ∀ name, k.drops e name = false) :
    k.act e xs = xs.map (k.revise e) ++
      (k.brings? e).toList.filter fun x => (Named.find? k.nameOf (k.nameOf x) xs).isNone := by
  have hall : (xs.filter fun x => !k.drops e (k.nameOf x)) = xs :=
    List.filter_eq_self.mpr (by simp [h])
  rw [act, hall]

theorem revised_append (x : α) (later : List ε) (e : ε) :
    k.revised x (later ++ [e]) = k.revise e (k.revised x later) :=
  List.foldl_append

theorem isThere_cons (before : List ε) :
    k.isThere name (e :: before) =
      (!k.drops e name && (k.brings e name || k.isThere name before)) := by
  rw [isThere, List.takeWhile_cons]
  cases k.drops e name with
  | true => rfl
  | false => rfl

theorem isNamed_revise :
    Named.IsNamed k.nameOf name (k.revise e x) ↔ Named.IsNamed k.nameOf name x :=
  ⟨fun h => (k.same_revise e x).symm.trans h, fun h => (k.same_revise e x).trans h⟩

theorem same_revised (k : Effects α ε) (x : α) (later : List ε) :
    AsciiCase.Same (k.nameOf (k.revised x later)) (k.nameOf x) := by
  induction later generalizing x with
  | nil => exact AsciiCase.same_refl _
  | cons e later ih => exact (ih (k.revise e x)).trans (k.same_revise e x)

theorem brings_iff :
    k.brings e name = true ↔ ∃ x, k.brings? e = some x ∧ Named.IsNamed k.nameOf name x := by
  cases h : k.brings? e with
  | none => simp [brings, h]
  | some x => simp [brings, h]

theorem keeps_name_of_brings (h : k.brings e name = true) : k.drops e name = false := by
  obtain ⟨x, hx, hnamed⟩ := brings_iff.mp h
  rw [← k.drops_congr hnamed]
  exact k.keeps_of_brings hx

theorem mem_act {y : α} :
    y ∈ k.act e xs ↔
      (∃ x ∈ xs, k.drops e (k.nameOf x) = false ∧ k.revise e x = y) ∨
        (k.brings? e = some y ∧ (Named.find? k.nameOf (k.nameOf y) xs).isNone) := by
  simp [act, and_assoc]

/-- After an edit a name is there if the edit brings it or leaves it there. -/
theorem isSome_find?_act :
    (Named.find? k.nameOf name (k.act e xs)).isSome =
      (!k.drops e name && (k.brings e name || (Named.find? k.nameOf name xs).isSome)) := by
  rw [Bool.eq_iff_iff, Bool.and_eq_true, Bool.or_eq_true, Bool.not_eq_true']
  constructor
  · intro h
    obtain ⟨y, hy, hnamed⟩ := Named.exists_named_iff.mp h
    obtain ⟨x, hx, hkept, rfl⟩ | ⟨hbrings, -⟩ := mem_act.mp hy
    · rw [isNamed_revise] at hnamed
      rw [k.drops_congr hnamed] at hkept
      exact ⟨hkept, .inr (Named.exists_named_iff.mpr ⟨x, hx, hnamed⟩)⟩
    · have hbrought : k.brings e name = true := brings_iff.mpr ⟨y, hbrings, hnamed⟩
      exact ⟨keeps_name_of_brings hbrought, .inl hbrought⟩
  · rintro ⟨hkept, h⟩
    rw [Named.exists_named_iff]
    by_cases hfound : (Named.find? k.nameOf name xs).isSome
    · obtain ⟨x, hx, hnamed⟩ := Named.exists_named_iff.mp hfound
      rw [← k.drops_congr hnamed] at hkept
      exact ⟨k.revise e x, mem_act.mpr (.inl ⟨x, hx, hkept, rfl⟩), isNamed_revise.mpr hnamed⟩
    · obtain ⟨x, hbrings, hnamed⟩ := brings_iff.mp (h.resolve_right hfound)
      refine ⟨x, mem_act.mpr (.inr ⟨hbrings, ?_⟩), hnamed⟩
      rw [Named.find?_congr hnamed]
      simpa using hfound

theorem distinct_act (h : Named.Distinct k.nameOf xs) : Named.Distinct k.nameOf (k.act e xs) := by
  rw [Named.Distinct, act, List.pairwise_append]
  refine ⟨?_, ?_, ?_⟩
  · rw [List.pairwise_map]
    refine (h.filter _).imp fun {x y} hne hsame => hne ?_
    exact isNamed_revise.mp (hsame.trans (k.same_revise e y))
  · refine List.Pairwise.filter _ ?_
    cases k.brings? e with
    | none => exact .nil
    | some x => exact List.pairwise_singleton _ x
  · intro y hy x hx hsame
    obtain ⟨z, hz, rfl⟩ := List.mem_map.mp hy
    have hfound : (Named.find? k.nameOf (k.nameOf x) xs).isSome :=
      Named.exists_named_iff.mpr ⟨z, (List.mem_filter.mp hz).1, isNamed_revise.mp hsame⟩
    have hnew := (List.mem_filter.mp hx).2
    rw [Option.isNone_iff_eq_none.mp hnew] at hfound
    cases hfound

theorem run_append (edits : List ε) (e : ε) : k.run (edits ++ [e]) = k.act e (k.run edits) :=
  List.foldl_append

theorem isSome_find?_run (edits : List ε) :
    (Named.find? k.nameOf name (k.run edits)).isSome = k.isThere name edits.reverse := by
  induction edits using List.reverseRecOn with
  | nil => rfl
  | append_singleton edits e ih =>
    rw [List.reverse_concat, isThere_cons, ← ih, run_append]
    exact isSome_find?_act

theorem distinct_run (k : Effects α ε) (edits : List ε) :
    Named.Distinct k.nameOf (k.run edits) := by
  induction edits using List.reverseRecOn with
  | nil => exact .nil
  | append_singleton edits e ih =>
    rw [run_append]
    exact distinct_act ih

theorem stays_append (before edits : List ε) (e : ε) :
    k.stays before (edits ++ [e]) =
      ((k.stays before edits).filter fun p => !k.drops e (k.nameOf p.1)).map
          (fun p => (p.1, p.2 ++ [e])) ++
        ((k.brings? e).toList.filter fun x =>
          !k.isThere (k.nameOf x) (edits.reverse ++ before)).map (·, []) := by
  induction edits generalizing before with
  | nil => simp [stays]
  | cons d edits ih =>
    simp [stays, ih, List.filter_map, Function.comp_def, List.filter_filter, Bool.and_comm,
      Bool.and_left_comm]

/-- The entries of a list after some edits are those that came in and stayed, revised since. -/
theorem run_eq (edits : List ε) :
    k.run edits = (k.stays [] edits).map fun p => k.revised p.1 p.2 := by
  -- from the end: the last edit finds what all others have left
  induction edits using List.reverseRecOn with
  | nil => rfl
  | append_singleton edits e ih =>
    have hdrops : ∀ p : α × List ε,
        k.drops e (k.nameOf (k.revised p.1 p.2)) = k.drops e (k.nameOf p.1) :=
      fun p => k.drops_congr (k.same_revised p.1 p.2)
    have hnew : ∀ x, (Named.find? k.nameOf (k.nameOf x) (k.run edits)).isNone =
        !k.isThere (k.nameOf x) edits.reverse := by
      intro x
      rw [← isSome_find?_run, Option.not_isSome]
    rw [run_append, stays_append, act, List.map_append, List.append_nil]
    congr 1
    · simp [ih, List.filter_map, Function.comp_def, hdrops, revised_append]
    · simp [hnew, Function.comp_def, revised]

/-- A registry whose every edit does to its entries what the effects say. -/
theorem entries_foldl {σ : Type} {entries : σ → List α} {edit : σ → ε → σ} {s : σ}
    (hs : entries s = [])
    (hedit : ∀ s e, Named.Distinct k.nameOf (entries s) → entries (edit s e) = k.act e (entries s))
    (edits : List ε) : entries (edits.foldl edit s) = k.run edits := by
  induction edits using List.reverseRecOn with
  | nil => exact hs
  | append_singleton edits e ih =>
    have hdistinct : Named.Distinct k.nameOf (entries (edits.foldl edit s)) :=
      ih ▸ k.distinct_run edits
    rw [List.foldl_append, List.foldl_cons, List.foldl_nil, hedit _ e hdistinct, ih, run_append]

end Effects

namespace Variables

inductive Edit
  | add (v : Variable)
  | setValue (name : String) (v : Value)
  | find (name : String)
  | update (name : String) (v : Value)
  | remove (name : String)
  | clear
  | clearValues

namespace Edit

/-- The name that the edit is about; some are about all names. -/
def name? : Edit → Option String
  | .add v => some v.name
  | .setValue name _ | .find name | .update name _ | .remove name => some name
  | .clear | .clearValues => none

/-- The variable that the edit adds if there is none of the name. -/
def brings? : Edit → Option Variable
  | .add v => some v
  | .setValue name v => some ⟨name, v⟩
  | _ => none

def drops (e : Edit) (name : String) : Bool :=
  match e with
  | .remove other => decide (AsciiCase.Same name other)
  | .clear => true
  | _ => false

/-- The value that the edit gives to a variable of the name. -/
def given? (e : Edit) (name : String) : Option Value :=
  match e with
  | .add v => if AsciiCase.Same name v.name then some v.value else none
  | .setValue other v | .update other v => if AsciiCase.Same name other then some v else none
  | .clearValues => some .null
  | _ => none

def effects : Effects Variable Edit where
  nameOf := Variable.name
  brings? := brings?
  drops := drops
  revise e x := ⟨x.name, (e.given? x.name).getD x.value⟩
  drops_congr {e a b} h := by
    cases e with
    | remove name => exact decide_eq_decide.mpr ⟨h.symm.trans, h.trans⟩
    | _ => rfl
  same_revise _ x := AsciiCase.same_refl x.name
  keeps_of_brings {e x} h := by
    cases e with
    | add | setValue => rfl
    | _ => cases h

end Edit

def edit (vs : Variables) : Edit → Variables
  | .add v => vs.set v.name v.value
  | .setValue name v => vs.set name v
  | .find _ => vs
  | .update name v => vs.update name v
  | .remove name => vs.remove name
  | .clear => {}
  | .clearValues => vs.clearValues

/-- A variable keeps its spelling and has the value given to it last. -/
theorem revised_eq (x : Variable) (later : List Edit) :
    Edit.effects.revised x later =
      ⟨x.name, (later.reverse.findSome? (·.given? x.name)).getD x.value⟩ := by
  induction later using List.reverseRecOn with
  | nil => rfl
  | append_singleton later e ih =>
    rw [Effects.revised_append, ih, List.reverse_concat, List.findSome?_cons]
    cases h : e.given? x.name with
    | none => simp [Edit.effects, h]
    | some v => simp [Edit.effects, h]

section

variable {e : Edit} {vs : Variables} {name : String} {v : Value}

theorem revise_eq
    (hgiven : ∀ other, e.given? other = if AsciiCase.Same other name then some v else none) :
    Edit.effects.revise e =
      fun x => if Named.IsNamed Variable.name name x then { x with value := v } else x := by
  funext x
  by_cases hx : AsciiCase.Same x.name name
  · simp [Edit.effects, Named.IsNamed, hgiven, hx]
  · simp [Edit.effects, Named.IsNamed, hgiven, hx]

theorem entries_set (h : Named.Distinct Variable.name vs.entries)
    (hdrops : ∀ other, e.drops other = false)
    (hgiven : ∀ other, e.given? other = if AsciiCase.Same other name then some v else none)
    (hbrings : e.brings? = some ⟨name, v⟩) :
    (vs.set name v).entries = Edit.effects.act e vs.entries := by
  rw [Effects.act_of_keeps hdrops, revise_eq hgiven, set, Named.put_eq h]
  cases hfound : Named.find? Variable.name name vs.entries with
  | none => simp [Edit.effects, hbrings, hfound]
  | some x => simp [Edit.effects, hbrings, hfound]

end

theorem entries_edit {vs : Variables} (h : Named.Distinct Variable.name vs.entries) (e : Edit) :
    (vs.edit e).entries = Edit.effects.act e vs.entries := by
  cases e with
  | add v => exact entries_set h (fun _ => rfl) (fun _ => rfl) rfl
  | setValue name v => exact entries_set h (fun _ => rfl) (fun _ => rfl) rfl
  | find name =>
    rw [Effects.act_of_keeps fun _ => rfl]
    simp [edit, Edit.effects, Edit.brings?, Edit.given?]
  | update name v =>
    rw [Effects.act_of_keeps fun _ => rfl, revise_eq fun _ => rfl, edit, update, Named.modify_eq h]
    simp [Edit.effects, Edit.brings?]
  | remove name =>
    rw [edit, remove, Named.remove_eq h]
    exact ((List.append_nil _).trans (List.map_id' _)).symm
  | clear => simp [edit, Edit.effects, Effects.act, Edit.drops, Edit.brings?]
  | clearValues =>
    rw [Effects.act_of_keeps fun _ => rfl]
    simp [edit, clearValues, Edit.effects, Edit.brings?, Edit.given?]

theorem others_edit (vs : Variables) {e : Edit} {name : String} (h : e.name? = some name) :
    Named.others Variable.name name (vs.edit e).entries =
      Named.others Variable.name name vs.entries := by
  cases e with
  | add v =>
    cases h
    exact Named.others_put (fun _ hx => hx) (Named.isNamed_self v)
  | setValue name v =>
    cases h
    exact Named.others_put (fun _ hx => hx) (AsciiCase.same_refl name)
  | find name => rfl
  | update name v =>
    cases h
    exact Named.others_modify fun _ hx => hx
  | remove name =>
    cases h
    exact Named.others_remove
  | clear | clearValues => cases h

end Variables

namespace Functions

inductive Edit
  | add (f : Function)
  | find (name : String)
  | remove (name : String)
  | clear

namespace Edit

def name? : Edit → Option String
  | .add f => some f.name
  | .find name | .remove name => some name
  | .clear => none

/-- The function that the edit adds if there is none of the name. -/
def brings? : Edit → Option Function
  | .add f => some f
  | _ => none

def drops (e : Edit) (name : String) : Bool :=
  match e with
  | .remove other => decide (AsciiCase.Same name other)
  | .clear => true
  | _ => false

/-- The function that the edit puts in the place of one of the name. -/
def given? (e : Edit) (name : String) : Option Function :=
  match e with
  | .add f => if AsciiCase.Same name f.name then some f else none
  | _ => none

theorem same_of_given? {e : Edit} {name : String} {f : Function} (h : e.given? name = some f) :
    AsciiCase.Same name f.name := by
  cases e with
  | add g =>
    rw [given?] at h
    split_ifs at h with hsame
    cases h
    exact hsame
  | _ => cases h

theorem given?_congr {a b : String} (h : AsciiCase.Same a b) (e : Edit) :
    e.given? a = e.given? b := by
  cases e with
  | add f => exact if_congr ⟨h.symm.trans, h.trans⟩ rfl rfl
  | _ => rfl

def effects : Effects Function Edit where
  nameOf := Function.name
  brings? := brings?
  drops := drops
  revise e f := (e.given? f.name).getD f
  drops_congr {e a b} h := by
    cases e with
    | remove name => exact decide_eq_decide.mpr ⟨h.symm.trans, h.trans⟩
    | _ => rfl
  same_revise e f := by
    cases hgiven : e.given? f.name with
    | none => exact AsciiCase.same_refl f.name
    | some g => exact (same_of_given? hgiven).symm
  keeps_of_brings {e f} h := by
    cases e with
    | add => rfl
    | _ => cases h

end Edit

def edit (fs : Functions) : Edit → Functions
  | .add f => fs.add f
  | .find _ => fs
  | .remove name => fs.remove name
  | .clear => {}

/-- The function added last stands in the place of the first one. -/
theorem revised_eq (f : Function) (later : List Edit) :
    Edit.effects.revised f later = (later.reverse.findSome? (·.given? f.name)).getD f := by
  induction later using List.reverseRecOn with
  | nil => rfl
  | append_singleton later e ih =>
    have hsame : AsciiCase.Same (Edit.effects.revised f later).name f.name :=
      Edit.effects.same_revised f later
    rw [Effects.revised_append, List.reverse_concat, List.findSome?_cons,
      ← Edit.given?_congr hsame]
    change (e.given? (Edit.effects.revised f later).name).getD _ = _
    cases e.given? (Edit.effects.revised f later).name with
    | none => exact ih
    | some g => rfl

theorem entries_edit {fs : Functions} (h : Named.Distinct Function.name fs.entries) (e : Edit) :
    (fs.edit e).entries = Edit.effects.act e fs.entries := by
  cases e with
  | add f =>
    rw [Effects.act_of_keeps fun _ => rfl, edit, add, Named.put_eq h]
    have hrevise : Edit.effects.revise (.add f) =
        fun x => if Named.IsNamed Function.name f.name x then f else x := by
      funext x
      by_cases hx : AsciiCase.Same x.name f.name
      · simp [Edit.effects, Edit.given?, Named.IsNamed, hx]
      · simp [Edit.effects, Edit.given?, Named.IsNamed, hx]
    rw [hrevise]
    cases hfound : Named.find? Function.name f.name fs.entries with
    | none => simp [Edit.effects, Edit.brings?, hfound]
    | some g => simp [Edit.effects, Edit.brings?, hfound]
  | find name =>
    rw [Effects.act_of_keeps fun _ => rfl]
    simp [edit, Edit.effects, Edit.brings?, Edit.given?]
  | remove name =>
    rw [edit, remove, Named.remove_eq h]
    exact ((List.append_nil _).trans (List.map_id' _)).symm
  | clear => simp [edit, Edit.effects, Effects.act, Edit.drops, Edit.brings?]

theorem others_edit (fs : Functions) {e : Edit} {name : String} (h : e.name? = some name) :
    Named.others Function.name name (fs.edit e).entries =
      Named.others Function.name name fs.entries := by
  cases e with
  | add f =>
    cases h
    exact Named.others_put (fun _ _ => Named.isNamed_self f) (Named.isNamed_self f)
  | find name => rfl
  | remove name =>
    cases h
    exact Named.others_remove
  | clear => cases h

end Functions

/-- After any edits a registry holds the entries that came in and were not dropped since, in the order in
which they came, and no two of one name: variables with their first spelling and their last value,
functions as they were added last. Every spelling of a name finds its entry. An edit under a name
leaves the entries of all other names as they are and where they are. -/
theorem registries_follow_their_edits :
    (∀ edits : List Variables.Edit,
      let vs := edits.foldl Variables.edit {}
      vs.entries = (Variables.Edit.effects.stays [] edits).map (fun (first, later) =>
          ⟨first.name, (later.reverse.findSome? (·.given? first.name)).getD first.value⟩) ∧
        Named.Distinct Variable.name vs.entries ∧
        (∀ name x, vs.find? name = some x ↔ x ∈ vs.entries ∧ AsciiCase.Same x.name name) ∧
        ∀ e name, e.name? = some name →
          Named.others Variable.name name (vs.edit e).entries =
            Named.others Variable.name name vs.entries) ∧
      ∀ edits : List Functions.Edit,
        let fs := edits.foldl Functions.edit {}
        fs.entries = (Functions.Edit.effects.stays [] edits).map (fun (first, later) =>
            (later.reverse.findSome? (·.given? first.name)).getD first) ∧
          Named.Distinct Function.name fs.entries ∧
          (∀ name f, fs.find? name = some f ↔ f ∈ fs.entries ∧ AsciiCase.Same f.name name) ∧
          ∀ e name, e.name? = some name →
            Named.others Function.name name (fs.edit e).entries =
              Named.others Function.name name fs.entries := by
  refine ⟨fun edits => ?_, fun edits => ?_⟩
  · intro vs
    have hentries : vs.entries = Variables.Edit.effects.run edits :=
      Effects.entries_foldl rfl (fun vs e h => Variables.entries_edit h e) edits
    have hdistinct : Named.Distinct Variable.name vs.entries :=
      hentries ▸ Variables.Edit.effects.distinct_run edits
    refine ⟨?_, hdistinct, fun name x => Named.find?_eq_some_iff hdistinct,
      fun e name => vs.others_edit⟩
    simp only [hentries, Effects.run_eq, Variables.revised_eq]
  · intro fs
    have hentries : fs.entries = Functions.Edit.effects.run edits :=
      Effects.entries_foldl rfl (fun fs e h => Functions.entries_edit h e) edits
    have hdistinct : Named.Distinct Function.name fs.entries :=
      hentries ▸ Functions.Edit.effects.distinct_run edits
    refine ⟨?_, hdistinct, fun name f => Named.find?_eq_some_iff hdistinct,
      fun e name => fs.others_edit⟩
    simp only [hentries, Effects.run_eq, Functions.revised_eq]

/-- A variable that is spelled in two ways, and one that is removed and comes again. -/
theorem registries_follow_their_edits_spelled_twice :
    let edits : List Variables.Edit :=
      [.setValue "a" .null, .setValue "B" .null, .add ⟨"A", .boolean true⟩, .remove "b",
        .setValue "c" .null, .clearValues, .add ⟨"b", .boolean true⟩, .update "B" (.boolean false)]
    let vs := edits.foldl Variables.edit {}
    vs.entries = [⟨"a", .null⟩, ⟨"c", .null⟩, ⟨"b", .boolean false⟩] ∧
      vs.find? "B" = some ⟨"b", .boolean false⟩ ∧
      Named.others Variable.name "C" (vs.edit (.remove "C")).entries =
        Named.others Variable.name "C" vs.entries := by
  intro edits vs
  obtain ⟨hentries, -, hfind, hothers⟩ := registries_follow_their_edits.1 edits
  have hvs : vs.entries = [⟨"a", .null⟩, ⟨"c", .null⟩, ⟨"b", .boolean false⟩] :=
    hentries.trans rfl
  refine ⟨hvs, (hfind "B" ⟨"b", .boolean false⟩).mpr ⟨?_, rfl⟩, hothers (.remove "C") "C" rfl⟩
  rw [hvs]
  simp

end Formula
