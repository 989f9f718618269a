import Formula.Json.Parser
import Mathlib

/-!
# Nesting of JSON

A text is read within some levels of arrays and objects. More levels change nothing about a text
that was read, and what is read never nests deeper than there are levels. So a value that nests too
deep is refused wherever the text would otherwise have ended.
-/

namespace Formula.Json

mutual

/-- The levels of arrays and objects in a value. -/
def nesting : Json → Nat
  | .array items => nestingOfItems items + 1
  | .object members => nestingOfMembers members + 1
  | _ => 0

def nestingOfItems : List Json → Nat
  | [] => 0
  | j :: js => max j.nesting (nestingOfItems js)

def nestingOfMembers : List (String × Json) → Nat
  | [] => 0
  | (_, j) :: ms => max j.nesting (nestingOfMembers ms)

end

/-- The value that a text denotes if values may nest to some levels. -/
def parseWithin? (levels : Nat) (text : String) : Option Json :=
  let cs := text.toList
  match value? levels (2 * cs.length + 2) cs with
  | some (j, rest) => if skipBlanks rest = [] then some j else none
  | none => none

theorem parse?_eq (text : String) : parse? text = parseWithin? mostNested text := rfl

theorem nestingOfMembers_insertMember (name : String) (j : Json) (ms : List (String × Json)) :
    nestingOfMembers (insertMember name j ms) ≤ max j.nesting (nestingOfMembers ms) := by
  induction ms with
  | nil => simp [insertMember, nestingOfMembers]
  | cons m ms ih =>
    rw [insertMember]
    split_ifs <;> simp only [nestingOfMembers] <;> omega

theorem nesting_ofMembers_le (ms : List (String × Json)) :
    (ofMembers ms).nesting ≤ nestingOfMembers ms + 1 := by
  have hfold (found : List (String × Json)) :
      nestingOfMembers (ms.foldl (fun found m => insertMember m.1 m.2 found) found) ≤
        max (nestingOfMembers found) (nestingOfMembers ms) := by
    induction ms generalizing found with
    | nil => simp [nestingOfMembers]
    | cons m ms ih =>
      have hinsert := nestingOfMembers_insertMember m.1 m.2 found
      refine (ih (insertMember m.1 m.2 found)).trans ?_
      rw [nestingOfMembers]
      omega
  have hempty := hfold []
  rw [nestingOfMembers, Nat.zero_max] at hempty
  rw [ofMembers, nesting]
  exact Nat.succ_le_succ hempty

/-- What is read within some levels nests no deeper, and is read within more levels too. -/
def Deepens {α : Type} (size : α → Nat) (levels : Nat) (within beyond : Option (α × List Char)) :
    Prop :=
  ∀ x rest, within = some (x, rest) → size x ≤ levels ∧ beyond = some (x, rest)

section

variable {α β : Type} {size : α → Nat} {levels : Nat}

theorem Deepens.of_some {x : α} {cs : List Char} (hx : size x ≤ levels) :
    Deepens size levels (some (x, cs)) (some (x, cs)) := by
  rintro _ _ ⟨⟩
  exact ⟨hx, rfl⟩

theorem Deepens.of_flat {read : Option (α × List Char)} {f : α → Json} (hf : ∀ x, (f x).nesting = 0) :
    Deepens nesting levels (read.map fun (x, cs) => (f x, cs)) (read.map fun (x, cs) => (f x, cs)) := by
  intro j rest h
  obtain ⟨⟨x, after⟩, -, heq⟩ := Option.map_eq_some_iff.mp h
  cases heq
  exact ⟨(hf x).trans_le (Nat.zero_le _), h⟩

theorem Deepens.bind {within beyond : Option (α × List Char)} {sizeOf : β → Nat}
    {f g : α × List Char → Option (β × List Char)} (h : Deepens size levels within beyond)
    (hf : ∀ x rest, size x ≤ levels → Deepens sizeOf levels (f (x, rest)) (g (x, rest))) :
    Deepens sizeOf levels (within >>= f) (beyond >>= g) := by
  intro y rest hy
  obtain ⟨⟨x, after⟩, hx, hy⟩ := Option.bind_eq_some_iff.mp hy
  obtain ⟨hsize, hbeyond⟩ := h x after hx
  rw [hbeyond]
  exact hf x after hsize y rest hy

theorem Deepens.bracket {within beyond : Option (α × List Char)} {f : α → Json}
    (h : Deepens size (levels - 1) within beyond) (hlevels : levels ≠ 0)
    (hf : ∀ x, (f x).nesting ≤ size x + 1) :
    Deepens nesting levels (within.map fun (x, cs) => (f x, cs))
      (beyond.map fun (x, cs) => (f x, cs)) := by
  intro j rest hmap
  obtain ⟨⟨x, after⟩, hx, heq⟩ := Option.map_eq_some_iff.mp hmap
  cases heq
  obtain ⟨hsize, hbeyond⟩ := h x rest hx
  have := hf x
  refine ⟨by omega, ?_⟩
  rw [hbeyond]
  rfl

end

section

variable {levels more fuel : Nat}

theorem deepens_value? (hmore : levels ≤ more)
    (hitems : ∀ cs, Deepens nestingOfItems (levels - 1) (items? (levels - 1) fuel cs)
      (items? (more - 1) fuel cs))
    (hmembers : ∀ cs, Deepens nestingOfMembers (levels - 1) (members? (levels - 1) fuel cs)
      (members? (more - 1) fuel cs)) (cs : List Char) :
    Deepens nesting levels (value? levels (fuel + 1) cs) (value? more (fuel + 1) cs) := by
  rw [value?, value?]
  split
  · exact .of_some (Nat.zero_le _)
  · exact .of_some (Nat.zero_le _)
  · exact .of_some (Nat.zero_le _)
  · exact .of_flat fun s => rfl
  · split_ifs with hlevels hmoreLevels
    · exact nofun
    · exact nofun
    · omega
    · split
      · exact .of_some (Nat.one_le_iff_ne_zero.mpr hlevels)
      · exact .bracket (hitems _) hlevels fun xs => le_rfl
  · split_ifs with hlevels hmoreLevels
    · exact nofun
    · exact nofun
    · omega
    · split
      · exact .of_some (Nat.one_le_iff_ne_zero.mpr hlevels)
      · exact .bracket (hmembers _) hlevels nesting_ofMembers_le
  · exact .of_flat fun n => rfl

theorem deepens_items? (hvalue : ∀ cs, Deepens nesting levels (value? levels fuel cs) (value? more fuel cs))
    (hitems : ∀ cs, Deepens nestingOfItems levels (items? levels fuel cs) (items? more fuel cs))
    (cs : List Char) :
    Deepens nestingOfItems levels (items? levels (fuel + 1) cs) (items? more (fuel + 1) cs) := by
  rw [items?, items?]
  refine (hvalue cs).bind fun x rest hx => ?_
  dsimp only
  split
  · exact (hitems _).bind fun xs rest hxs => .of_some (max_le hx hxs)
  · exact .of_some (max_le hx (Nat.zero_le _))
  · exact nofun

theorem deepens_members?
    (hvalue : ∀ cs, Deepens nesting levels (value? levels fuel cs) (value? more fuel cs))
    (hmembers : ∀ cs, Deepens nestingOfMembers levels (members? levels fuel cs) (members? more fuel cs))
    (cs : List Char) :
    Deepens nestingOfMembers levels (members? levels (fuel + 1) cs) (members? more (fuel + 1) cs) := by
  rw [members?, members?]
  cases memberName? (skipBlanks cs) with
  | none => exact nofun
  | some found =>
    refine (hvalue found.2).bind fun x rest hx => ?_
    dsimp only
    split
    · exact (hmembers _).bind fun ms rest hms => .of_some (max_le hx hms)
    · exact .of_some (max_le hx (Nat.zero_le _))
    · exact nofun

theorem deepens (fuel : Nat) (hmore : levels ≤ more) :
    (∀ cs, Deepens nesting levels (value? levels fuel cs) (value? more fuel cs)) ∧
      (∀ cs, Deepens nestingOfItems levels (items? levels fuel cs) (items? more fuel cs)) ∧
      ∀ cs, Deepens nestingOfMembers levels (members? levels fuel cs) (members? more fuel cs) := by
  induction fuel generalizing levels more with
  | zero => exact ⟨nofun, nofun, nofun⟩
  | succ fuel ih =>
    obtain ⟨hvalue, hitems, hmembers⟩ := ih hmore
    obtain ⟨-, hinner, hinnerMembers⟩ := ih (Nat.sub_le_sub_right hmore 1)
    exact ⟨deepens_value? hmore hinner hinnerMembers, deepens_items? hvalue hitems,
      deepens_members? hvalue hmembers⟩

end

variable {levels more : Nat} {text : String} {j : Json}

theorem parseWithin?_mono (hmore : levels ≤ more) (h : parseWithin? levels text = some j) :
    j.nesting ≤ levels ∧ parseWithin? more text = some j := by
  rw [parseWithin?] at h ⊢
  split at h
  · next x rest hvalue =>
    split_ifs at h with hrest
    cases h
    obtain ⟨hsize, hbeyond⟩ := (deepens _ hmore).1 _ _ _ hvalue
    rw [hbeyond]
    exact ⟨hsize, if_pos hrest⟩
  · cases h

/-- A text whose value would nest deeper than values may is not read. -/
theorem parse?_of_nesting (h : parseWithin? levels text = some j) (hdeep : mostNested < j.nesting) :
    parse? text = none := by
  have hlevels : mostNested ≤ levels := hdeep.le.trans (parseWithin?_mono le_rfl h).1
  cases hread : parse? text with
  | none => rfl
  | some i =>
    rw [parse?_eq] at hread
    obtain ⟨hnesting, hbeyond⟩ := parseWithin?_mono hlevels hread
    rw [h, Option.some.injEq] at hbeyond
    subst hbeyond
    exact absurd hnesting (Nat.not_le.mpr hdeep)

/-- One array more than there are levels left is not read, whatever is in it. -/
theorem value?_of_nested (depth fuel : Nat) (rest : List Char) :
    value? depth fuel (List.replicate (depth + 1) '[' ++ rest) = none := by
  induction depth generalizing fuel with
  | zero =>
    cases fuel with
    | zero => rfl
    | succ fuel => simp [value?, skipBlanks, isJsonBlank]
  | succ depth ih =>
    cases fuel with
    | zero => rfl
    | succ fuel =>
      have hitems : items? depth fuel (List.replicate (depth + 1) '[' ++ rest) = none := by
        cases fuel with
        | zero => rfl
        | succ fuel => rw [items?, ih fuel]; rfl
      rw [List.replicate_succ, List.cons_append] at hitems ⊢
      simp [value?, skipBlanks, isJsonBlank, List.replicate_succ, hitems]

/-- An object takes one level itself, so only 126 are left for a member. -/
theorem parse?_of_nested (rest : List Char) :
    parse? (String.ofList ("\x7b\"x\":".toList ++ (List.replicate 127 '[' ++ rest))) = none := by
  have hvalue (fuel : Nat) : value? 126 fuel (List.replicate 127 '[' ++ rest) = none :=
    value?_of_nested 126 fuel rest
  generalize List.replicate 127 '[' ++ rest = body at hvalue ⊢
  have hname : memberName? ('"' :: 'x' :: '"' :: ':' :: body) = some ("x", body) := by
    simp [memberName?, string?, stringRest?, stringChar?, skipBlanks, isJsonBlank]
  have hmembers (fuel : Nat) : members? 126 fuel ('"' :: 'x' :: '"' :: ':' :: body) = none := by
    cases fuel with
    | zero => rfl
    | succ fuel => simp [members?, skipBlanks, isJsonBlank, hname, hvalue]
  simp [parse?, value?, mostNested, skipBlanks, isJsonBlank, hmembers]

end Formula.Json
