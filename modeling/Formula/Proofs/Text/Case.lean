import Formula.Text.Characters
import Formula.Text.Reader
import Formula.Text.Quoted
import Mathlib

/-!
# Letters made small

ASCII capitals and small letters are told apart by nothing that looks at other characters only:
digits, marks and quotes stay what they are when the letters of a text are made small, and so do
positions and the ends of quoted text.
-/

namespace Formula.Text

theorem toLower_of_not_isAlpha {c : Char} (h : c.isAlpha = false) : c.toLower = c := by
  refine Char.toLower_eq_of_not_isUpper fun hupper => ?_
  rw [Char.isAlpha, hupper] at h
  cases h

theorem toLower_eq_iff {c d : Char} (hd : d.isAlpha = false) : c.toLower = d ↔ c = d := by
  constructor
  · rintro rfl
    rw [Char.isAlpha_toLower_eq_isAlpha] at hd
    exact (toLower_of_not_isAlpha hd).symm
  · rintro rfl
    exact toLower_of_not_isAlpha hd

theorem toNat_toLower (c : Char) : c.toLower.toNat =
    if 65 ≤ c.toNat ∧ c.toNat ≤ 90 then c.toNat + 32 else c.toNat := by
  rw [Char.toLower]
  split
  · next h =>
    have hupper : 65 ≤ c.toNat ∧ c.toNat ≤ 90 := h
    rw [if_pos hupper]
    change (c.val + 32).toNat = _
    rw [UInt32.toNat_add]
    change (c.toNat + 32) % 2 ^ 32 = _
    omega
  · next h =>
    have hother : ¬ (65 ≤ c.toNat ∧ c.toNat ≤ 90) := h
    rw [if_neg hother]

theorem isDigit_toLower (c : Char) : c.toLower.isDigit = c.isDigit := by
  have hrange : ∀ d : Char, d.isDigit = true ↔ 48 ≤ d.toNat ∧ d.toNat ≤ 57 :=
    fun d => Char.isDigit_iff_toNat
  rw [Bool.eq_iff_iff, hrange, hrange, toNat_toLower]
  split_ifs <;> omega

theorem exponentMark_toLower (c : Char) :
    c.toLower = 'e' ∨ c.toLower = 'E' ↔ c = 'e' ∨ c = 'E' := by
  simp only [← Char.toNat_inj, toNat_toLower, Char.reduceToNat]
  split_ifs <;> omega

/-- Texts without letters are equal if they are equal up to case. -/
theorem eq_of_map_toLower_eq {cs ds : List Char} (h : cs.map Char.toLower = ds.map Char.toLower)
    (hcs : ∀ c ∈ cs, c.isAlpha = false) : cs = ds := by
  induction cs generalizing ds with
  | nil => exact (List.map_eq_nil_iff.mp h.symm).symm
  | cons c cs ih =>
    cases ds with
    | nil => cases h
    | cons d ds =>
      obtain ⟨hhead, htail⟩ := List.cons.inj h
      obtain ⟨hc, hcs⟩ := List.forall_mem_cons.mp hcs
      rw [toLower_of_not_isAlpha hc, eq_comm, toLower_eq_iff hc] at hhead
      rw [hhead, ih htail hcs]

theorem takeWhile_map_toLower {p : Char → Bool} (hp : ∀ c, p c.toLower = p c) (cs : List Char) :
    (cs.map Char.toLower).takeWhile p = (cs.takeWhile p).map Char.toLower := by
  rw [List.takeWhile_map, show p ∘ Char.toLower = p from funext hp]

theorem dropWhile_map_toLower {p : Char → Bool} (hp : ∀ c, p c.toLower = p c) (cs : List Char) :
    (cs.map Char.toLower).dropWhile p = (cs.dropWhile p).map Char.toLower := by
  rw [List.dropWhile_map, show p ∘ Char.toLower = p from funext hp]

theorem Position.advanceAll_map_toLower (p : Position) (cs : List Char) :
    p.advanceAll (cs.map Char.toLower) = p.advanceAll cs := by
  induction cs generalizing p with
  | nil => rfl
  | cons c cs ih =>
    have hc : p.advance c.toLower = p.advance c := by
      simp only [advance, toLower_eq_iff (d := '\n') rfl]
    rw [List.map_cons, advanceAll_cons, advanceAll_cons, hc, ih]

namespace AsciiCase

theorem same_ofList {cs ds : List Char} :
    Same (String.ofList cs) (String.ofList ds) ↔ cs.map Char.toLower = ds.map Char.toLower := by
  simp [Same, key]

def folded (name : String) : String := String.ofList (key name)

theorem key_folded (name : String) : key (folded name) = key name := by
  simp [folded, key, Function.comp_def]

theorem same_folded (name : String) : Same (folded name) name := key_folded name

theorem folded_same_iff {a b : String} : Same (folded a) b ↔ Same a b := by
  rw [Same, key_folded, Same]

theorem same_folded_iff {a b : String} : Same a (folded b) ↔ Same a b := by
  rw [Same, key_folded, Same]

theorem folded_folded (name : String) : folded (folded name) = folded name :=
  congrArg String.ofList (key_folded name)

theorem folded_eq_iff {a b : String} : folded a = folded b ↔ Same a b := by
  rw [folded, folded, String.ofList_inj]
  rfl

theorem map_toUpper_eq {a b : String} (h : Same a b) :
    a.toList.map Char.toUpper = b.toList.map Char.toUpper := by
  have hupper := congrArg (List.map Char.toUpper) h
  simpa [key, Function.comp_def] using hupper

end AsciiCase

namespace Quoted

variable {q : Char} (hq : q.isAlpha = false)
include hq

theorem halve_map_toLower (cs : List Char) :
    halve q (cs.map Char.toLower) = (halve q cs).map Char.toLower := by
  fun_induction halve q cs with
  | case1 => rfl
  | case2 c => rfl
  | case3 c d cs h ih =>
    obtain ⟨rfl, rfl⟩ := h
    simp only [List.map_cons, toLower_of_not_isAlpha hq, halve, and_self, if_true, ih]
  | case4 c d cs h ih =>
    simp only [List.map_cons] at ih
    simp only [List.map_cons, halve, toLower_eq_iff hq, h, if_false, ih]

theorem decode_map_toLower (cs : List Char) :
    decode q (cs.map Char.toLower) = (decode q cs).map Char.toLower := by
  have hinner : inner? q (cs.map Char.toLower) = (inner? q cs).map (List.map Char.toLower) := by
    cases cs with
    | nil => rfl
    | cons c cs =>
      have hlast : (cs.map Char.toLower).getLast? = some q ↔ cs.getLast? = some q := by
        simp [List.getLast?_map, toLower_eq_iff hq]
      simp only [List.map_cons, inner?, toLower_eq_iff hq, hlast, ← List.map_dropLast]
      split_ifs <;> rfl
  rw [decode, decode, hinner]
  cases inner? q cs with
  | none => rfl
  | some inside => exact halve_map_toLower hq inside

theorem scan?_map_toLower (cs : List Char) : scan? q (cs.map Char.toLower) =
    (scan? q cs).map fun found => (found.1.map Char.toLower, found.2.map Char.toLower) := by
  fun_induction scan? q cs with
  | case1 => rfl
  | case2 => simp [scan?, toLower_of_not_isAlpha hq]
  | case3 c h => simp [scan?, toLower_eq_iff hq, h]
  | case4 cs ih =>
    simp only [List.map_cons, scan?, toLower_of_not_isAlpha hq, if_true, ih, Option.map_map,
      Function.comp_def]
  | case5 d cs hd =>
    simp [scan?, toLower_of_not_isAlpha hq, toLower_eq_iff hq, hd]
  | case6 c d cs hc ih =>
    simp only [List.map_cons] at ih
    simp only [List.map_cons, scan?, toLower_eq_iff hq, hc, if_false, ih, Option.map_map]
    rfl

end Quoted

end Formula.Text
