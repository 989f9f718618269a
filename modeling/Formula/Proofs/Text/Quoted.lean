import Formula.Text.Quoted

/-!
# Encoded text is read and decoded again

The scanner takes exactly an encoded text off the front of a longer one, unless one more
quote follows, and decoding gives the text back that was encoded. So the scanner pairs the quotes
from the left and stops at the first one that is left alone, if there is one.
-/

namespace Formula.Text.Quoted

variable {q c : Char}

theorem double_cons_self (cs : List Char) : double q (q :: cs) = q :: q :: double q cs := by
  simp [double]

theorem double_cons_of_ne (h : c ≠ q) (cs : List Char) : double q (c :: cs) = c :: double q cs := by
  simp [double, h]

theorem halve_cons_self (cs : List Char) : halve q (q :: q :: cs) = q :: halve q cs := by
  rw [halve, if_pos ⟨rfl, rfl⟩]

theorem halve_cons_of_ne (h : c ≠ q) (cs : List Char) : halve q (c :: cs) = c :: halve q cs := by
  cases cs with
  | nil => rfl
  | cons d cs =>
    have hne : ¬ (c = q ∧ d = q) := fun hq => h hq.1
    rw [halve, if_neg hne]

theorem halve_double (q : Char) (cs : List Char) : halve q (double q cs) = cs := by
  induction cs with
  | nil => rfl
  | cons c cs ih =>
    by_cases h : c = q
    · subst h
      rw [double_cons_self, halve_cons_self, ih]
    · rw [double_cons_of_ne h, halve_cons_of_ne h, ih]

theorem decode_encode (q : Char) (cs : List Char) : decode q (encode q cs) = cs := by
  have hinner : inner? q (encode q cs) = some (double q cs) := by
    rw [encode, List.cons_append, inner?, List.getLast?_concat, if_pos ⟨rfl, rfl⟩,
      List.dropLast_concat]
  rw [decode, hinner]
  exact halve_double q cs

theorem scan?_cons_self (cs : List Char) :
    scan? q (q :: q :: cs) = (scan? q cs).map fun (body, rest) => (q :: q :: body, rest) := by
  rw [scan?, if_pos rfl, if_pos rfl]

theorem scan?_cons_of_ne (h : c ≠ q) (cs : List Char) :
    scan? q (c :: cs) = (scan? q cs).map fun (body, rest) => (c :: body, rest) := by
  cases cs with
  | nil => simp [scan?, h]
  | cons d cs => rw [scan?, if_neg h]

theorem scan?_close {rest : List Char} (h : rest.head? ≠ some q) :
    scan? q (q :: rest) = some ([q], rest) := by
  cases rest with
  | nil => rw [scan?, if_pos rfl]
  | cons d rest =>
    have hd : d ≠ q := fun hq => h (congrArg some hq)
    rw [scan?, if_pos rfl, if_neg hd]

theorem scan?_double (cs : List Char) {rest : List Char} (h : rest.head? ≠ some q) :
    scan? q (double q cs ++ q :: rest) = some (double q cs ++ [q], rest) := by
  induction cs with
  | nil => exact scan?_close h
  | cons c cs ih =>
    by_cases hc : c = q
    · subst hc
      rw [double_cons_self, List.cons_append, List.cons_append, scan?_cons_self, ih]
      rfl
    · rw [double_cons_of_ne hc, List.cons_append, scan?_cons_of_ne hc, ih]
      rfl

/-- From the left on, each quote has the next character as its partner. -/
inductive Paired (q : Char) : List Char → Prop
  | nil : Paired q []
  | plain {c : Char} {cs : List Char} (h : c ≠ q) (more : Paired q cs) : Paired q (c :: cs)
  | pair {cs : List Char} (more : Paired q cs) : Paired q (q :: q :: cs)

/-- The quote between `before` and `after` is the first one of the text that is left alone. -/
structure Closes (q : Char) (cs before after : List Char) : Prop where
  text_eq : cs = before ++ q :: after
  paired : Paired q before
  alone : after.head? ≠ some q

theorem paired_iff {cs : List Char} : Paired q cs ↔ ∃ s, cs = double q s := by
  constructor
  · intro h
    induction h with
    | nil => exact ⟨[], rfl⟩
    | @plain c cs hc more ih =>
      obtain ⟨s, rfl⟩ := ih
      exact ⟨c :: s, (double_cons_of_ne hc s).symm⟩
    | pair more ih =>
      obtain ⟨s, rfl⟩ := ih
      exact ⟨q :: s, (double_cons_self s).symm⟩
  · rintro ⟨s, rfl⟩
    induction s with
    | nil => exact .nil
    | cons c s ih =>
      by_cases hc : c = q
      · subst hc
        rw [double_cons_self]
        exact .pair ih
      · rw [double_cons_of_ne hc]
        exact .plain hc ih

namespace Closes

variable {cs before after : List Char}

theorem cons_self (h : Closes q cs before after) :
    Closes q (q :: q :: cs) (q :: q :: before) after where
  text_eq := congrArg (q :: q :: ·) h.text_eq
  paired := .pair h.paired
  alone := h.alone

theorem cons_of_ne (hc : c ≠ q) (h : Closes q cs before after) :
    Closes q (c :: cs) (c :: before) after where
  text_eq := congrArg (c :: ·) h.text_eq
  paired := .plain hc h.paired
  alone := h.alone

end Closes

theorem exists_closes_of_scan? {cs body rest : List Char} (h : scan? q cs = some (body, rest)) :
    ∃ before, body = before ++ [q] ∧ Closes q cs before rest := by
  fun_induction scan? q cs generalizing body rest with
  | case1 => cases h
  | case2 =>
    cases h
    exact ⟨[], rfl, rfl, .nil, by simp⟩
  | case3 => cases h
  | case4 cs ih =>
    obtain ⟨⟨b, r⟩, hs, he⟩ := Option.map_eq_some_iff.mp h
    cases he
    obtain ⟨before, rfl, hcloses⟩ := ih hs
    exact ⟨_, rfl, hcloses.cons_self⟩
  | case5 d cs hd =>
    cases h
    exact ⟨[], rfl, rfl, .nil, fun hq => hd (Option.some.inj hq)⟩
  | case6 c d cs hc ih =>
    obtain ⟨⟨b, r⟩, hs, he⟩ := Option.map_eq_some_iff.mp h
    cases he
    obtain ⟨before, rfl, hcloses⟩ := ih hs
    exact ⟨_, rfl, hcloses.cons_of_ne hc⟩

theorem scan?_eq_some_iff {cs body rest : List Char} :
    scan? q cs = some (body, rest) ↔ ∃ before, body = before ++ [q] ∧ Closes q cs before rest := by
  refine ⟨exists_closes_of_scan?, ?_⟩
  rintro ⟨before, rfl, rfl, hpaired, halone⟩
  obtain ⟨s, rfl⟩ := paired_iff.mp hpaired
  exact scan?_double s halone

theorem scan?_eq_none_iff {cs : List Char} :
    scan? q cs = none ↔ ¬∃ before after, Closes q cs before after := by
  rw [Option.eq_none_iff_forall_ne_some, not_exists]
  constructor
  · rintro h before ⟨after, hcloses⟩
    exact h (before ++ [q], after) (scan?_eq_some_iff.mpr ⟨before, rfl, hcloses⟩)
  · rintro h ⟨body, rest⟩ hscan
    obtain ⟨before, -, hcloses⟩ := scan?_eq_some_iff.mp hscan
    exact h before ⟨rest, hcloses⟩

theorem exists_encode_of_scan? {cs body rest : List Char} (h : scan? q cs = some (body, rest)) :
    ∃ s, q :: body = encode q s := by
  obtain ⟨before, rfl, hcloses⟩ := exists_closes_of_scan? h
  obtain ⟨s, rfl⟩ := paired_iff.mp hcloses.paired
  exact ⟨s, rfl⟩

theorem length_le_double (q : Char) (cs : List Char) : cs.length ≤ (double q cs).length := by
  induction cs with
  | nil => exact Nat.le_refl 0
  | cons c cs ih =>
    by_cases h : c = q
    · subst h
      rw [double_cons_self, List.length_cons, List.length_cons, List.length_cons]
      omega
    · rw [double_cons_of_ne h, List.length_cons, List.length_cons]
      omega

theorem length_lt_encode (q : Char) (cs : List Char) : cs.length < (encode q cs).length := by
  have := length_le_double q cs
  rw [encode, List.length_append, List.length_cons]
  omega

end Formula.Text.Quoted
