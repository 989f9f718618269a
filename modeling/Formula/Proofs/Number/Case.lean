import Formula.Proofs.Lexical.Shapes
import Formula.Proofs.Text.Case

/-!
# Numbers in any case

The exponent mark and the words for infinity and for no number may be written in capitals or in
small letters: the number is the same.
-/

namespace Formula

namespace Number

open Text

theorem map_toLower_of_digits {ds : List Char} (h : ∀ c ∈ ds, c.isDigit = true) :
    ds.map Char.toLower = ds := by
  have hid : ds.map Char.toLower = ds.map id :=
    List.map_congr_left fun c hc => toLower_of_not_isAlpha (not_isAlpha_of_isDigit (h c hc))
  rw [hid, List.map_id]

theorem map_toLower_takeWhile_isDigit (cs : List Char) :
    (cs.takeWhile Char.isDigit).map Char.toLower = cs.takeWhile Char.isDigit :=
  map_toLower_of_digits (List.all_eq_true.mp List.all_takeWhile)

theorem splitSign_map_toLower (cs : List Char) :
    splitSign (cs.map Char.toLower) = ((splitSign cs).1, (splitSign cs).2.map Char.toLower) := by
  cases cs with
  | nil => rfl
  | cons c cs =>
    by_cases hminus : c = '-'
    · subst hminus
      rfl
    · by_cases hplus : c = '+'
      · subst hplus
        rfl
      · have hminus' : c.toLower ≠ '-' := mt (toLower_eq_iff rfl).mp hminus
        have hplus' : c.toLower ≠ '+' := mt (toLower_eq_iff rfl).mp hplus
        rw [List.map_cons, splitSign_of_ne hminus' hplus', splitSign_of_ne hminus hplus]
        rfl

theorem integer?_map_toLower (cs : List Char) : integer? (cs.map Char.toLower) = integer? cs := by
  have hdigits : ∀ ds, allDigits (ds.map Char.toLower) = allDigits ds := by
    intro ds
    have hall : Char.isDigit ∘ Char.toLower = Char.isDigit := funext isDigit_toLower
    rw [allDigits, allDigits, List.all_map, hall]
    cases ds <;> rfl
  rw [integer?, integer?, splitSign_map_toLower]
  simp only [hdigits]
  split_ifs with h
  · have hall : ∀ c ∈ (splitSign cs).2, c.isDigit = true :=
      List.all_eq_true.mp (Bool.and_eq_true_iff.mp h).2
    rw [map_toLower_of_digits hall]
  · have hall : ∀ c ∈ (splitSign cs).2, c.isDigit = true :=
      List.all_eq_true.mp (Bool.and_eq_true_iff.mp h).2
    rw [map_toLower_of_digits hall]
  · rfl

theorem exponent?_map_toLower (cs : List Char) :
    exponent? (cs.map Char.toLower) = exponent? cs := by
  cases cs with
  | nil => rfl
  | cons c cs =>
    simp only [List.map_cons, exponent?, exponentMark_toLower, integer?_map_toLower]

/-- The digits behind a point, if there is one, and what follows. -/
def spanFraction : List Char → List Char × List Char
  | '.' :: r => (r.takeWhile Char.isDigit, r.dropWhile Char.isDigit)
  | r => ([], r)

theorem unsignedDecimal?_eq (cs : List Char) : unsignedDecimal? cs =
    let whole := cs.takeWhile Char.isDigit
    let (fraction, rest) := spanFraction (cs.dropWhile Char.isDigit)
    if whole = [] ∧ fraction = [] then none
    else (exponent? rest).map fun e => (digitsValue (whole ++ fraction), e - fraction.length) := rfl

theorem spanFraction_of_ne {c : Char} (hc : c ≠ '.') (r : List Char) :
    spanFraction (c :: r) = ([], c :: r) := by
  unfold spanFraction
  split
  · next heq => exact absurd (List.cons.inj heq).1 hc
  · rfl

theorem spanFraction_map_toLower (cs : List Char) : spanFraction (cs.map Char.toLower) =
    ((spanFraction cs).1, (spanFraction cs).2.map Char.toLower) := by
  cases cs with
  | nil => rfl
  | cons c r =>
    by_cases hc : c = '.'
    · subst hc
      change (((r.map Char.toLower).takeWhile Char.isDigit),
        ((r.map Char.toLower).dropWhile Char.isDigit)) = _
      rw [takeWhile_map_toLower isDigit_toLower, dropWhile_map_toLower isDigit_toLower,
        map_toLower_takeWhile_isDigit]
      rfl
    · have hc' : c.toLower ≠ '.' := mt (toLower_eq_iff rfl).mp hc
      rw [List.map_cons, spanFraction_of_ne hc', spanFraction_of_ne hc]
      rfl

theorem unsignedDecimal?_map_toLower (cs : List Char) :
    unsignedDecimal? (cs.map Char.toLower) = unsignedDecimal? cs := by
  simp only [unsignedDecimal?_eq, takeWhile_map_toLower isDigit_toLower,
    dropWhile_map_toLower isDigit_toLower, map_toLower_takeWhile_isDigit, spanFraction_map_toLower,
    exponent?_map_toLower]

theorem numeral?_map_toLower (cs : List Char) : numeral? (cs.map Char.toLower) = numeral? cs := by
  simp only [numeral?, splitSign_map_toLower, unsignedDecimal?_map_toLower, List.map_map,
    Function.comp_def, Char.toLower_toLower_eq_toLower]

theorem double?_map_toLower (cs : List Char) : double? (cs.map Char.toLower) = double? cs := by
  rw [double?, double?, numeral?_map_toLower]

end Number

theorem realLiteral?_map_toLower (cs : List Char) :
    realLiteral? (cs.map Char.toLower) = realLiteral? cs := by
  rw [realLiteral?, realLiteral?, Number.double?_map_toLower]

end Formula
