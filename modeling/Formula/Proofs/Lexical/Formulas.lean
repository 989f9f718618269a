import Formula.Lexical.Lexicon

/-!
# The lexicon of formulas, character by character

Which rule takes over at a character, and which characters are blanks and letters. The
characters up to the space are the blanks; they end every token that is not quoted.
-/

namespace Formula

open Text

/-- Outcomes have no decidable equality, but what came out well can be compared. -/
theorem eq_ok_of_toOption {ε α : Type} {r : Except ε α} {x : α} (h : r.toOption = some x) :
    r = .ok x := by
  cases r with
  | ok y =>
    cases h
    rfl
  | error e => cases h

namespace Text.CharMap

variable {α : Type}

/-- The map of some ranges, the latest first, with its table made in one go. -/
def ofRanges (ranges : List (CharRange α)) : CharMap α where
  table := Vector.ofFn fun code : Fin 256 =>
    (ranges.find? fun r => decide (r.Covers code)).bind CharRange.value
  ranges := ranges.filter fun r => 256 ≤ r.last

theorem empty_eq_ofRanges : (empty : CharMap α) = ofRanges [] := by
  simp only [empty, ofRanges, List.find?_nil, Option.bind_none, List.filter_nil, mk.injEq,
    and_true]
  ext i hi
  simp

theorem assign_ofRanges (ranges : List (CharRange α)) {r : CharRange α}
    (hr : r.first ≤ r.last) : (ofRanges ranges).assign r = ofRanges (r :: ranges) := by
  simp only [assign, hr, if_true, ofRanges, mk.injEq]
  constructor
  · ext i hi
    by_cases hcovers : r.Covers i
    · have hfirst : r.first < 256 := Nat.lt_of_le_of_lt hcovers.1 hi
      simp [hfirst, hcovers]
    · split <;> simp [hcovers]
  · by_cases hlast : 256 ≤ r.last <;> simp [hlast]

end Text.CharMap

namespace Lexicon

theorem lookup_empty {α : Type} (c : Char) : (CharMap.empty : CharMap α).lookup c = none :=
  CharMap.find_empty c.toNat

theorem lookup_routes (c : Char) : formulas.routes.lookup c =
    if 47 ≤ c.toNat ∧ c.toNat ≤ 47 then some .comment
    else if 39 ≤ c.toNat ∧ c.toNat ≤ 39 then some .quote
    else if 34 ≤ c.toNat ∧ c.toNat ≤ 34 then some .quote
    else if 48 ≤ c.toNat ∧ c.toNat ≤ 57 then some .number
    else if 46 ≤ c.toNat ∧ c.toNat ≤ 46 then some .number
    else if 192 ≤ c.toNat ∧ c.toNat ≤ 65534 then some .word
    else if 95 ≤ c.toNat ∧ c.toNat ≤ 95 then some .word
    else if 65 ≤ c.toNat ∧ c.toNat ≤ 90 then some .word
    else if 97 ≤ c.toNat ∧ c.toNat ≤ 122 then some .word
    else if 0 ≤ c.toNat ∧ c.toNat ≤ 32 then some .whitespace
    else if 0 ≤ c.toNat ∧ c.toNat ≤ 255 then some .symbol
    else none := by
  simp only [formulas, usualRoutes, CharMap.setChar, CharMap.set, CharMap.lookup_assign,
    lookup_empty]
  rfl

theorem lookup_blanks (c : Char) :
    formulas.blanks.lookup c = if 0 ≤ c.toNat ∧ c.toNat ≤ 32 then some true else none := by
  simp only [formulas, usualBlanks, CharMap.set, CharMap.lookup_assign,
    lookup_empty]
  rfl

theorem lookup_letters (c : Char) : formulas.word.letters.lookup c =
    if 192 ≤ c.toNat ∧ c.toNat ≤ 65534 then some true
    else if 95 ≤ c.toNat ∧ c.toNat ≤ 95 then some true
    else if 48 ≤ c.toNat ∧ c.toNat ≤ 57 then some true
    else if 65 ≤ c.toNat ∧ c.toNat ≤ 90 then some true
    else if 97 ≤ c.toNat ∧ c.toNat ≤ 122 then some true
    else none := by
  simp only [formulas, usualLetters, CharMap.set, CharMap.lookup_assign,
    lookup_empty]
  rfl

theorem formulas_eq_ofRanges : formulas =
    { routes := .ofRanges [⟨47, 47, some .comment⟩, ⟨39, 39, some .quote⟩, ⟨34, 34, some .quote⟩,
        ⟨48, 57, some .number⟩, ⟨46, 46, some .number⟩, ⟨192, 65534, some .word⟩,
        ⟨95, 95, some .word⟩, ⟨65, 90, some .word⟩, ⟨97, 122, some .word⟩,
        ⟨0, 32, some .whitespace⟩, ⟨0, 255, some .symbol⟩]
      blanks := .ofRanges [⟨0, 32, some true⟩]
      word :=
        { letters := .ofRanges [⟨192, 65534, some true⟩, ⟨95, 95, some true⟩, ⟨48, 57, some true⟩,
            ⟨65, 90, some true⟩, ⟨97, 122, some true⟩]
          reserved := true }
      number := .scientific
      quote := .words
      comment := .blockOrLine
      symbols := symbolsOf ["<=", ">=", "<>", "!=", ">>", "<<"] } := by
  simp only [formulas, usualRoutes, usualBlanks, usualLetters, CharMap.setChar, CharMap.set,
    CharMap.empty_eq_ofRanges]
  repeat rw [CharMap.assign_ofRanges _ (by decide)]
  rfl

theorem next_cons {c : Char} {rule : RuleName} (h : formulas.routes.lookup c = some rule)
    (cs : List Char) : formulas.next (c :: cs) = formulas.apply rule (c :: cs) := by
  rw [next, h]

/-- Nothing follows, or a blank. -/
def EndsToken (rest : List Char) : Prop := ∀ c ∈ rest.head?, c.toNat ≤ 32

theorem EndsToken.head_ne {rest : List Char} (h : EndsToken rest) {d : Char} (hd : 32 < d.toNat) :
    rest.head? ≠ some d := by
  intro hrest
  have := h d hrest
  omega

/-- A run of letters ends where the text goes on with something else. -/
theorem runOf_append {letters : CharMap Bool} {run rest : List Char}
    (hrun : ∀ c ∈ run, letters.lookup c = some true)
    (hrest : ∀ c ∈ rest.head?, letters.lookup c = none) : runOf letters (run ++ rest) = run := by
  have hall : ∀ c ∈ run, (letters.lookup c).getD false = true := by
    intro c hc
    rw [hrun c hc]
    rfl
  rw [runOf, List.takeWhile_append_of_pos hall]
  cases rest with
  | nil => exact List.append_nil run
  | cons c rest =>
    have hc : (letters.lookup c).getD false = false := by
      rw [hrest c rfl]
      rfl
    rw [List.takeWhile_cons_of_neg (by rw [hc]; exact Bool.false_ne_true), List.append_nil]

theorem next_blanks {blanks rest : List Char} (hne : blanks ≠ [])
    (hblanks : ∀ c ∈ blanks, c.toNat ≤ 32) (hrest : ∀ c ∈ rest.head?, 32 < c.toNat) :
    formulas.next (blanks ++ rest) = .ok ⟨.whitespace, blanks, blanks⟩ := by
  have hrun : runOf formulas.blanks (blanks ++ rest) = blanks := by
    apply runOf_append
    · intro c hc
      rw [lookup_blanks, if_pos ⟨Nat.zero_le _, hblanks c hc⟩]
    · intro c hc
      have hc := hrest c hc
      rw [lookup_blanks, if_neg (by omega)]
  cases blanks with
  | nil => exact absurd rfl hne
  | cons c blanks =>
    have hroute : formulas.routes.lookup c = some .whitespace := by
      have hc := hblanks c (.head _)
      rw [lookup_routes]
      repeat rw [if_neg (by omega)]
      rw [if_pos ⟨Nat.zero_le _, hc⟩]
    rw [List.cons_append, next_cons hroute, apply, whitespaceRule, ← List.cons_append, hrun,
      if_neg hne]

end Lexicon

end Formula
