import Formula.Proofs.Lexical.LongestSymbols
import Formula.Proofs.Lexical.Numbers

/-!
# The longest number

The number rule of formulas takes the longest number that the text begins with. A point, a mark or a sign
that does not complete a number stays unread.
-/

namespace Formula

open Text

variable {symbols : SymbolTree} {c : Char} {cs w : List Char}

/-- Digits alone are an integer. -/
def numberKind (w : List Char) : TokenKind := if w.all Char.isDigit then .integer else .float

theorem numberKind_of_digits (h : ∀ c ∈ w, c.isDigit = true) : numberKind w = .integer :=
  if_pos (List.all_eq_true.mpr h)

theorem numberKind_of_mem (hmem : c ∈ w) (hc : c.isDigit = false) : numberKind w = .float := by
  refine if_neg fun hall => ?_
  rw [List.all_eq_true.mp hall c hmem] at hc
  cases hc

theorem PlainForm.isDigit_or_point (h : PlainForm w) : ∀ c ∈ w, c.isDigit = true ∨ c = '.' := by
  intro c hc
  cases h with
  | whole hne hds => exact .inl (hds c hc)
  | point hne hds hfs =>
    rcases List.mem_append.mp hc with hc | hc
    · exact .inl (hds c hc)
    · rcases List.mem_cons.mp hc with rfl | hc
      · exact .inr rfl
      · exact .inl (hfs c hc)

/-- Digits at the front of a text are among all the digits there. -/
theorem digits_prefix_spanDigits (hds : ∀ c ∈ w, c.isDigit = true) (hfront : w <+: cs) :
    w <+: (spanDigits cs).1 := by
  obtain ⟨rest, rfl⟩ := hfront
  rw [spanDigits, List.takeWhile_append_of_pos hds]
  exact List.prefix_append _ _

/-- A plain number at the front of a text ends within the digits there, or behind the point after them and
within the digits after that. -/
theorem PlainForm.front_cases (h : PlainForm w) (hfront : w <+: cs) :
    w ≠ [] ∧ w <+: (spanDigits cs).1 ∨ ∃ r fs, (spanDigits cs).2 = '.' :: r ∧
      w = (spanDigits cs).1 ++ '.' :: fs ∧ fs <+: (spanDigits r).1 ∧
      ((spanDigits cs).1 ≠ [] ∨ fs ≠ []) := by
  cases h with
  | whole hne hds => exact .inl ⟨hne, digits_prefix_spanDigits hds hfront⟩
  | @point ds fs hne hds hfs =>
    obtain ⟨rest, rfl⟩ := hfront
    rw [List.append_assoc, List.cons_append, spanDigits_append hds (by rintro c ⟨⟩; rfl)]
    exact .inr ⟨_, fs, rfl, rfl, digits_prefix_spanDigits hfs (List.prefix_append _ _), hne⟩

namespace PlainForm

/-- Digits that no point follows are the longest plain number there. -/
theorem longest_digits (hpoint : (spanDigits cs).2.head? ≠ some '.') (hne : (spanDigits cs).1 ≠ []) :
    LongestFront PlainForm cs (spanDigits cs).1 where
  holds := .whole hne isDigit_of_mem_spanDigits
  front := ⟨(spanDigits cs).2, spanDigits_append_eq cs⟩
  longest u hu hfront := by
    rcases hu.front_cases hfront with ⟨-, hdigits⟩ | ⟨r, fs, hr, -⟩
    · exact hdigits.length_le
    · exact absurd (by rw [hr]; rfl) hpoint

/-- With a point the longest plain number goes on through the digits behind it. -/
theorem longest_point {r : List Char} (hr : (spanDigits cs).2 = '.' :: r)
    (hne : (spanDigits cs).1 ≠ [] ∨ (spanDigits r).1 ≠ []) :
    LongestFront PlainForm cs ((spanDigits cs).1 ++ '.' :: (spanDigits r).1) where
  holds := .point hne isDigit_of_mem_spanDigits isDigit_of_mem_spanDigits
  front := by
    have hfront : [] ++ (spanDigits cs).1 ++ '.' :: (spanDigits r).1 <+: [] ++ cs := pointRun_front hr
    exact hfront
  longest u hu hfront := by
    rcases hu.front_cases hfront with ⟨-, hdigits⟩ | ⟨r', fs, hr', rfl, hfs, -⟩
    · exact (hdigits.trans (List.prefix_append _ _)).length_le
    · rw [hr] at hr'
      cases hr'
      refine List.IsPrefix.length_le ?_
      rw [List.prefix_append_right_inj, List.cons_prefix_cons]
      exact ⟨rfl, hfs⟩

/-- A point without a digit on either side begins no plain number. -/
theorem not_front_of_bare_point {r : List Char} (hr : (spanDigits cs).2 = '.' :: r)
    (hempty : (spanDigits cs).1 = [] ∧ (spanDigits r).1 = []) (h : PlainForm w) : ¬ w <+: cs := by
  intro hfront
  rcases h.front_cases hfront with ⟨hne, hdigits⟩ | ⟨r', fs, hr', -, hfs, hsome⟩
  · rw [hempty.1] at hdigits
    exact hne (List.prefix_nil.mp hdigits)
  · rw [hr] at hr'
    cases hr'
    rw [hempty.2] at hfs
    rcases hsome with hds | hne
    · exact hds hempty.1
    · exact hne (List.prefix_nil.mp hfs)

end PlainForm

theorem plainNumberRule_cases (symbols : SymbolTree) (hc : c.isDigit = true ∨ c = '.')
    (cs : List Char) :
    (∃ w, LongestFront PlainForm (c :: cs) w ∧
      plainNumberRule symbols (c :: cs) = .ok ⟨numberKind w, w, w⟩) ∨
    (∀ w, PlainForm w → ¬ w <+: c :: cs) ∧
      plainNumberRule symbols (c :: cs) = symbolRule symbols (c :: cs) := by
  have hminus : c ≠ '-' := by
    rintro rfl
    rcases hc with hc | hc <;> cases hc
  rw [plainNumberRule_of_ne symbols hminus]
  by_cases hpoint : (spanDigits (c :: cs)).2.head? = some '.'
  · obtain ⟨r, hr⟩ := List.head?_eq_some_iff.mp hpoint
    rw [numberAfterSign_point [] hr]
    by_cases hempty : (spanDigits (c :: cs)).1 = [] ∧ (spanDigits r).1 = []
    · rw [if_pos hempty]
      exact .inr ⟨fun w hw => hw.not_front_of_bare_point hr hempty, rfl⟩
    · rw [if_neg hempty]
      refine .inl ⟨_, PlainForm.longest_point hr (Decidable.not_and_iff_or_not.mp hempty), ?_⟩
      rw [numberKind_of_mem (List.mem_append_right _ (.head _)) rfl]
      rfl
  · rw [numberAfterSign_of_head_ne [] hpoint]
    have hne : (spanDigits (c :: cs)).1 ≠ [] := by
      rcases hc with hdigit | rfl
      · rw [spanDigits, List.takeWhile_cons_of_pos hdigit]
        exact List.cons_ne_nil _ _
      · exact absurd rfl hpoint
    rw [if_neg hne]
    refine .inl ⟨_, PlainForm.longest_digits hpoint hne, ?_⟩
    rw [numberKind_of_digits isDigit_of_mem_spanDigits]
    rfl

/-- An exponent at the front of a text is the front of the one that is taken. -/
theorem ExponentForm.prefix_exponentRun (h : ExponentForm w) (hfront : w <+: cs) :
    w <+: exponentRun cs := by
  cases h with
  | none => exact List.nil_prefix
  | @digits mark sign ds hmark hsign hne hds =>
    obtain ⟨rest, rfl⟩ := hfront
    have hall : ∀ c ∈ ds ++ (spanDigits rest).1, c.isDigit = true := by
      intro c hc
      rcases List.mem_append.mp hc with hc | hc
      · exact hds c hc
      · exact isDigit_of_mem_spanDigits c hc
    have hform : ExponentForm (mark :: (sign ++ (ds ++ (spanDigits rest).1))) :=
      .digits hmark hsign (List.append_ne_nil_of_left_ne_nil hne _) hall
    have hend : ∀ c ∈ (spanDigits rest).2.head?, c.isDigit = false := by
      intro c hc
      have hnot := List.head?_dropWhile_not Char.isDigit rest
      rw [show rest.dropWhile Char.isDigit = (spanDigits rest).2 from rfl, hc] at hnot
      exact hnot
    have hrun := hform.exponentRun_append (List.cons_ne_nil _ _) hend
    rw [List.cons_append, List.append_assoc, List.append_assoc, spanDigits_append_eq] at hrun
    rw [List.cons_append, List.append_assoc, hrun, List.cons_prefix_cons,
      List.prefix_append_right_inj]
    exact ⟨rfl, List.prefix_append _ _⟩

/-- Where no plain number at the front of the text goes past `plain`, no number goes past the exponent
behind it. -/
theorem NumberForm.length_le {v plain rest : List Char} (h : NumberForm v)
    (hfront : v <+: plain ++ rest) (hplain : LongestFront PlainForm (plain ++ rest) plain) :
    v.length ≤ (plain ++ exponentRun rest).length := by
  obtain ⟨hp, he⟩ := h
  rename_i u e
  obtain ⟨more, rfl⟩ := hplain.prefix_of_front hp ((List.prefix_append u e).trans hfront)
  rw [List.append_assoc, List.prefix_append_right_inj] at hfront
  cases more with
  | nil =>
    rw [List.append_nil, List.length_append, List.length_append]
    exact Nat.add_le_add_left (he.prefix_exponentRun hfront).length_le u.length
  | cons d more =>
    by_cases hne : e = []
    · rw [hne, List.append_nil, List.append_assoc]
      exact (List.prefix_append u _).length_le
    · obtain ⟨mark, r, rfl, hmark⟩ := he.exists_cons hne
      obtain ⟨rfl, -⟩ := List.cons_prefix_cons.mp hfront
      rcases hplain.holds.isDigit_or_point mark (List.mem_append_right u (.head more)) with hd | rfl
      · rcases hmark with rfl | rfl <;> cases hd
      · rcases hmark with hmark | hmark <;> cases hmark

theorem exponentRun_cases (cs : List Char) :
    exponentRun cs = [] ∨ ∃ mark r, exponentRun cs = mark :: r ∧ mark.isDigit = false := by
  by_cases hne : exponentRun cs = []
  · exact .inl hne
  · obtain ⟨mark, r, hcons, hmark⟩ := (exponentForm_exponentRun cs).exists_cons hne
    exact .inr ⟨mark, r, hcons, by rcases hmark with rfl | rfl <;> rfl⟩

/-- The rule takes the longest number, and the symbol where there is none. -/
theorem scientificNumberRule_cases (hc : c.isDigit = true ∨ c = '.')
    (hs : ∀ x, symbolRule symbols (c :: cs) = .ok x → ¬ (x.kind = .integer ∨ x.kind = .float)) :
    (∃ w, LongestFront NumberForm (c :: cs) w ∧
      scientificNumberRule symbols (c :: cs) = .ok ⟨numberKind w, w, w⟩) ∨
    (∀ w, NumberForm w → ¬ w <+: c :: cs) ∧
      scientificNumberRule symbols (c :: cs) = symbolRule symbols (c :: cs) := by
  have hminus : (c :: cs).head? ≠ some '-' := by
    rintro ⟨⟩
    rcases hc with hc | hc <;> cases hc
  unfold scientificNumberRule
  rw [if_neg hminus]
  rcases plainNumberRule_cases symbols hc cs with ⟨plain, hplain, hrule⟩ | ⟨hnone, hrule⟩
  · obtain ⟨rest, hrest⟩ := hplain.front
    rw [hrule]
    have hkind : numberKind plain = .integer ∨ numberKind plain = .float := by
      unfold numberKind
      split_ifs
      · exact .inl rfl
      · exact .inr rfl
    dsimp only
    rw [if_pos hkind, ← hrest, List.drop_left]
    rw [← hrest] at hplain
    refine .inl ⟨plain ++ exponentRun rest,
      ⟨.mk hplain.holds (exponentForm_exponentRun rest), ?_, ?_⟩, ?_⟩
    · rw [List.prefix_append_right_inj]
      exact exponentRun_front rest
    · exact fun v hv hfront => hv.length_le hfront hplain
    · obtain hempty | ⟨mark, r, hcons, hmark⟩ := exponentRun_cases rest
      · rw [if_pos hempty, hempty, List.append_nil]
      · rw [hcons, if_neg (List.cons_ne_nil mark r),
          numberKind_of_mem (List.mem_append_right plain (.head r)) hmark]
  · rw [hrule]
    refine .inr ⟨fun w hw hfront => ?_, ?_⟩
    · obtain ⟨hp, -⟩ := hw
      exact hnone _ hp ((List.prefix_append _ _).trans hfront)
    · cases hsymbol : symbolRule symbols (c :: cs) with
      | error e => rfl
      | ok x => exact if_neg (hs x hsymbol)

namespace Lexicon

/-- A reader in front of a digit or a point gives the longest number there, and has just that behind it.
Where no number stands the point is read like a symbol. -/
theorem formulas_number_longest {r : Reader} (hunread : r.unread = c :: cs)
    (hc : c.isDigit = true ∨ c = '.') :
    (∃ w, LongestFront NumberForm r.unread w ∧
      (scanScientificNumber formulas.symbols r).1 = .ok ⟨numberKind w, w, w⟩ ∧
      r.unread = w ++ (scanScientificNumber formulas.symbols r).2.unread ∧
      (scanScientificNumber formulas.symbols r).2.tape = r.tape.pass w.length ∧
      ∀ before rest, r.tape = .ofText before rest →
        (scanScientificNumber formulas.symbols r).2.position = .after (before ++ w)) ∨
    (∀ w, NumberForm w → ¬ w <+: r.unread) ∧
      (scanScientificNumber formulas.symbols r).1 = (scanSymbol formulas.symbols r).1 ∧
      (scanScientificNumber formulas.symbols r).2.tape = (scanSymbol formulas.symbols r).2.tape := by
  obtain ⟨hresult, htape⟩ := scanScientificNumber_scans formulas.symbols r
  have hkind : ∀ x, symbolRule formulas.symbols (c :: cs) = .ok x →
      ¬ (x.kind = .integer ∨ x.kind = .float) := by
    intro x hx
    obtain ⟨y, hy, hsymbol, -⟩ := symbolRule_cons formulas_wellRouted.symbols c cs
    obtain rfl : y = x := Except.ok.inj (hy.symm.trans hx)
    simp [hsymbol]
  have hcases := scientificNumberRule_cases hc hkind
  rw [← hunread] at hcases
  rcases hcases with ⟨w, hlongest, hrule⟩ | ⟨hnone, hrule⟩
  · rw [hrule, LexemeResult.taken] at htape
    have hrest := Reader.unread_eq_drop htape
    refine .inl ⟨w, hlongest, hresult.trans hrule, ?_, htape, fun before rest hplace => ?_⟩
    · rw [hrest]
      exact List.prefix_append_drop hlongest.front
    · obtain ⟨rest', hsplit⟩ : w <+: rest := by
        rw [← Tape.chars_ofText before rest, ← hplace, Reader.chars_tape]
        exact hlongest.front
      rw [← Reader.position_tape, htape, hplace, ← hsplit, Tape.pass_ofText, Tape.position_ofText]
  · obtain ⟨hsymbol, hsymbolTape⟩ := scanSymbol_scans formulas.symbols r
    rw [hrule] at hresult htape
    exact .inr ⟨hnone, hresult.trans hsymbol.symm, htape.trans hsymbolTape.symm⟩

/-- An exponent without digits is not part of the number, and the reader stands before its mark. -/
theorem formulas_number_longest_open_exponent :
    let read := scanScientificNumber formulas.symbols (.ofString "1.5e+x")
    LongestFront NumberForm "1.5e+x".toList ['1', '.', '5'] ∧
      read.1 = .ok ⟨.float, ['1', '.', '5'], ['1', '.', '5']⟩ ∧
      read.2.unread = ['e', '+', 'x'] ∧ read.2.position = ⟨1, 4⟩ := by
  have hread : (scanScientificNumber formulas.symbols (.ofString "1.5e+x")).1 =
      .ok ⟨.float, ['1', '.', '5'], ['1', '.', '5']⟩ := eq_ok_of_toOption (by decide +kernel)
  have hunread : (Reader.ofString "1.5e+x").unread = '1' :: ".5e+x".toList := by decide
  rcases formulas_number_longest hunread (.inl rfl) with
    ⟨w, hw, hresult, hrest, -, hplace⟩ | ⟨hnone, -⟩
  · rw [hread, Except.ok.injEq, Lexeme.mk.injEq] at hresult
    obtain ⟨-, rfl, -⟩ := hresult
    have htape : (Reader.ofString "1.5e+x").tape = .ofText [] "1.5e+x".toList := rfl
    rw [hunread, List.cons_append, List.cons.injEq] at hrest
    have hbehind : ['.', '5'] ++ ['e', '+', 'x'] = ['.', '5'] ++ _ := hrest.2
    exact ⟨hw, hread, (List.append_cancel_left hbehind).symm, hplace _ _ htape⟩
  · have hone : PlainForm ['1'] := .whole (by decide) (List.forall_mem_singleton.mpr rfl)
    refine absurd ?_ (hnone ['1'] hone.number)
    rw [hunread]
    exact List.prefix_append ['1'] _

end Lexicon

end Formula
