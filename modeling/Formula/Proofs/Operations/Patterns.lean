import Formula.Operations.Comparison
import Formula.Proofs.Text.Regex
import Mathlib.Data.List.Forall2

/-!
# What patterns match

A pattern matches a text that can be cut into parts, one for each of its characters: any part for a
percent sign, one character for an underscore, and for any other character that one in either case.
The pattern goes through the language of regular expressions, where many characters mean something
else. Every character keeps its meaning on this way, and the anchors leave nothing of the text over.
-/

namespace Formula

open Text

namespace Text.Wildcard

def symbols (c : Char) : List Regex.Symbol :=
  if c = '%' then [.single .any, .star]
  else if c = '_' then [.single .any]
  else [.single (.letter c)]

def atom (c : Char) : Regex.Atom :=
  if c = '%' then .many .any else if c = '_' then .one .any else .one (.letter c)

/-- A character that is escaped is read as a letter, whatever it means by itself. -/
theorem symbols?_escape (c : Char) (cs : List Char) : Regex.symbols? (Regex.escape c ++ cs) =
    (Regex.symbols? cs).map (.single (.letter c) :: ·) := by
  by_cases hc : c ∈ Regex.metaCharacters
  · rw [Regex.escape, if_pos hc, List.cons_append, List.singleton_append, Regex.symbols?, if_pos hc]
  · have hne {d : Char} (hd : d ∈ Regex.metaCharacters) : c ≠ d := fun h => hc (h ▸ hd)
    have hsymbol : Regex.symbol? c = some (.single (.letter c)) := by
      simp [Regex.symbol?, hc, hne (d := '.') (by decide), hne (d := '^') (by decide),
        hne (d := '$') (by decide), hne (d := '*') (by decide)]
    rw [Regex.escape, if_neg hc, List.singleton_append, Regex.symbols?.eq_def]
    split
    · next h => cases h
    · next h => exact absurd (List.cons.inj h).1 (hne (by decide))
    · next h =>
      cases h
      rw [hsymbol]

theorem symbols?_charExpression (c : Char) (cs : List Char) :
    Regex.symbols? (charExpression c ++ cs) = (Regex.symbols? cs).map (symbols c ++ ·) := by
  unfold charExpression symbols
  split_ifs
  · change ((Regex.symbols? cs).map (Regex.Symbol.star :: ·)).map (.single .any :: ·) = _
    rw [Option.map_map]
    rfl
  · rfl
  · exact symbols?_escape c cs

theorem symbols?_expression (pattern : List Char) : Regex.symbols? (expression pattern) =
    some (.start :: (pattern.flatMap symbols ++ [.stop])) := by
  have hpattern : Regex.symbols? (pattern.flatMap charExpression ++ ['$']) =
      some (pattern.flatMap symbols ++ [.stop]) := by
    induction pattern with
    | nil => rfl
    | cons c pattern ih =>
      rw [List.flatMap_cons, List.append_assoc, symbols?_charExpression, ih, List.flatMap_cons,
        List.append_assoc, Option.map_some]
  change (Regex.symbols? (pattern.flatMap charExpression ++ ['$'])).map (Regex.Symbol.start :: ·) = _
  rw [hpattern, Option.map_some]

theorem atoms?_single {x : Regex.Single} {rest : List Regex.Symbol}
    (h : rest.head? ≠ some .star) :
    Regex.atoms? (.single x :: rest) = (Regex.atoms? rest).map (.one x :: ·) := by
  cases rest with
  | nil => rfl
  | cons y rest =>
    cases y with
    | star => exact absurd rfl h
    | _ => rfl

theorem head?_symbols_ne_star (pattern : List Char) :
    (pattern.flatMap symbols ++ [Regex.Symbol.stop]).head? ≠ some .star := by
  cases pattern with
  | nil => simp
  | cons c pattern =>
    rw [List.flatMap_cons, symbols]
    split_ifs <;> simp

theorem atoms?_symbols (pattern : List Char) :
    Regex.atoms? (pattern.flatMap symbols ++ [.stop]) = some (pattern.map atom ++ [.stop]) := by
  induction pattern with
  | nil => rfl
  | cons c pattern ih =>
    have hsingle (x : Regex.Single) := atoms?_single (x := x) (head?_symbols_ne_star pattern)
    rw [List.flatMap_cons, List.append_assoc, List.map_cons, List.cons_append, symbols, atom]
    split_ifs
    · change (Regex.atoms? (pattern.flatMap symbols ++ [.stop])).map (.many .any :: ·) = _
      rw [ih, Option.map_some]
    · rw [List.singleton_append, hsingle, ih, Option.map_some]
    · rw [List.singleton_append, hsingle, ih, Option.map_some]

/-- The expression of a pattern can be read, and has an atom for each character of the pattern. -/
theorem regex?_eq (pattern : List Char) :
    regex? pattern = some ⟨options, .start :: (pattern.map atom ++ [.stop])⟩ := by
  rw [regex?, Regex.ofChars?, symbols?_expression, Option.bind_some, Regex.atoms?, atoms?_symbols]
  rfl

/-- Points, stars and brackets are letters in a pattern. -/
example : expression ['a', '.', 'b', '%', '('] =
    ['^', 'a', '\\', '.', 'b', '.', '*', '\\', '(', '$'] := by
  decide

/-- What may stand in the place of a character of a pattern. -/
def StandsFor (c : Char) (part : List Char) : Prop :=
  if c = '%' then True
  else if c = '_' then part.length = 1
  else ∃ d, part = [d] ∧ CaseFolding.Same d c

/-- The text can be cut into parts, one after another for each character of the pattern. -/
def Fits (pattern text : List Char) : Prop :=
  ∃ parts : List (List Char), parts.flatten = text ∧ List.Forall₂ StandsFor pattern parts

theorem fits_nil {text : List Char} : Fits [] text ↔ text = [] := by
  simp [Fits, eq_comm]

theorem fits_cons {c : Char} {pattern text : List Char} : Fits (c :: pattern) text ↔
    ∃ part rest, text = part ++ rest ∧ StandsFor c part ∧ Fits pattern rest := by
  constructor
  · rintro ⟨_, rfl, _ | ⟨hpart, hparts⟩⟩
    exact ⟨_, _, List.flatten_cons, hpart, _, rfl, hparts⟩
  · rintro ⟨part, _, rfl, hpart, parts, rfl, hparts⟩
    exact ⟨part :: parts, List.flatten_cons, .cons hpart hparts⟩

theorem fits_append {first second text : List Char} : Fits (first ++ second) text ↔
    ∃ front rest, text = front ++ rest ∧ Fits first front ∧ Fits second rest := by
  induction first generalizing text with
  | nil => simp [fits_nil]
  | cons c first ih =>
    rw [List.cons_append, fits_cons]
    constructor
    · rintro ⟨part, _, rfl, hpart, hfits⟩
      obtain ⟨front, rest, rfl, hfront, hrest⟩ := ih.mp hfits
      exact ⟨part ++ front, rest, by rw [List.append_assoc],
        fits_cons.mpr ⟨part, front, rfl, hpart, hfront⟩, hrest⟩
    · rintro ⟨_, rest, rfl, hfront, hrest⟩
      obtain ⟨part, front, rfl, hpart, hfront⟩ := fits_cons.mp hfront
      exact ⟨part, front ++ rest, by rw [List.append_assoc], hpart,
        ih.mpr ⟨front, rest, rfl, hfront, hrest⟩⟩

theorem takes_any (c : Char) : Regex.Single.any.takes options c = true := rfl

theorem takes_letter {c d : Char} :
    (Regex.Single.letter c).takes options d = true ↔ CaseFolding.Same d c :=
  decide_eq_true_iff

theorem matchesAt_atom {c : Char} {atoms : List Regex.Atom} {before after : List Char} :
    Regex.MatchesAt options (atom c :: atoms) before after ↔
      ∃ part rest, after = part ++ rest ∧ StandsFor c part ∧
        Regex.MatchesAt options atoms (before ++ part) rest := by
  unfold atom StandsFor
  split_ifs
  · simp [Regex.MatchesAt, takes_any]
  · simp only [Regex.MatchesAt, takes_any, true_and]
    constructor
    · rintro ⟨d, rest, rfl, hrest⟩
      exact ⟨[d], rest, rfl, rfl, hrest⟩
    · rintro ⟨part, rest, rfl, hlength, hrest⟩
      obtain ⟨d, rfl⟩ := List.length_eq_one_iff.mp hlength
      exact ⟨d, rest, rfl, hrest⟩
  · simp only [Regex.MatchesAt, takes_letter]
    constructor
    · rintro ⟨d, rest, rfl, hd, hrest⟩
      exact ⟨[d], rest, rfl, ⟨d, rfl, hd⟩, hrest⟩
    · rintro ⟨_, rest, rfl, ⟨d, rfl, hd⟩, hrest⟩
      exact ⟨d, rest, rfl, hd, hrest⟩

theorem matchesAt_pattern {pattern before after : List Char} :
    Regex.MatchesAt options (pattern.map atom ++ [.stop]) before after ↔ Fits pattern after := by
  induction pattern generalizing before after with
  | nil => simp [Regex.MatchesAt, fits_nil]
  | cons c pattern ih =>
    rw [List.map_cons, List.cons_append, matchesAt_atom, fits_cons]
    simp only [ih]

/-- A match that begins where the text begins and ends where it ends is one of the whole text. -/
theorem isMatch_iff_fits {pattern text : List Char} {r : Regex} (h : regex? pattern = some r) :
    r.isMatch text = true ↔ Fits pattern text := by
  rw [regex?_eq] at h
  cases h
  rw [Regex.isMatch_iff]
  constructor
  · rintro ⟨before, after, rfl, rfl, hmatches⟩
    exact matchesAt_pattern.mp hmatches
  · intro hfits
    exact ⟨[], text, rfl, rfl, matchesAt_pattern.mpr hfits⟩

end Text.Wildcard

namespace Strategy

open Wildcard

variable {s : Strategy}

theorem like_strings (hs : s.Lawful) (t p : String) : s.like (.string t) (.string p) =
    match regex? p.toList with
    | some r => .ok (.boolean (r.isMatch t.toList))
    | none => .error (.invalidArgument (.unreadablePattern p)) := by
  have htext (u : String) : s.convert (.string u) .string = .ok (.string u) :=
    hs.convert_self (.string u)
  rw [like, htext t, htext p]
  rfl

theorem exists_like_string (hs : s.Lawful) (t p : String) :
    ∃ b, s.like (.string t) (.string p) = .ok (.boolean b) ∧
      (b = true ↔ Fits p.toList t.toList) := by
  have hread := regex?_eq p.toList
  refine ⟨_, ?_, isMatch_iff_fits hread⟩
  rw [like_strings hs, hread]

/-- A text is like a pattern if it can be cut into parts for the characters of the pattern, and is
found not to be like it otherwise. So it is like a pattern in two pieces if it can be cut into two
texts that are each like one of them. -/
theorem like_iff_fits (hs : s.Lawful) :
    (∀ t p : String,
      (s.like (.string t) (.string p) = .ok (.boolean true) ↔ Fits p.toList t.toList) ∧
      (s.like (.string t) (.string p) = .ok (.boolean false) ↔ ¬ Fits p.toList t.toList)) ∧
    ∀ t p q : String, s.like (.string t) (.string (p ++ q)) = .ok (.boolean true) ↔
      ∃ t₁ t₂, t = t₁ ++ t₂ ∧ s.like (.string t₁) (.string p) = .ok (.boolean true) ∧
        s.like (.string t₂) (.string q) = .ok (.boolean true) := by
  have htrue (t p : String) :
      s.like (.string t) (.string p) = .ok (.boolean true) ↔ Fits p.toList t.toList := by
    obtain ⟨b, hlike, hb⟩ := exists_like_string hs t p
    rw [hlike, ← hb]
    simp
  refine ⟨fun t p => ⟨htrue t p, ?_⟩, fun t p q => ?_⟩
  · obtain ⟨b, hlike, hb⟩ := exists_like_string hs t p
    rw [hlike, ← hb]
    simp
  · simp only [htrue, String.toList_append, fits_append]
    constructor
    · rintro ⟨front, rest, hsplit, hfront, hrest⟩
      refine ⟨String.ofList front, String.ofList rest, ?_, ?_, ?_⟩
      · rw [← String.ofList_append, ← hsplit, String.ofList_toList]
      · rwa [String.toList_ofList]
      · rwa [String.toList_ofList]
    · rintro ⟨t₁, t₂, rfl, hfront, hrest⟩
      exact ⟨_, _, String.toList_append, hfront, hrest⟩

/-- A run over the end of a line, a point that is only a point, a letter in the other case and any
character. -/
theorem like_iff_fits_lines :
    coercing.Lawful ∧ coercing.like (.string "a\n.Bx") (.string "%.b_") = .ok (.boolean true) ∧
      coercing.like (.string "a\nyBx") (.string "%.b_") = .ok (.boolean false) := by
  have hfits (text : List Char) := @isMatch_iff_fits "%.b_".toList text _ (regex?_eq _)
  have hlike := (like_iff_fits lawful_coercing).1
  refine ⟨lawful_coercing, (hlike _ _).1.mpr ((hfits _).mp ?_),
    (hlike _ _).2.mpr (mt (hfits _).mpr ?_)⟩
  · decide +kernel
  · decide +kernel

end Strategy

end Formula
