import Formula.Proofs.Lexical.Scanning

/-!
# The longest symbol

A tree made by adding symbols one after another holds each of them with the kind it was given last. What is
taken off a reader is the longest of these symbols that stands there, or a single character if none does,
so the order in which different symbols were added makes no difference.
-/

namespace Formula

open Text

/-- The longest front of a text with a property. -/
structure LongestFront (P : List Char → Prop) (cs w : List Char) : Prop where
  holds : P w
  front : w <+: cs
  longest : ∀ v, P v → v <+: cs → v.length ≤ w.length

namespace LongestFront

variable {P : List Char → Prop} {cs v w : List Char}

theorem prefix_of_front (h : LongestFront P cs w) (hv : P v) (hfront : v <+: cs) : v <+: w :=
  List.prefix_of_prefix_length_le hfront h.front (h.longest v hv hfront)

theorem unique (hv : LongestFront P cs v) (hw : LongestFront P cs w) : v = w :=
  (hw.prefix_of_front hv.holds hv.front).eq_of_length_le (hv.longest w hw.holds hw.front)

end LongestFront

namespace SymbolTree

variable {t : SymbolTree} {adds adds' : List (List Char × TokenKind)} {cs w : List Char}
  {kind : TokenKind} {n : Nat}

/-- A symbol that has been added and is not empty. -/
def Added (adds : List (List Char × TokenKind)) (w : List Char) : Prop :=
  w ≠ [] ∧ ∃ kind, (w, kind) ∈ adds

/-- The kind that a symbol was given last. -/
def lastKind? (adds : List (List Char × TokenKind)) (w : List Char) : Option TokenKind :=
  (adds.filter (·.1 = w)).getLast?.map (·.2)

theorem lastKind?_cons (symbol : List Char) (kind : TokenKind)
    (adds : List (List Char × TokenKind)) (w : List Char) : lastKind? ((symbol, kind) :: adds) w =
      (lastKind? adds w).or (if w = symbol then some kind else none) := by
  unfold lastKind?
  by_cases hsymbol : w = symbol
  · rw [if_pos hsymbol, List.filter_cons_of_pos (by simp [hsymbol]), List.getLast?_cons]
    cases (adds.filter (·.1 = w)).getLast? <;> rfl
  · rw [if_neg hsymbol, Option.or_none, List.filter_cons_of_neg]
    simpa using Ne.symm hsymbol

theorem exists_lastKind?_iff : (∃ kind, lastKind? adds w = some kind) ↔ ∃ kind, (w, kind) ∈ adds := by
  unfold lastKind?
  constructor
  · rintro ⟨kind, hkind⟩
    obtain ⟨add, hlast, rfl⟩ := Option.map_eq_some_iff.mp hkind
    obtain ⟨hmem, hsymbol⟩ := List.mem_filter.mp (List.mem_of_getLast? hlast)
    exact ⟨add.2, by rwa [← of_decide_eq_true hsymbol]⟩
  · rintro ⟨kind, hmem⟩
    have hne : adds.filter (·.1 = w) ≠ [] :=
      List.ne_nil_of_mem (List.mem_filter.mpr ⟨hmem, decide_eq_true rfl⟩)
    exact ⟨_, by rw [List.getLast?_eq_some_getLast hne]; rfl⟩

theorem kind?_ofList (hw : w ≠ []) : (ofList adds).kind? w = lastKind? adds w := by
  have hfold (adds : List (List Char × TokenKind)) (t : SymbolTree) :
      (adds.foldl (fun t add => t.add add.2 add.1) t).kind? w =
        (lastKind? adds w).or (t.kind? w) := by
    induction adds generalizing t with
    | nil => rfl
    | cons add adds ih =>
      obtain ⟨symbol, kind⟩ := add
      have hadd : (t.add kind symbol).kind? w = if w = symbol then some kind else t.kind? w := by
        by_cases hempty : symbol = []
        · rw [if_neg (by rintro rfl; exact hw hempty), hempty, add]
        · exact kind?_add kind symbol w hempty t
      rw [List.foldl_cons, ih, lastKind?_cons, hadd, Option.or_assoc]
      congr 1
      split_ifs <;> rfl
  have hleaf := hfold adds leaf
  rw [kind?_leaf, Option.or_none] at hleaf
  exact hleaf

/-- No symbol that the text begins with is longer than the one found. -/
theorem exists_longest? (h : t.kind? w = some kind) (hw : w <+: cs) :
    ∃ n k, t.longest? cs = some (n, k) ∧ w.length ≤ n := by
  induction w generalizing t cs with
  | nil => cases h
  | cons c w ih =>
    obtain ⟨cs', rfl⟩ : ∃ cs', cs = c :: cs' := by
      obtain ⟨rest, rfl⟩ := hw
      exact ⟨w ++ rest, rfl⟩
    have hrest : w <+: cs' := (List.cons_prefix_cons.mp hw).2
    cases w with
    | nil =>
      obtain ⟨⟨own, below⟩, hchild, rfl⟩ := Option.bind_eq_some_iff.mp h
      rw [longest?, hchild]
      dsimp only
      cases below.longest? cs' with
      | some found => exact ⟨found.1 + 1, found.2, rfl, Nat.le_add_left 1 found.1⟩
      | none => exact ⟨1, kind, rfl, Nat.le_refl 1⟩
    | cons d w =>
      rw [kind?_cons_cons] at h
      obtain ⟨⟨own, below⟩, hchild, hbelow⟩ := Option.bind_eq_some_iff.mp h
      obtain ⟨n, k, hfound, hlength⟩ := ih hbelow hrest
      rw [longest?, hchild]
      exact ⟨n + 1, k, by simp [hfound], Nat.succ_le_succ hlength⟩

/-- The lexeme is the longest of the symbols that the text begins with, of the kind that it was given last,
or one character that no symbol begins with. -/
inductive IsLongest (adds : List (List Char × TokenKind)) (cs : List Char) : Lexeme → Prop
  | symbol {w : List Char} {kind : TokenKind} (hw : LongestFront (Added adds) cs w)
    (hkind : lastKind? adds w = some kind) : IsLongest adds cs ⟨kind, w, w⟩
  | character {c : Char} (hc : [c] <+: cs) (hnone : ∀ w, Added adds w → ¬ w <+: cs) :
    IsLongest adds cs ⟨.symbol, [c], [c]⟩

theorem isLongest_of_symbolRule {x : Lexeme} (h : symbolRule (ofList adds) cs = .ok x) :
    IsLongest adds cs x := by
  cases cs with
  | nil => cases h
  | cons c cs =>
    have hadded {w : List Char} (hw : Added adds w) : ∃ kind, (ofList adds).kind? w = some kind := by
      rw [kind?_ofList hw.1, exists_lastKind?_iff]
      exact hw.2
    unfold symbolRule at h
    cases hlongest : (ofList adds).longest? (c :: cs) with
    | none =>
      rw [hlongest] at h
      cases h
      refine .character ⟨cs, rfl⟩ fun w hw hfront => ?_
      obtain ⟨kind, hkind⟩ := hadded hw
      obtain ⟨n, k, hfound, -⟩ := exists_longest? hkind hfront
      rw [hlongest] at hfound
      cases hfound
    | some found =>
      obtain ⟨n, kind⟩ := found
      rw [hlongest] at h
      cases h
      obtain ⟨hpos, hlength, hkind⟩ := longest?_eq_some hlongest
      have hne : (c :: cs).take n ≠ [] := by
        rw [Ne, List.take_eq_nil_iff]
        rintro (rfl | hnil)
        · exact Nat.lt_irrefl 0 hpos
        · cases hnil
      rw [kind?_ofList hne] at hkind
      refine .symbol ⟨⟨hne, exists_lastKind?_iff.mp ⟨kind, hkind⟩⟩, List.take_prefix n _, ?_⟩ hkind
      intro v hv hfront
      obtain ⟨k, hk⟩ := hadded hv
      obtain ⟨m, l, hfound, hle⟩ := exists_longest? hk hfront
      rw [hlongest] at hfound
      cases hfound
      rwa [List.length_take, Nat.min_eq_left hlength]

namespace IsLongest

theorem unique {x y : Lexeme} (hx : IsLongest adds cs x) (hy : IsLongest adds cs y) : x = y := by
  cases hx with
  | symbol hw hkind =>
    cases hy with
    | symbol hw' hkind' =>
      obtain rfl := hw.unique hw'
      rw [hkind] at hkind'
      cases hkind'
      rfl
    | character hc hnone => exact absurd hw.front (hnone _ hw.holds)
  | character hc hnone =>
    cases hy with
    | symbol hw hkind => exact absurd hw.front (hnone _ hw.holds)
    | character hd =>
      obtain ⟨rest, rfl⟩ := hc
      obtain ⟨rest', hrest⟩ := hd
      cases hrest
      rfl

theorem of_filter_eq {x : Lexeme} (h : ∀ w, adds'.filter (·.1 = w) = adds.filter (·.1 = w))
    (hx : IsLongest adds cs x) : IsLongest adds' cs x := by
  have hkind (w : List Char) : lastKind? adds' w = lastKind? adds w := by
    unfold lastKind?
    rw [h w]
  have hadded : Added adds' = Added adds := by
    funext w
    unfold Added
    rw [← exists_lastKind?_iff, ← exists_lastKind?_iff, hkind]
  cases hx with
  | symbol hw hk => exact .symbol (hadded ▸ hw) ((hkind _).trans hk)
  | character hc hnone => exact .character hc (hadded ▸ hnone)

end IsLongest

theorem scan_of_unread_eq_nil {r : Reader} (h : r.unread = []) : t.scan r = (none, r) := by
  rw [scan, Reader.read_of_unread_eq_nil h]

theorem scan_isLongest {r : Reader} {x : Lexeme} (h : ((ofList adds).scan r).1 = some x) :
    IsLongest adds r.unread x ∧ ((ofList adds).scan r).2.tape = r.tape.pass x.raw.length := by
  cases hunread : r.unread with
  | nil =>
    rw [scan_of_unread_eq_nil hunread] at h
    cases h
  | cons c cs =>
    obtain ⟨y, hrule, hscan, htape⟩ := (ofList adds).scan_spec hunread
    rw [h] at hscan
    cases hscan
    rw [← hunread]
    exact ⟨isLongest_of_symbolRule hrule, htape⟩

theorem IsLongest.front {x : Lexeme} (h : IsLongest adds cs x) : x.raw <+: cs := by
  cases h with
  | symbol hw hkind => exact hw.front
  | character hc hnone => exact hc

/-- Nothing is taken only where nothing is unread. Otherwise it is the longest of the symbols added, of the
kind it was given last, or one character, and the reader has just that behind it: whatever was read past it
is unread again, each character in its place. The order in which different symbols were added does not
matter. -/
theorem scan_takes_longest (adds : List (List Char × TokenKind)) (r : Reader) :
    (((ofList adds).scan r).1 = none ↔ r.unread = []) ∧
    (r.unread = [] → ((ofList adds).scan r).2 = r) ∧
    (∀ x, ((ofList adds).scan r).1 = some x → IsLongest adds r.unread x ∧
      r.unread = x.raw ++ ((ofList adds).scan r).2.unread ∧
      ((ofList adds).scan r).2.tape = r.tape.pass x.raw.length) ∧
    ∀ adds', (∀ w, adds'.filter (·.1 = w) = adds.filter (·.1 = w)) →
      ((ofList adds').scan r).1 = ((ofList adds).scan r).1 ∧
      ((ofList adds').scan r).2.tape = ((ofList adds).scan r).2.tape := by
  have htaken (adds : List (List Char × TokenKind)) (hne : r.unread ≠ []) :
      ∃ x, ((ofList adds).scan r).1 = some x := by
    obtain ⟨c, cs, hunread⟩ := List.exists_cons_of_ne_nil hne
    obtain ⟨x, -, hscan, -⟩ := (ofList adds).scan_spec hunread
    exact ⟨x, hscan⟩
  refine ⟨⟨fun hnone => ?_, fun hnil => ?_⟩, fun hnil => ?_, fun x hx => ?_, fun adds' hsame => ?_⟩
  · by_contra hne
    obtain ⟨x, hx⟩ := htaken adds hne
    rw [hnone] at hx
    cases hx
  · rw [scan_of_unread_eq_nil hnil]
  · rw [scan_of_unread_eq_nil hnil]
  · obtain ⟨hlongest, htape⟩ := scan_isLongest hx
    refine ⟨hlongest, ?_, htape⟩
    rw [Reader.unread_eq_drop htape]
    exact List.prefix_append_drop hlongest.front
  · by_cases hnil : r.unread = []
    · rw [scan_of_unread_eq_nil hnil, scan_of_unread_eq_nil hnil]
      exact ⟨rfl, rfl⟩
    · obtain ⟨x, hx⟩ := htaken adds hnil
      obtain ⟨y, hy⟩ := htaken adds' hnil
      obtain ⟨hlongest, htape⟩ := scan_isLongest hx
      obtain ⟨hlongest', htape'⟩ := scan_isLongest hy
      obtain rfl := (hlongest.of_filter_eq hsame).unique hlongest'
      exact ⟨hy.trans hx.symm, htape'.trans htape.symm⟩

theorem scan_takes_longest_swapped :
    ((ofList [(['<', '='], .symbol), (['<'], .symbol)]).scan (.ofString "<=1")).1 =
      ((ofList [(['<'], .symbol), (['<', '='], .symbol)]).scan (.ofString "<=1")).1 := by
  refine ((scan_takes_longest _ _).2.2.2 _ fun w => ?_).1
  by_cases hw : ['<'] = w
  · subst hw
    rfl
  · simp [List.filter_cons, hw]

end SymbolTree

end Formula
