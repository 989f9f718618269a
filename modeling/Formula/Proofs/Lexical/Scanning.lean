import Formula.Lexical.Scanning
import Formula.Proofs.Lexical.Case
import Formula.Proofs.Text.Tape

/-!
# Rules on a reader

A rule that scans from a reader finds the lexeme that the rule finds in the unread text, and leaves the
reader behind that lexeme: everything that was read past it has been put back in order and in its place.
Only a quote that nothing closes leaves the reader at the end.
-/

namespace Formula

open Text

variable {r r' : Reader} {symbols : SymbolTree} {c : Char} {cs : List Char}

/-- The characters that a result takes off a text: its lexeme, or everything if a quote stays open. -/
def LexemeResult.taken (cs : List Char) : LexemeResult → Nat
  | .ok x => x.raw.length
  | .error (.unterminatedString _) => cs.length
  | .error _ => 0

/-- A reader gives the result of a rule and stands behind what it takes off the text. -/
structure Scans (r : Reader) (scanned : LexemeResult × Reader) (result : LexemeResult) : Prop where
  fst_eq : scanned.1 = result
  tape_eq : scanned.2.tape = r.tape.pass (result.taken r.unread)

theorem Scans.of_tape_eq {scanned : LexemeResult × Reader} {result : LexemeResult}
    (h : Scans r' scanned result) (htape : r'.tape = r.tape) : Scans r scanned result where
  fst_eq := h.fst_eq
  tape_eq := by rw [h.tape_eq, htape, ← Reader.chars_tape r', htape, Reader.chars_tape]

theorem scanDigits_spec (r : Reader) : (scanDigits r).1 = (spanDigits r.unread).1 ∧
    (scanDigits r).2.tape = r.tape.pass (spanDigits r.unread).1.length := by
  fun_induction scanDigits r with
  | case1 r c hc hdigit ds r' hrest ih =>
    obtain ⟨cs, hcs⟩ := List.head?_eq_some_iff.mp hc
    have hmore := Reader.unread_read_of_cons hcs
    have hspan : (spanDigits r.unread).1 = c :: (spanDigits cs).1 := by
      rw [hcs, spanDigits, List.takeWhile_cons_of_pos hdigit]
      rfl
    rw [hrest, hmore] at ih
    obtain ⟨hds, htape⟩ := ih
    refine ⟨by rw [hspan, ← hds], ?_⟩
    rw [htape, Reader.tape_read hcs, Tape.pass_pass, hspan, List.length_cons,
      Nat.add_comm]
  | case2 r c hc hdigit =>
    obtain ⟨cs, hcs⟩ := List.head?_eq_some_iff.mp hc
    have hspan : (spanDigits r.unread).1 = [] := by
      rw [hcs, spanDigits, List.takeWhile_cons_of_neg hdigit]
    rw [hspan]
    exact ⟨rfl, rfl⟩
  | case3 r hnone =>
    have hspan : (spanDigits r.unread).1 = [] := by
      rw [List.head?_eq_none_iff.mp hnone]
      rfl
    rw [hspan]
    exact ⟨rfl, rfl⟩

theorem exists_scanDigits (r : Reader) : ∃ r', scanDigits r = ((spanDigits r.unread).1, r') ∧
    r'.tape = r.tape.pass (spanDigits r.unread).1.length ∧ r'.unread = (spanDigits r.unread).2 := by
  obtain ⟨hdigits, htape⟩ := scanDigits_spec r
  refine ⟨(scanDigits r).2, Prod.ext hdigits rfl, htape, ?_⟩
  rw [Reader.unread_eq_drop htape]
  nth_rewrite 2 [← spanDigits_append_eq r.unread]
  exact List.drop_left

theorem Walk.seen_step (w : Walk) (c : Char) (kind : Option TokenKind) :
    (w.step c kind).seen = w.seen ++ [c] := by
  cases kind <;> rfl

/-- A walk that ends somewhere has seen the characters up to there, and its symbol is the longest one below
the tree where it began, if there is one. -/
theorem SymbolTree.walk_spec (below : SymbolTree) (w : Walk) (r : Reader) :
    ∃ n, (below.walk w r).1.seen = w.seen ++ r.unread.take n ∧
      (below.walk w r).2.tape = r.tape.pass n ∧ n ≤ r.unread.length ∧
      match below.longest? r.unread with
      | some (m, kind) => m ≤ n ∧ (below.walk w r).1.length = w.seen.length + m ∧
        (below.walk w r).1.kind = kind
      | none => (below.walk w r).1.length = w.length ∧ (below.walk w r).1.kind = w.kind := by
  fun_induction walk below w r with
  | case1 below w r r' hread =>
    obtain ⟨hunread, rfl⟩ := Reader.of_read_eq_none hread
    rw [hunread]
    exact ⟨0, by simp, rfl, Nat.le_refl 0, rfl, rfl⟩
  | case2 below w r c r' hread kind below' hchild ih =>
    obtain ⟨hunread, hread⟩ := Reader.of_read_eq_some hread
    obtain ⟨n, hseen, htape, hle, hbest⟩ := ih
    refine ⟨n + 1, ?_, ?_, ?_, ?_⟩
    · rw [hseen, w.seen_step, hunread, List.take_succ_cons, List.append_assoc]
      rfl
    · rw [htape, hread, Tape.pass_pass, Nat.add_comm]
    · rw [hunread]
      exact Nat.succ_le_succ hle
    · rw [hunread, longest?, hchild]
      rw [w.seen_step, List.length_append] at hbest
      dsimp only
      cases hfound : below'.longest? r'.unread with
      | some found =>
        obtain ⟨m, k⟩ := found
        rw [hfound] at hbest
        obtain ⟨hm, hlength, hkind⟩ := hbest
        exact ⟨Nat.succ_le_succ hm, by rw [hlength, List.length_singleton]; omega, hkind⟩
      | none =>
        rw [hfound] at hbest
        cases kind with
        | some k => exact ⟨Nat.le_add_left 1 n, hbest.1.trans (List.length_append), hbest.2⟩
        | none => exact hbest
  | case3 below w r c r' hread hchild =>
    obtain ⟨hunread, hread⟩ := Reader.of_read_eq_some hread
    have hback : (r'.unreadChar c).tape = r.tape.pass 0 := by
      refine Reader.tape_unreadChar hread ?_
      rw [Reader.chars_tape, hunread]
      rfl
    refine ⟨0, by simp, hback, Nat.zero_le _, ?_⟩
    rw [hunread, longest?, hchild]
    exact ⟨rfl, rfl⟩

/-- What a walk has seen behind its symbol goes back to the reader. -/
theorem Walk.tape_pushBackAll {w : Walk} {n : Nat} (hseen : w.seen = r.unread.take n)
    (hn : n ≤ r.unread.length) (htape : r'.tape = r.tape.pass n) (hlength : w.length ≤ n) :
    w.seen.take w.length = r.unread.take w.length ∧
      (r'.pushBackAll (w.seen.drop w.length)).tape = r.tape.pass w.length := by
  have htake : w.seen.take w.length = r.unread.take w.length := by
    rw [hseen, List.take_take, Nat.min_eq_left hlength]
  refine ⟨htake, Reader.tape_pushBackAll ?_ ?_⟩
  · rw [htape, hseen, List.length_drop, List.length_take, Nat.min_eq_left hn]
    congr 1
    omega
  · rw [Reader.chars_tape, hseen]
    exact (List.take_prefix n r.unread).drop w.length

/-- The symbol that a walk from the first character on ends with is the one that the rule finds. -/
theorem Walk.symbolRule_eq {t below : SymbolTree} {kind : Option TokenKind} {w : Walk} {n : Nat}
    (hchild : t.child? c = some (kind, below))
    (h : match below.longest? cs with
      | some (m, k) => m ≤ n ∧ w.length = 1 + m ∧ w.kind = k
      | none => w.length = 1 ∧ w.kind = kind.getD .symbol) :
    w.length ≤ n + 1 ∧ symbolRule t (c :: cs) =
      .ok ⟨w.kind, (c :: cs).take w.length, (c :: cs).take w.length⟩ := by
  unfold symbolRule
  cases hfound : below.longest? cs with
  | some found =>
    obtain ⟨m, k⟩ := found
    have hlongest : t.longest? (c :: cs) = some (m + 1, k) := by
      simp [SymbolTree.longest?, hchild, hfound]
    rw [hfound] at h
    obtain ⟨hm, hlength, rfl⟩ := h
    rw [hlongest, hlength, Nat.add_comm 1 m]
    exact ⟨Nat.succ_le_succ hm, rfl⟩
  | none =>
    have hlongest : t.longest? (c :: cs) = kind.map fun k => (1, k) := by
      simp [SymbolTree.longest?, hchild, hfound]
    rw [hfound] at h
    obtain ⟨hlength, hkind⟩ := h
    rw [hlongest, hlength, hkind]
    cases kind with
    | some k => exact ⟨Nat.le_add_left 1 n, rfl⟩
    | none => exact ⟨Nat.le_add_left 1 n, rfl⟩

theorem SymbolTree.scan_spec (t : SymbolTree) (h : r.unread = c :: cs) :
    ∃ x, symbolRule t r.unread = .ok x ∧ (t.scan r).1 = some x ∧
      (t.scan r).2.tape = r.tape.pass x.raw.length := by
  have hread : r.read = (some c, r.read.2) := Prod.ext (by rw [Reader.read_fst, h]; rfl) rfl
  have hfirst := Reader.tape_read h
  have hrest := Reader.unread_read_of_cons h
  unfold scan
  rw [hread]
  dsimp only
  cases hchild : t.child? c with
  | none =>
    refine ⟨⟨.symbol, [c], [c]⟩, ?_, rfl, hfirst⟩
    rw [h, symbolRule, longest?, hchild]
  | some child =>
    obtain ⟨kind, below⟩ := child
    obtain ⟨n, hseen, htape, hn, hbest⟩ := below.walk_spec ⟨[c], 1, kind.getD .symbol⟩ r.read.2
    rw [hrest] at hseen hn hbest
    rw [hfirst, Tape.pass_pass, Nat.add_comm] at htape
    dsimp only
    generalize below.walk ⟨[c], 1, kind.getD .symbol⟩ r.read.2 = walked at *
    obtain ⟨w, r'⟩ := walked
    obtain ⟨hlength, hrule⟩ := Walk.symbolRule_eq hchild hbest
    have hle : n + 1 ≤ r.unread.length := by
      rw [h]
      exact Nat.succ_le_succ hn
    obtain ⟨htake, hback⟩ := Walk.tape_pushBackAll (by rw [h]; exact hseen) hle htape hlength
    rw [← h] at hrule
    refine ⟨_, hrule, by rw [htake], ?_⟩
    rw [hback, List.length_take, Nat.min_eq_left (hlength.trans hle)]

theorem scanSymbol_scans (symbols : SymbolTree) (r : Reader) :
    Scans r (scanSymbol symbols r) (symbolRule symbols r.unread) := by
  cases hunread : r.unread with
  | nil =>
    unfold scanSymbol SymbolTree.scan
    rw [Reader.read_of_unread_eq_nil hunread]
    exact ⟨rfl, rfl⟩
  | cons c cs =>
    obtain ⟨x, hrule, hscan, htape⟩ := symbols.scan_spec hunread
    have hsymbol : scanSymbol symbols r = (.ok x, (symbols.scan r).2) := by
      unfold scanSymbol
      split
      · next y r' heq =>
        rw [heq] at hscan ⊢
        cases hscan
        rfl
      · next heq =>
        rw [heq] at hscan
        cases hscan
    rw [← hunread, hrule, hsymbol]
    exact ⟨rfl, htape⟩

/-- The sign has been read and stands in front of what is unread. -/
theorem scanAfterSign_scans {sign body : List Char} (htape : r'.tape = r.tape.pass sign.length)
    (hunread : r.unread = sign ++ body) :
    Scans r (scanAfterSign symbols sign r') (numberAfterSign symbols sign body) := by
  have hbody : r'.unread = body := by rw [Reader.unread_eq_drop htape, hunread, List.drop_left]
  have hback {r₁ : Reader} (h : r₁.tape = r.tape.pass sign.length) :
      Scans r (scanSymbol symbols (r₁.pushBackAll sign)) (symbolRule symbols (sign ++ body)) := by
    have hsame : (r₁.pushBackAll sign).tape = r.tape := by
      refine Reader.tape_pushBackAll (t := r.tape) (n := 0) (by rw [h, Nat.zero_add]) ?_
      rw [Reader.chars_tape, hunread]
      exact List.prefix_append sign body
    have hscans := (scanSymbol_scans symbols (r₁.pushBackAll sign)).of_tape_eq hsame
    rwa [← Reader.chars_tape, hsame, Reader.chars_tape, hunread] at hscans
  obtain ⟨r₂, hwhole, htape₂, hrest⟩ := exists_scanDigits r'
  rw [hbody] at hwhole htape₂ hrest
  rw [htape, Tape.pass_pass] at htape₂
  unfold scanAfterSign
  rw [hwhole]
  dsimp only
  by_cases hpoint : (spanDigits body).2.head? = some '.'
  · obtain ⟨cs, hcs⟩ := List.head?_eq_some_iff.mp hpoint
    rw [numberAfterSign_point sign hcs, if_pos (by rw [Reader.peek, hrest]; exact hpoint)]
    have hread := Reader.tape_read (hrest.trans hcs)
    have hmore := Reader.unread_read_of_cons (hrest.trans hcs)
    obtain ⟨r₃, hfraction, htape₃, -⟩ := exists_scanDigits r₂.read.2
    rw [hmore] at hfraction htape₃
    rw [hread, htape₂, Tape.pass_pass, Tape.pass_pass] at htape₃
    rw [hfraction]
    dsimp only
    split_ifs with hempty
    · rw [hempty.1, hempty.2] at htape₃
      have hbody : body = '.' :: cs := by
        rw [← spanDigits_append_eq body, hempty.1, hcs, List.nil_append]
      refine hback (Reader.tape_unreadChar htape₃ ?_)
      rw [Reader.chars_tape, hunread, List.getElem?_append_right (Nat.le_refl _), Nat.sub_self, hbody]
      rfl
    · refine ⟨rfl, htape₃.trans (congrArg r.tape.pass ?_)⟩
      simp only [LexemeResult.taken, List.length_append, List.length_cons]
      omega
  · rw [numberAfterSign_of_head_ne sign hpoint,
      if_neg (by rw [Reader.peek, hrest]; exact hpoint)]
    split_ifs with hempty hsign
    · rw [hempty, hsign] at htape₂
      exact ⟨rfl, htape₂⟩
    · rw [hempty] at htape₂
      exact hback htape₂
    · exact ⟨rfl, htape₂.trans (by rw [LexemeResult.taken, List.length_append])⟩

theorem scanPlainNumber_scans (symbols : SymbolTree) (r : Reader) :
    Scans r (scanPlainNumber symbols r) (plainNumberRule symbols r.unread) := by
  unfold scanPlainNumber
  split_ifs with hminus
  · obtain ⟨cs, hcs⟩ := List.head?_eq_some_iff.mp hminus
    rw [hcs, plainNumberRule_minus]
    exact scanAfterSign_scans (Reader.tape_read hcs) hcs
  · have hrule : plainNumberRule symbols r.unread = numberAfterSign symbols [] r.unread := by
      cases hunread : r.unread with
      | nil => rfl
      | cons c cs =>
        refine plainNumberRule_of_ne symbols ?_ cs
        rintro rfl
        exact hminus (by rw [Reader.peek, hunread]; rfl)
    rw [hrule]
    exact scanAfterSign_scans rfl rfl

theorem exists_scanSign (r : Reader) : ∃ r', scanSign r = ((spanSign r.unread).1, r') ∧
    r'.tape = r.tape.pass (spanSign r.unread).1.length ∧ r'.unread = (spanSign r.unread).2 := by
  unfold scanSign Reader.peek
  cases hunread : r.unread with
  | nil => exact ⟨r, rfl, rfl, hunread⟩
  | cons c cs =>
    have htape := Reader.tape_read hunread
    have hrest := Reader.unread_read_of_cons hunread
    by_cases hplus : c = '+'
    · subst hplus
      exact ⟨r.read.2, rfl, htape, hrest⟩
    · by_cases hminus : c = '-'
      · subst hminus
        exact ⟨r.read.2, rfl, htape, hrest⟩
      · rw [spanSign_of_ne hplus hminus]
        refine ⟨r, ?_, rfl, hunread⟩
        split
        · next heq => exact absurd (Option.some.inj heq) hplus
        · next heq => exact absurd (Option.some.inj heq) hminus
        · rfl

theorem spanSign_append_eq (cs : List Char) : (spanSign cs).1 ++ (spanSign cs).2 = cs := by
  unfold spanSign
  split <;> rfl

theorem scanExponent_spec (r : Reader) : (scanExponent r).1 = exponentRun r.unread ∧
    (scanExponent r).2.tape = r.tape.pass (exponentRun r.unread).length := by
  unfold scanExponent Reader.peek
  cases hunread : r.unread with
  | nil => exact ⟨rfl, rfl⟩
  | cons mark cs =>
    have hread := Reader.tape_read hunread
    have hrest := Reader.unread_read_of_cons hunread
    rw [exponentRun_cons]
    dsimp only [List.head?_cons]
    by_cases hmark : mark = 'e' ∨ mark = 'E'
    · rw [if_pos hmark, if_pos hmark]
      obtain ⟨r₂, hsign, htape₂, hunread₂⟩ := exists_scanSign r.read.2
      obtain ⟨r₃, hdigits, htape₃, -⟩ := exists_scanDigits r₂
      rw [hrest] at hsign htape₂ hunread₂
      rw [hunread₂] at hdigits htape₃
      rw [htape₂, hread, Tape.pass_pass, Tape.pass_pass] at htape₃
      rw [hsign]
      dsimp only
      rw [hdigits]
      dsimp only
      by_cases hempty : (spanDigits (spanSign cs).2).1 = []
      · rw [if_pos hempty, if_pos hempty]
        rw [hempty] at htape₃
        refine ⟨rfl, Reader.tape_pushBackAll ?_ ?_⟩
        · rw [htape₃]
          congr 1
          simp only [List.length_cons, List.length_nil]
          omega
        · rw [Reader.chars_tape, hunread, List.length_nil, List.drop_zero]
          exact ⟨(spanSign cs).2, congrArg (mark :: ·) (spanSign_append_eq cs)⟩
      · rw [if_neg hempty, if_neg hempty]
        refine ⟨rfl, htape₃.trans (congrArg r.tape.pass ?_)⟩
        simp only [List.length_append, List.length_cons]
        omega
    · rw [if_neg hmark, if_neg hmark]
      exact ⟨rfl, rfl⟩

theorem scanScientificNumber_scans (symbols : SymbolTree) (r : Reader) :
    Scans r (scanScientificNumber symbols r) (scientificNumberRule symbols r.unread) := by
  unfold scanScientificNumber scientificNumberRule Reader.peek
  by_cases hminus : r.unread.head? = some '-'
  · rw [if_pos hminus, if_pos hminus]
    exact scanSymbol_scans symbols r
  · rw [if_neg hminus, if_neg hminus]
    obtain ⟨hresult, htape⟩ := scanPlainNumber_scans symbols r
    generalize scanPlainNumber symbols r = scanned at *
    obtain ⟨result, r₁⟩ := scanned
    dsimp only at hresult htape
    subst hresult
    cases hrule : plainNumberRule symbols r.unread with
    | error e =>
      rw [hrule] at htape
      exact ⟨rfl, htape⟩
    | ok x =>
      rw [hrule] at htape
      dsimp only
      by_cases hkind : x.kind = .integer ∨ x.kind = .float
      · rw [if_pos hkind, if_pos hkind]
        obtain ⟨hexponent, htape₂⟩ := scanExponent_spec r₁
        rw [Reader.unread_eq_drop htape, LexemeResult.taken] at hexponent htape₂
        rw [htape, Tape.pass_pass, LexemeResult.taken] at htape₂
        rw [← hexponent] at htape₂ ⊢
        by_cases hempty : (scanExponent r₁).1 = []
        · rw [if_pos hempty, if_pos hempty]
          rw [hempty] at htape₂
          exact ⟨rfl, htape₂⟩
        · rw [if_neg hempty, if_neg hempty]
          exact ⟨rfl, htape₂.trans (by rw [LexemeResult.taken, List.length_append])⟩
      · rw [if_neg hkind, if_neg hkind]
        exact ⟨rfl, htape⟩

/-- A reader gives what the scanner finds and stands behind the closing quote, or at the end if there is
none. -/
theorem scanToQuote_spec (q : Char) (r : Reader) :
    (scanToQuote q r).1 = (Quoted.scan? q r.unread).map (·.1) ∧
      (scanToQuote q r).2.tape =
        r.tape.pass (((scanToQuote q r).1.map List.length).getD r.unread.length) := by
  fun_induction scanToQuote q r with
  | case1 r r' hread =>
    obtain ⟨hunread, rfl⟩ := Reader.of_read_eq_none hread
    rw [hunread]
    exact ⟨rfl, rfl⟩
  | case2 r r₁ hpeek body r₃ hrest hread ih =>
    obtain ⟨hunread, htape⟩ := Reader.of_read_eq_some hread
    obtain ⟨cs, hcs⟩ := List.head?_eq_some_iff.mp hpeek
    rw [hrest, Reader.unread_read_of_cons hcs, Reader.tape_read hcs, htape, Tape.pass_pass,
      Tape.pass_pass] at ih
    obtain ⟨hbody, htape⟩ := ih
    rw [hunread, hcs, Quoted.scan?_cons_self]
    dsimp only at hbody htape ⊢
    subst hbody
    refine ⟨by rw [Option.map_map, Option.map_map]; rfl, htape.trans (congrArg r.tape.pass ?_)⟩
    cases Quoted.scan? q cs <;> simp <;> omega
  | case3 r r₁ hpeek hread =>
    obtain ⟨hunread, htape⟩ := Reader.of_read_eq_some hread
    rw [hunread, Quoted.scan?_close hpeek]
    exact ⟨rfl, htape⟩
  | case4 r c r₁ hread hc body r₂ hrest ih =>
    obtain ⟨hunread, htape⟩ := Reader.of_read_eq_some hread
    rw [hrest, htape, Tape.pass_pass] at ih
    obtain ⟨hbody, htape⟩ := ih
    rw [hunread, Quoted.scan?_cons_of_ne hc]
    dsimp only at hbody htape ⊢
    subst hbody
    refine ⟨by rw [Option.map_map, Option.map_map]; rfl, htape.trans (congrArg r.tape.pass ?_)⟩
    cases Quoted.scan? q r₁.unread <;> simp <;> omega

theorem scanQuoted_scans (r : Reader) : Scans r (scanQuoted r) (quotedRule r.unread) := by
  unfold scanQuoted
  cases hunread : r.unread with
  | nil =>
    rw [Reader.read_of_unread_eq_nil hunread]
    exact ⟨rfl, rfl⟩
  | cons q cs =>
    have hread : r.read = (some q, r.read.2) := Prod.ext (by rw [Reader.read_fst, hunread]; rfl) rfl
    obtain ⟨hbody, htape⟩ := scanToQuote_spec q r.read.2
    rw [Reader.unread_read_of_cons hunread] at hbody htape
    rw [Reader.tape_read hunread, Tape.pass_pass, Nat.add_comm] at htape
    rw [hread, quotedRule]
    dsimp only
    generalize scanToQuote q r.read.2 = scanned at *
    obtain ⟨body, r'⟩ := scanned
    dsimp only at hbody htape ⊢
    subst hbody
    cases hscan : Quoted.scan? q cs with
    | none =>
      rw [hscan] at htape
      refine ⟨rfl, htape.trans ?_⟩
      rw [LexemeResult.taken, hunread]
      rfl
    | some found =>
      rw [hscan] at htape
      exact ⟨rfl, htape⟩

theorem scanWhile_spec (sort : Char → Bool) (r : Reader) :
    (scanWhile sort r).1 = r.unread.takeWhile sort ∧
      (scanWhile sort r).2.tape = r.tape.pass (r.unread.takeWhile sort).length := by
  fun_induction scanWhile sort r with
  | case1 r r' hread =>
    obtain ⟨hunread, rfl⟩ := Reader.of_read_eq_none hread
    rw [hunread]
    exact ⟨rfl, rfl⟩
  | case2 r c r₁ hread hsort cs r₂ hrest ih =>
    obtain ⟨hunread, htape⟩ := Reader.of_read_eq_some hread
    rw [hrest, htape, Tape.pass_pass] at ih
    rw [hunread, List.takeWhile_cons_of_pos hsort, ← ih.1, List.length_cons, Nat.add_comm]
    exact ⟨rfl, ih.1 ▸ ih.2⟩
  | case3 r c r₁ hread hsort =>
    obtain ⟨hunread, htape⟩ := Reader.of_read_eq_some hread
    rw [hunread, List.takeWhile_cons_of_neg hsort]
    exact ⟨rfl, Reader.tape_unreadChar htape (by rw [Reader.chars_tape, hunread]; rfl)⟩

theorem scanRun_spec (letters : CharMap Bool) (r : Reader) :
    (scanRun letters r).1 = runOf letters r.unread ∧
      (scanRun letters r).2.tape = r.tape.pass (runOf letters r.unread).length :=
  scanWhile_spec _ r

theorem scanWhitespace_scans (blanks : CharMap Bool) (r : Reader) :
    Scans r (scanWhitespace blanks r) (whitespaceRule blanks r.unread) := by
  obtain ⟨hrun, htape⟩ := scanRun_spec blanks r
  unfold scanWhitespace whitespaceRule
  dsimp only
  rw [hrun]
  split_ifs with hempty
  · rw [hempty] at htape
    exact ⟨rfl, htape⟩
  · exact ⟨rfl, htape⟩

theorem WordRule.scan_scans (rule : WordRule) (r : Reader) :
    Scans r (rule.scan r) (rule.apply r.unread) := by
  obtain ⟨hrun, htape⟩ := scanRun_spec rule.letters r
  unfold scan apply
  dsimp only
  rw [hrun]
  split_ifs with hempty
  · rw [hempty] at htape
    exact ⟨rfl, htape⟩
  · exact ⟨rfl, htape⟩
  · exact ⟨rfl, htape⟩

theorem scanLine_spec (r : Reader) : (scanLine r).1 = lineRun r.unread ∧
    (scanLine r).2.tape = r.tape.pass (lineRun r.unread).length :=
  scanWhile_spec _ r

theorem scanQuotedWord_scans (r : Reader) :
    Scans r (scanQuotedWord r) (quotedWordRule r.unread) := by
  have hquoted := scanQuoted_scans r
  unfold scanQuotedWord quotedWordRule Reader.peek
  by_cases hquote : r.unread.head? = some '"'
  · rw [if_pos hquote]
    obtain ⟨hresult, htape⟩ := hquoted
    generalize scanQuoted r = scanned at *
    obtain ⟨result, r₁⟩ := scanned
    dsimp only at hresult htape
    subst hresult
    cases hrule : quotedRule r.unread with
    | error e =>
      rw [hrule] at htape
      exact ⟨rfl, htape⟩
    | ok x =>
      rw [hrule] at htape
      dsimp only
      rw [if_pos hquote]
      exact ⟨rfl, htape⟩
  · rw [if_neg hquote]
    cases hrule : quotedRule r.unread with
    | error e =>
      rw [hrule] at hquoted
      exact hquoted
    | ok x =>
      dsimp only
      rw [if_neg hquote, ← hrule]
      exact hquoted

theorem scanLineComment_scans (r : Reader) :
    Scans r (scanLineComment r) (lineCommentRule r.unread) := by
  obtain ⟨hline, htape⟩ := scanLine_spec r
  refine ⟨?_, htape⟩
  unfold scanLineComment lineCommentRule
  dsimp only
  rw [hline]

theorem scanBlock_spec (last : Option Char) (r : Reader) :
    (scanBlock last r).1 = blockRun (last = some '*') r.unread ∧
      (scanBlock last r).2.tape = r.tape.pass (blockRun (last = some '*') r.unread).length := by
  fun_induction scanBlock last r with
  | case1 last r r' hread =>
    obtain ⟨hunread, rfl⟩ := Reader.of_read_eq_none hread
    rw [hunread]
    exact ⟨rfl, rfl⟩
  | case2 last r c r₁ hread hclose =>
    obtain ⟨hunread, htape⟩ := Reader.of_read_eq_some hread
    rw [hunread, blockRun, if_pos (by simpa using hclose)]
    exact ⟨rfl, htape⟩
  | case3 last r c r₁ hread hclose cs r₂ hrest ih =>
    obtain ⟨hunread, htape⟩ := Reader.of_read_eq_some hread
    simp only [hrest, htape, Tape.pass_pass, Option.some.injEq] at ih
    rw [hunread, blockRun, if_neg (by simpa using hclose), ← ih.1, List.length_cons, Nat.add_comm]
    exact ⟨rfl, ih.1 ▸ ih.2⟩

/-- A character goes back to the reader together with what was read behind it. -/
theorem Text.Reader.tape_pushBack_second (h : r.unread = c :: cs) :
    ((r.read.2.read.2.pushBack r.read.2.read.1).unreadChar c).tape = r.tape := by
  have hrest := unread_read_of_cons h
  have hsecond : (r.read.2.read.2.pushBack r.read.2.read.1).tape = r.tape.pass 1 := by
    rw [← tape_read h]
    cases cs with
    | nil =>
      rw [read_of_unread_eq_nil hrest]
      rfl
    | cons d ds =>
      rw [read_fst, hrest]
      refine tape_unreadChar (n := 0) (tape_read hrest) ?_
      rw [chars_tape, hrest]
      rfl
  refine tape_unreadChar (n := 0) hsecond ?_
  rw [chars_tape, h]
  rfl

theorem Text.Reader.tape_behind_second {d : Char} {n : Nat} (h : r.unread = c :: d :: cs)
    (hr : r'.tape = r.read.2.read.2.tape.pass n) : r'.tape = r.tape.pass (n + 2) := by
  rw [hr, tape_read (unread_read_of_cons h), tape_read h, Tape.pass_pass, Tape.pass_pass]
  congr 1
  omega

theorem slashCommentRule_cons (symbols : SymbolTree) (lines : Bool) (cs : List Char) :
    slashCommentRule symbols lines ('/' :: cs) =
      if cs.head? = some '*' then
        .ok ⟨.comment, '/' :: '*' :: blockRun false cs.tail, '/' :: '*' :: blockRun false cs.tail⟩
      else if cs.head? = some '/' ∧ lines then
        .ok ⟨.comment, '/' :: '/' :: lineRun cs.tail, '/' :: '/' :: lineRun cs.tail⟩
      else symbolRule symbols ('/' :: cs) := by
  unfold slashCommentRule
  split
  · next heq =>
    cases heq
    rfl
  · next heq =>
    cases heq
    cases lines <;> rfl
  · next hstar hslash heq =>
    cases heq
    rw [if_neg, if_neg]
    · rintro ⟨hhead, -⟩
      obtain ⟨r, rfl⟩ := List.head?_eq_some_iff.mp hhead
      exact hslash r rfl
    · intro hhead
      obtain ⟨r, rfl⟩ := List.head?_eq_some_iff.mp hhead
      exact hstar r rfl
  · next hno => exact absurd rfl (hno cs)

theorem slashCommentRule_of_head_ne {c : Char} (hc : c ≠ '/') (symbols : SymbolTree) (lines : Bool)
    (cs : List Char) : slashCommentRule symbols lines (c :: cs) =
      .error (.misuse (if lines then "C++ comment state" else "C comment state")) := by
  unfold slashCommentRule
  split
  · next heq => exact absurd (List.cons.inj heq).1 hc
  · next heq => exact absurd (List.cons.inj heq).1 hc
  · next heq => exact absurd (List.cons.inj heq).1 hc
  · rfl

theorem scanSlashComment_scans (symbols : SymbolTree) (lines : Bool) (r : Reader) :
    Scans r (scanSlashComment symbols lines r) (slashCommentRule symbols lines r.unread) := by
  unfold scanSlashComment
  dsimp only
  rw [Reader.read_fst]
  cases hunread : r.unread with
  | nil =>
    rw [Reader.read_of_unread_eq_nil hunread]
    exact ⟨rfl, rfl⟩
  | cons c cs =>
    by_cases hc : c = '/'
    · subst hc
      have hrest := Reader.unread_read_of_cons hunread
      have hback := (scanSymbol_scans symbols _).of_tape_eq (Reader.tape_pushBack_second hunread)
      rw [← Reader.chars_tape, Reader.tape_pushBack_second hunread, Reader.chars_tape, hunread] at hback
      rw [slashCommentRule_cons, List.head?_cons, if_pos rfl, Reader.read_fst, hrest]
      rw [Reader.read_fst, hrest] at hback
      by_cases hstar : cs.head? = some '*'
      · obtain ⟨ds, rfl⟩ := List.head?_eq_some_iff.mp hstar
        obtain ⟨hbody, htape⟩ := scanBlock_spec none r.read.2.read.2
        rw [Reader.unread_read_of_cons hrest] at hbody htape
        rw [if_pos hstar, if_pos hstar, hbody]
        exact ⟨rfl, Reader.tape_behind_second hunread htape⟩
      · rw [if_neg hstar, if_neg hstar]
        by_cases hline : cs.head? = some '/' ∧ lines
        · obtain ⟨ds, rfl⟩ := List.head?_eq_some_iff.mp hline.1
          obtain ⟨hrun, htape⟩ := scanLine_spec r.read.2.read.2
          rw [Reader.unread_read_of_cons hrest] at hrun htape
          rw [if_pos hline, if_pos hline, hrun]
          exact ⟨rfl, Reader.tape_behind_second hunread htape⟩
        · rw [if_neg hline, if_neg hline]
          exact hback
    · rw [slashCommentRule_of_head_ne hc, List.head?_cons, if_neg (by simpa using hc)]
      refine ⟨rfl, Reader.tape_unreadChar (Reader.tape_read hunread) ?_⟩
      rw [Reader.chars_tape, hunread]
      rfl

/-- Every rule of a lexicon finds on a reader what it finds in the unread text. -/
theorem Lexicon.scan_scans (l : Lexicon) (rule : RuleName) (r : Reader) :
    Scans r (l.scan rule r) (l.apply rule r.unread) := by
  unfold scan apply
  cases rule with
  | whitespace => exact scanWhitespace_scans l.blanks r
  | word => exact l.word.scan_scans r
  | number =>
    cases l.number with
    | plain => exact scanPlainNumber_scans l.symbols r
    | scientific => exact scanScientificNumber_scans l.symbols r
  | quote =>
    cases l.quote with
    | plain => exact scanQuoted_scans r
    | words => exact scanQuotedWord_scans r
  | comment =>
    cases l.comment with
    | line => exact scanLineComment_scans r
    | block => exact scanSlashComment_scans l.symbols false r
    | blockOrLine => exact scanSlashComment_scans l.symbols true r
  | symbol => exact scanSymbol_scans l.symbols r

theorem Lexicon.scanNext_scans (l : Lexicon) (r : Reader) :
    Scans r (l.scanNext r) (l.next r.unread) := by
  unfold scanNext Reader.peek
  cases hunread : r.unread with
  | nil => exact ⟨rfl, rfl⟩
  | cons c cs =>
    unfold next
    dsimp only [List.head?_cons]
    cases l.routes.lookup c with
    | none => exact ⟨rfl, Reader.tape_read hunread⟩
    | some rule =>
      rw [← hunread]
      exact l.scan_scans rule r

end Formula
