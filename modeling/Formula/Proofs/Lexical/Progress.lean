import Formula.Lexical.Tokenizer
import Formula.Proofs.Lexical.Lexemes

/-!
# Progress of a tokenizer

Whatever character a rule is led to, it refuses or takes something off the text. Only line comments
may be empty, where a line ends. So a tokenizer gets to the end of every text, whatever its options
and its lexicon, unless the end of a line is led to line comments: there it stands still.
-/

namespace Formula

open Text

/-- The lexeme takes something off the front of the text. -/
structure Lexeme.IsFront (x : Lexeme) (cs : List Char) : Prop where
  raw_ne_nil : x.raw ≠ []
  raw_front : x.raw <+: cs

section Rules

variable {symbols : SymbolTree} {cs : List Char} {x : Lexeme}

theorem isFront_of_symbolRule (h : symbolRule symbols cs = .ok x) : x.IsFront cs := by
  cases cs with
  | nil => cases h
  | cons c cs =>
    unfold symbolRule at h
    dsimp only at h
    split at h
    · next n kind hlongest =>
      cases h
      obtain ⟨hpos, -, -⟩ := SymbolTree.longest?_eq_some hlongest
      refine ⟨?_, List.take_prefix n (c :: cs)⟩
      simp only [ne_eq, List.take_eq_nil_iff, reduceCtorEq, or_false]
      omega
    · cases h
      exact ⟨List.cons_ne_nil c [], [c].prefix_append cs⟩

theorem isFront_of_whitespaceRule {blanks : CharMap Bool} (h : whitespaceRule blanks cs = .ok x) :
    x.IsFront cs := by
  unfold whitespaceRule at h
  dsimp only at h
  split_ifs at h with hrun
  cases h
  exact ⟨hrun, runOf_front blanks cs⟩

theorem WordRule.isFront_of_apply {rule : WordRule} (h : rule.apply cs = .ok x) :
    x.IsFront cs := by
  unfold WordRule.apply at h
  dsimp only at h
  split_ifs at h with hrun <;> cases h <;> exact ⟨hrun, runOf_front rule.letters cs⟩

theorem isFront_of_numberAfterSign {sign body : List Char}
    (h : numberAfterSign symbols sign body = .ok x) : x.IsFront (sign ++ body) := by
  unfold numberAfterSign at h
  split at h
  · next r hrest =>
    split_ifs at h
    · exact isFront_of_symbolRule h
    · cases h
      exact ⟨by simp, pointRun_front hrest⟩
  · split_ifs at h with hwhole
    · exact isFront_of_symbolRule h
    · cases h
      refine ⟨by simp [hwhole], (spanDigits body).2, ?_⟩
      rw [List.append_assoc, spanDigits_append_eq]

theorem isFront_of_plainNumberRule (h : plainNumberRule symbols cs = .ok x) : x.IsFront cs := by
  cases cs with
  | nil => cases h
  | cons c cs =>
    by_cases hc : c = '-'
    · subst hc
      rw [plainNumberRule_minus] at h
      exact isFront_of_numberAfterSign h
    · rw [plainNumberRule_of_ne symbols hc] at h
      exact isFront_of_numberAfterSign h

theorem isFront_of_scientificNumberRule (h : scientificNumberRule symbols cs = .ok x) :
    x.IsFront cs := by
  unfold scientificNumberRule at h
  split at h
  · exact isFront_of_symbolRule h
  · split at h
    · cases h
    · next y hy =>
      have hplain := isFront_of_plainNumberRule hy
      dsimp only at h
      split_ifs at h <;> cases h
      · exact hplain
      · obtain ⟨rest, hrest⟩ := hplain.raw_front
        refine ⟨by simp [hplain.raw_ne_nil], ?_⟩
        rw [← hrest, List.drop_left]
        exact (List.prefix_append_right_inj _).mpr (exponentRun_front rest)
      · exact hplain

theorem isFront_of_quotedRule (h : quotedRule cs = .ok x) : x.IsFront cs := by
  cases cs with
  | nil => cases h
  | cons quote cs =>
    cases hscan : Quoted.scan? quote cs with
    | none => cases (quotedRule_eq_error hscan).symm.trans h
    | some found =>
      obtain ⟨hrule, hfront⟩ := quotedRule_cons hscan
      cases hrule.symm.trans h
      exact ⟨List.cons_ne_nil quote found.1, hfront⟩

theorem isFront_of_quotedWordRule (h : quotedWordRule cs = .ok x) : x.IsFront cs := by
  unfold quotedWordRule at h
  split at h
  · cases h
  · next y hy =>
    have hquoted := isFront_of_quotedRule hy
    split_ifs at h <;> cases h
    · exact ⟨hquoted.raw_ne_nil, hquoted.raw_front⟩
    · exact hquoted

theorem isFront_of_slashCommentRule {lines : Bool} (h : slashCommentRule symbols lines cs = .ok x) :
    x.IsFront cs := by
  unfold slashCommentRule at h
  split at h
  · next r =>
    cases h
    refine ⟨by simp, ?_⟩
    simpa using blockRun_front false r
  · next r =>
    split_ifs at h
    · cases h
      refine ⟨by simp, ?_⟩
      simpa using lineRun_front r
    · exact isFront_of_symbolRule h
  · exact isFront_of_symbolRule h
  · cases h

end Rules

namespace Lexicon

variable {l : Lexicon} {c : Char} {cs : List Char} {x : Lexeme}

/-- The end of a line is led to line comments, of which it leaves nothing. -/
def StandsStill (l : Lexicon) (c : Char) : Prop :=
  l.comment = .line ∧ l.routes.lookup c = some .comment ∧ isLineEnd c = true

theorem isFront_of_apply {rule : RuleName} (hline : ¬(rule = .comment ∧ l.comment = .line))
    (h : l.apply rule cs = .ok x) : x.IsFront cs := by
  unfold apply at h
  cases rule with
  | whitespace => exact isFront_of_whitespaceRule h
  | word => exact WordRule.isFront_of_apply h
  | number =>
    dsimp only at h
    split at h
    · exact isFront_of_plainNumberRule h
    · exact isFront_of_scientificNumberRule h
  | quote =>
    dsimp only at h
    split at h
    · exact isFront_of_quotedRule h
    · exact isFront_of_quotedWordRule h
  | comment =>
    dsimp only at h
    split at h
    · next hl => exact absurd ⟨rfl, hl⟩ hline
    · exact isFront_of_slashCommentRule h
    · exact isFront_of_slashCommentRule h
  | symbol => exact isFront_of_symbolRule h

theorem next_of_lookup {rule : RuleName} (h : l.routes.lookup c = some rule) :
    l.next (c :: cs) = l.apply rule (c :: cs) := by
  rw [next, h]

/-- What is found is the front of the text, and nothing only where the lexicon stands still. -/
theorem raw_of_next (h : l.next (c :: cs) = .ok x) :
    x.raw <+: c :: cs ∧ (x.raw = [] ↔ l.StandsStill c) := by
  cases hroute : l.routes.lookup c with
  | none =>
    rw [next, hroute] at h
    cases h
    refine ⟨[c].prefix_append cs, fun hnil => absurd hnil (List.cons_ne_nil c []), fun hstill => ?_⟩
    cases hroute.symm.trans hstill.2.1
  | some rule =>
    rw [next_of_lookup hroute] at h
    by_cases hline : rule = .comment ∧ l.comment = .line
    · obtain ⟨rfl, hl⟩ := hline
      rw [apply, hl] at h
      cases h
      refine ⟨lineRun_front _, ?_⟩
      cases hend : isLineEnd c <;> simp [StandsStill, lineRun, hl, hroute, hend]
    · have hfront := isFront_of_apply hline h
      refine ⟨hfront.raw_front, fun hnil => absurd hnil hfront.raw_ne_nil, fun hstill => ?_⟩
      refine absurd ⟨?_, hstill.1⟩ hline
      exact Option.some.inj (hroute.symm.trans hstill.2.1)

theorem next_of_standsStill (h : l.StandsStill c) (cs : List Char) :
    l.next (c :: cs) = .ok ⟨.comment, [], []⟩ := by
  rw [next_of_lookup h.2.1, apply, h.1]
  simp [lineCommentRule, lineRun, h.2.2]

theorem WellRouted.not_standsStill (hl : l.WellRouted) (c : Char) : ¬l.StandsStill c := by
  rintro ⟨hline, hroute, hend⟩
  have hstarts := hl.starts hroute
  rw [Starts, if_pos hline, hend] at hstarts
  cases hstarts

end Lexicon

namespace Tokenizer

/-- What one turn does: it ends the search for a token, or leaves out what it has found. -/
inductive Turn
  | ends (r : Except SyntaxError (Option Token)) (t : Tokenizer)
  | leavesOut (t : Tokenizer)

/-- The tokenizer behind a lexeme, a token of the kind `last` being given out last. -/
def behind (t : Tokenizer) (x : Lexeme) (last : Option TokenKind) : Tokenizer :=
  { t with
    cursor := t.cursor.drop x.raw.length, finished := t.cursor.rest.isEmpty, last := last }

def turn (t : Tokenizer) : Turn :=
  if t.finished then .ends (.ok none) t
  else
    match t.lexicon.next t.cursor.rest with
    | .error fault =>
      .ends (.error ⟨fault, t.cursor.position⟩) { t with cursor := cursorAfter t.cursor fault }
    | .ok x =>
      if t.options.drops t.last x.kind then .leavesOut (t.behind x t.last)
      else if x.kind = .eof ∧ t.options.skipEof then .ends (.ok none) (t.behind x t.last)
      else
        let token := t.options.finish ⟨x.kind, String.ofList x.text, t.cursor.position⟩
        .ends (.ok (some token)) (t.behind x (some token.kind))

/-- The search for a token, turn after turn. -/
inductive Advances : Tokenizer → Except SyntaxError (Option Token) → Tokenizer → Prop
  | ends {t u : Tokenizer} {r : Except SyntaxError (Option Token)} (h : t.turn = .ends r u) :
    Advances t r u
  | leavesOut {t u v : Tokenizer} {r : Except SyntaxError (Option Token)}
    (h : t.turn = .leavesOut u) (more : Advances u r v) : Advances t r v

/-- All tokens are taken off the text, search after search. -/
inductive Drains : Tokenizer → Except SyntaxError (List Token) → Prop
  | fault {t u : Tokenizer} {e : SyntaxError} (h : Advances t (.error e) u) : Drains t (.error e)
  | atEnd {t u : Tokenizer} (h : Advances t (.ok none) u) : Drains t (.ok [])
  | token {t u : Tokenizer} {token : Token} {r : Except SyntaxError (List Token)}
    (h : Advances t (.ok (some token)) u) (more : Drains u r) : Drains t (r.map (token :: ·))

variable {t u : Tokenizer} {r : Except SyntaxError (Option Token)} {token : Token} {x : Lexeme}

/-- A tokenizer goes on turning only while its turns take something off the text. -/
theorem advance_eq_turn (t : Tokenizer) :
    t.advance =
      match t.turn with
      | .ends r u => (r, u)
      | .leavesOut u =>
        if u.cursor.rest.length < t.cursor.rest.length then u.advance
        else (.error ⟨.stalled, t.cursor.position⟩, t) := by
  rw [advance.eq_def, turn]
  split
  · rfl
  · cases t.lexicon.next t.cursor.rest with
    | error fault => rfl
    | ok x =>
      dsimp only
      split
      · rfl
      · split <;> rfl

theorem exists_lexeme_of_leavesOut (h : t.turn = .leavesOut u) :
    ∃ x, t.lexicon.next t.cursor.rest = .ok x ∧ t.options.drops t.last x.kind = true ∧
      u = t.behind x t.last := by
  unfold turn at h
  split at h
  · cases h
  · split at h
    · cases h
    · next x hx =>
      split_ifs at h with hdrops
      cases h
      exact ⟨x, hx, hdrops, rfl⟩

theorem exists_lexeme_of_token (h : t.turn = .ends (.ok (some token)) u) :
    t.finished = false ∧ ∃ x, t.lexicon.next t.cursor.rest = .ok x ∧
      u = t.behind x (some token.kind) := by
  unfold turn at h
  split at h
  · cases h
  · next hfinished =>
    split at h
    · cases h
    · next x hx =>
      dsimp only at h
      split_ifs at h
      · cases h
      · cases h
        exact ⟨Bool.not_eq_true _ ▸ hfinished, x, hx, rfl⟩

/-- Nothing in the unread text makes the tokenizer stand still. -/
def Moves (t : Tokenizer) : Prop := ∀ c ∈ t.cursor.rest, ¬t.lexicon.StandsStill c

theorem Moves.behind (hm : t.Moves) (x : Lexeme) (last : Option TokenKind) :
    (t.behind x last).Moves :=
  fun c hc => hm c (List.mem_of_mem_drop hc)

theorem Moves.length_behind_lt (hm : t.Moves) (hne : t.cursor.rest ≠ [])
    (hx : t.lexicon.next t.cursor.rest = .ok x) (last : Option TokenKind) :
    (t.behind x last).cursor.rest.length < t.cursor.rest.length := by
  obtain ⟨c, cs, hrest⟩ := List.exists_cons_of_ne_nil hne
  have hstill : ¬t.lexicon.StandsStill c := hm c (by rw [hrest]; exact List.mem_cons_self)
  rw [hrest] at hx
  have hraw : 0 < x.raw.length := by
    rw [List.length_pos_iff, ne_eq, (Lexicon.raw_of_next hx).2]
    exact hstill
  rw [Tokenizer.behind, Cursor.length_rest_drop, hrest, List.length_cons]
  omega

theorem Moves.length_lt_of_leavesOut (hm : t.Moves) (h : t.turn = .leavesOut u) :
    u.cursor.rest.length < t.cursor.rest.length := by
  obtain ⟨x, hx, hdrops, rfl⟩ := exists_lexeme_of_leavesOut h
  refine hm.length_behind_lt ?_ hx t.last
  intro hnil
  rw [hnil] at hx
  cases hx
  cases hdrops

theorem Moves.of_leavesOut (hm : t.Moves) (h : t.turn = .leavesOut u) : u.Moves := by
  obtain ⟨x, -, -, rfl⟩ := exists_lexeme_of_leavesOut h
  exact hm.behind x t.last

theorem Advances.remaining_lt (h : Advances t (.ok (some token)) u) (hm : t.Moves)
    (hahead : t.ahead = none) :
    u.remaining < t.remaining ∧ u.Moves ∧ u.ahead = none := by
  generalize hr : Except.ok (some token) = r at h
  induction h with
  | @ends t u r h =>
    subst hr
    obtain ⟨hfinished, x, hx, rfl⟩ := exists_lexeme_of_token h
    refine ⟨?_, hm.behind x _, hahead⟩
    cases hrest : t.cursor.rest with
    | nil => simp [remaining, Tokenizer.behind, Cursor.drop, hrest, hfinished, hahead]
    | cons c cs =>
      have hshorter := hm.length_behind_lt (by rw [hrest]; exact List.cons_ne_nil c cs) hx
        (some token.kind)
      have hmore : (t.behind x (some token.kind)).finished = false := by
        rw [Tokenizer.behind, hrest]
        rfl
      have hnone : (t.behind x (some token.kind)).ahead = none := hahead
      rw [remaining, remaining, hmore, hnone, hfinished, hahead]
      omega
  | @leavesOut t u v r h more ih =>
    have hshorter := hm.length_lt_of_leavesOut h
    obtain ⟨x, -, -, rfl⟩ := exists_lexeme_of_leavesOut h
    obtain ⟨hlt, hrest⟩ := ih (hm.behind x t.last) hahead hr
    refine ⟨?_, hrest⟩
    have hle : (t.behind x t.last).remaining ≤ t.remaining := by
      have hsame : (t.behind x t.last).ahead = t.ahead := rfl
      simp only [remaining, hsame]
      split_ifs <;> omega
    omega

/-- A tokenizer that moves ends every search as if nothing kept it from turning. -/
theorem Moves.advances_advance (hm : t.Moves) : t.Advances t.advance.1 t.advance.2 := by
  induction hn : t.cursor.rest.length using Nat.strongRecOn generalizing t with
  | ind n ih =>
    rw [advance_eq_turn]
    cases hturn : t.turn with
    | ends r u => exact .ends hturn
    | leavesOut u =>
      have hshorter := hm.length_lt_of_leavesOut hturn
      dsimp only
      rw [if_pos hshorter]
      exact .leavesOut hturn (ih _ (hn ▸ hshorter) (hm.of_leavesOut hturn) rfl)

theorem Moves.remaining_lt_of_advance (hm : t.Moves) (h : t.advance = (.ok (some token), u))
    (hahead : t.ahead = none) : u.remaining < t.remaining ∧ u.Moves ∧ u.ahead = none := by
  have hadvances := hm.advances_advance
  rw [h] at hadvances
  exact hadvances.remaining_lt hm hahead

/-- A run goes on after the token that the first search gives out. -/
theorem Moves.tokens_eq (hm : t.Moves) (hahead : t.ahead = none) :
    t.tokens.1 =
      match t.advance with
      | (.error e, _) => .error e
      | (.ok none, _) => .ok []
      | (.ok (some token), u) => u.tokens.1.map (token :: ·) := by
  have hnext : t.next = t.advance := by
    unfold next
    rw [hahead]
  rw [tokens.eq_def, hnext]
  rcases hadvance : t.advance with ⟨e | (_ | token), u⟩
  · rfl
  · rfl
  · dsimp only
    rw [if_pos (hm.remaining_lt_of_advance hadvance hahead).1]
    rcases u.tokens with ⟨e | more, v⟩ <;> rfl

theorem Moves.drains_tokens (hm : t.Moves) (hahead : t.ahead = none) : t.Drains t.tokens.1 := by
  induction hn : t.remaining using Nat.strongRecOn generalizing t with
  | ind n ih =>
    have hadvances := hm.advances_advance
    rw [hm.tokens_eq hahead]
    rcases hadvance : t.advance with ⟨e | (_ | token), u⟩ <;> rw [hadvance] at hadvances
    · exact .fault hadvances
    · exact .atEnd hadvances
    · obtain ⟨hlt, hu, huahead⟩ := hm.remaining_lt_of_advance hadvance hahead
      exact .token hadvances (ih _ (hn ▸ hlt) hu huahead rfl)

/-- The next character is one at which the lexicon stands still. -/
structure Stuck (t : Tokenizer) : Prop where
  unfinished : t.finished = false
  still : ∃ c cs, t.cursor.rest = c :: cs ∧ t.lexicon.StandsStill c

/-- A turn of a tokenizer that stands still changes nothing, or gives out an empty comment. -/
theorem Stuck.turn (h : t.Stuck) : ∃ u : Tokenizer, u.Stuck ∧
    (t.turn = .leavesOut u ∨ ∃ token, t.turn = .ends (.ok (some token)) u) := by
  obtain ⟨hunfinished, c, cs, hrest, hstill⟩ := h
  have hnext : t.lexicon.next t.cursor.rest = .ok ⟨.comment, [], []⟩ := by
    rw [hrest]
    exact Lexicon.next_of_standsStill hstill cs
  have hbehind : ∀ last, (t.behind ⟨.comment, [], []⟩ last).Stuck := by
    intro last
    refine ⟨?_, c, cs, ?_, hstill⟩
    · rw [behind, hrest]
      rfl
    · rw [behind, ← hrest]
      exact congrArg Cursor.rest (Cursor.drop_zero t.cursor)
  cases hdrops : t.options.drops t.last .comment with
  | true =>
    refine ⟨_, hbehind t.last, .inl ?_⟩
    rw [Tokenizer.turn, hunfinished, hnext]
    simp [hdrops]
  | false =>
    refine ⟨_, hbehind (some .comment), .inr ⟨⟨.comment, "", t.cursor.position⟩, ?_⟩⟩
    rw [Tokenizer.turn, hunfinished, hnext]
    simp [hdrops, TokenOptions.finish]

theorem Advances.stuck (h : Advances t r u) (ht : t.Stuck) :
    u.Stuck ∧ ∃ token, r = .ok (some token) := by
  induction h with
  | ends h =>
    obtain ⟨v, hv, hturn | ⟨token, hturn⟩⟩ := ht.turn
    · cases h.symm.trans hturn
    · cases h.symm.trans hturn
      exact ⟨hv, token, rfl⟩
  | leavesOut h more ih =>
    obtain ⟨v, hv, hturn | ⟨token, hturn⟩⟩ := ht.turn
    · cases h.symm.trans hturn
      exact ih hv
    · cases h.symm.trans hturn

theorem Stuck.not_drains (ht : t.Stuck) {r : Except SyntaxError (List Token)} : ¬t.Drains r := by
  intro h
  induction h with
  | fault h =>
    obtain ⟨-, token, htoken⟩ := h.stuck ht
    cases htoken
  | atEnd h =>
    obtain ⟨-, token, htoken⟩ := h.stuck ht
    cases htoken
  | token h more ih => exact ih (h.stuck ht).1

/-- Every lexeme takes something off the text, apart from line comments at the end of a line. So
the tokens of every text come to an end, with any options, unless the end of a line is led to line
comments; and of a text without such line ends they always do. -/
theorem drains_iff_not_standsStill (l : Lexicon) :
    (∀ c cs x, l.next (c :: cs) = .ok x → x.raw <+: c :: cs ∧ (x.raw = [] ↔ l.StandsStill c)) ∧
    (∀ t : Tokenizer, t.lexicon = l → ∀ text, (∀ c ∈ text.toList, ¬l.StandsStill c) →
      (t.setInput text).Drains (t.tokenize text).1) ∧
    ((∀ t : Tokenizer, t.lexicon = l → ∀ text, ∃ r, (t.setInput text).Drains r) ↔
      ∀ c, ¬l.StandsStill c) := by
  have hmoves : ∀ t : Tokenizer, t.lexicon = l → ∀ text, (∀ c ∈ text.toList, ¬l.StandsStill c) →
      (t.setInput text).Drains (t.tokenize text).1 := by
    rintro t rfl text hm
    exact Moves.drains_tokens (t := t.setInput text) hm rfl
  refine ⟨fun c cs x => Lexicon.raw_of_next, hmoves, ?_, ?_⟩
  · intro hdrains c hstill
    obtain ⟨r, hr⟩ := hdrains { lexicon := l } rfl (String.ofList [c])
    refine Stuck.not_drains ⟨rfl, c, [], ?_, hstill⟩ hr
    exact String.toList_ofList
  · exact fun hno t ht text => ⟨_, hmoves t ht text fun c _ => hno c⟩

/-- A line comment that ends with its line. -/
theorem drains_line_comment : ∃ r, (setInput { lexicon := .general } "# a\n").Drains r :=
  ⟨_, (drains_iff_not_standsStill .general).2.1 { lexicon := .general } rfl "# a\n" fun c _ =>
    Lexicon.general_wellRouted.not_standsStill c⟩

/-- Line feeds that are led to line comments: the comment there is empty, and the tokens of a
line feed have no end, whatever the options. -/
theorem not_drains_line_feed :
    let l := Lexicon.general.route 10 10 .comment
    l.next ['\n'] = .ok ⟨.comment, [], []⟩ ∧
      ∀ options, ¬∃ r, (setInput { lexicon := l, options := options } "\n").Drains r := by
  intro l
  have hroute : l.routes.lookup '\n' = some .comment := by
    change (CharMap.set _ 10 10 RuleName.comment).lookup '\n' = _
    rw [Lexicon.lookup_set, if_pos (by decide)]
  have hstill : l.StandsStill '\n' := ⟨rfl, hroute, rfl⟩
  clear_value l
  refine ⟨Lexicon.next_of_standsStill hstill [], ?_⟩
  rintro options ⟨r, hr⟩
  exact Stuck.not_drains ⟨rfl, '\n', [], rfl, hstill⟩ hr

end Tokenizer

end Formula
