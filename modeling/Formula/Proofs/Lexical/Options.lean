import Formula.Proofs.Lexical.Cutting

/-!
# Options as filters

The options of a tokenizer act while it reads. Their effect is that of four passes over the
tokens that it would give out without any: unwanted tokens are left out, runs of whitespace are
merged, numbers are unified, and strings are decoded. Whether reading fails does not depend on
the options.
-/

namespace Formula

open Text

namespace Token

/-- Integers and floats as plain numbers. -/
def unified (t : Token) : Token :=
  if t.kind = .integer ∨ t.kind = .float then { t with kind := .number } else t

/-- A string without the quotes it is written in, whichever they are. -/
def decoded (t : Token) : Token :=
  match t.kind, t.text.toList with
  | .quoted, quote :: cs => { t with text := String.ofList (Quoted.decode quote (quote :: cs)) }
  | _, _ => t

end Token

namespace TokenOptions

def skips (o : TokenOptions) : TokenKind → Bool
  | .unknown => o.skipUnknown
  | .whitespace => o.skipWhitespace
  | .comment => o.skipComments
  | .eof => o.skipEof
  | _ => false

/-- Leaves out whitespace that directly follows whitespace; `before` is the kind of the token
in front. -/
def mergeRuns (before : Option TokenKind) : List Token → List Token
  | [] => []
  | t :: ts =>
    if t.kind = .whitespace ∧ before = some .whitespace then mergeRuns (some t.kind) ts
    else t :: mergeRuns (some t.kind) ts

/-- The tokens of a text made from those without options, pass by pass. -/
def process (o : TokenOptions) (tokens : List Token) : List Token :=
  let kept := tokens.filter fun t => !o.skips t.kind
  let merged := if o.mergeWhitespace then mergeRuns none kept else kept
  let unified := if o.unifyNumbers then merged.map Token.unified else merged
  if o.decodeStrings then unified.map Token.decoded else unified

/-- The passes over the tokens that come after one of the kind `last`. -/
def processAfter (o : TokenOptions) (last : Option TokenKind) (tokens : List Token) :
    List Token :=
  let kept := tokens.filter fun t => !o.skips t.kind
  (if o.mergeWhitespace then mergeRuns last kept else kept).map o.finish

theorem finish_eq (o : TokenOptions) (t : Token) :
    o.finish t =
      (if o.decodeStrings then Token.decoded else id)
        ((if o.unifyNumbers then Token.unified else id) t) := by
  rcases t with ⟨kind, text, p⟩
  cases hd : o.decodeStrings <;> cases hu : o.unifyNumbers <;> cases kind with
  | quoted => cases h : text.toList <;> simp [finish, Token.decoded, Token.unified, hd, h]
  | _ => simp [finish, Token.decoded, Token.unified, hu]

theorem process_eq (o : TokenOptions) (tokens : List Token) :
    o.process tokens = o.processAfter none tokens := by
  have hfinish : o.finish = (if o.decodeStrings then Token.decoded else id) ∘
      (if o.unifyNumbers then Token.unified else id) := funext o.finish_eq
  unfold process processAfter
  rw [hfinish, ← List.map_map]
  split_ifs <;> simp

theorem process_default (tokens : List Token) : process {} tokens = tokens := by
  have hskips : ∀ k : TokenKind, skips {} k = false := by
    intro k
    cases k <;> rfl
  simp [process, hskips]

theorem mergeRuns_congr {before before' : Option TokenKind}
    (h : before = some .whitespace ↔ before' = some .whitespace) (tokens : List Token) :
    mergeRuns before tokens = mergeRuns before' tokens := by
  cases tokens with
  | nil => rfl
  | cons t ts => simp only [mergeRuns, h]

theorem kind_finish_eq_iff (o : TokenOptions) (t : Token) {k : TokenKind}
    (hk : k ∉ [TokenKind.integer, .float, .number]) : (o.finish t).kind = k ↔ t.kind = k := by
  obtain ⟨hinteger, hfloat, hnumber⟩ :
      TokenKind.integer ≠ k ∧ TokenKind.float ≠ k ∧ TokenKind.number ≠ k := by
    simpa [eq_comm] using hk
  rcases t with ⟨kind, text, p⟩
  unfold finish
  split
  · split_ifs <;> simp_all
  · split_ifs <;> simp_all
  · split
    · split_ifs <;> simp
    · rfl
  · rfl

/-- Besides what is skipped everywhere, whitespace is dropped right after whitespace. -/
theorem drops_eq_true_iff (o : TokenOptions) (last : Option TokenKind) {k : TokenKind}
    (hk : k ≠ .eof) : o.drops last k = true ↔
      o.skips k = true ∨
        o.mergeWhitespace = true ∧ k = .whitespace ∧ last = some .whitespace := by
  cases k <;> simp [drops, skips] at hk ⊢

theorem processAfter_cons_of_drops {o : TokenOptions} {last : Option TokenKind} {t : Token}
    (ht : t.kind ≠ .eof) (h : o.drops last t.kind = true) (ts : List Token) :
    o.processAfter last (t :: ts) = o.processAfter last ts := by
  unfold processAfter
  dsimp only
  by_cases hskip : o.skips t.kind = true
  · rw [List.filter_cons_of_neg (by simp [hskip])]
  · obtain hskip' | ⟨hmerge, hkind, rfl⟩ := (o.drops_eq_true_iff last ht).mp h
    · exact absurd hskip' hskip
    · rw [List.filter_cons_of_pos (by simp [hskip]), if_pos hmerge, if_pos hmerge, mergeRuns,
        if_pos ⟨hkind, rfl⟩, hkind]

theorem processAfter_cons {o : TokenOptions} {last : Option TokenKind} {t : Token}
    (ht : t.kind ≠ .eof) (h : o.drops last t.kind = false) (ts : List Token) :
    o.processAfter last (t :: ts) = o.finish t :: o.processAfter (some (o.finish t).kind) ts := by
  have hdrops := mt (o.drops_eq_true_iff last ht).mpr (by simp [h])
  obtain ⟨hskip, hmerge⟩ := not_or.mp hdrops
  have hlast : some t.kind = some .whitespace ↔ some (o.finish t).kind = some .whitespace := by
    simp [kind_finish_eq_iff]
  unfold processAfter
  dsimp only
  rw [List.filter_cons_of_pos (by simp [hskip])]
  split_ifs with hm
  · rw [mergeRuns, if_neg fun hw => hmerge ⟨hm, hw⟩, mergeRuns_congr hlast]
    rfl
  · rfl

end TokenOptions

/-- A tokenizer gives out what its options make of the tokens of the cut. -/
theorem Lexicon.Cut.tokens_reading {l : Lexicon} (hl : l.WellRouted) {c : Cursor}
    {r : Except SyntaxError (List Token)} (h : l.Cut c r) (o : TokenOptions)
    (last : Option TokenKind) :
    (Tokenizer.reading l o c last).tokens.1 = r.map (o.processAfter last) := by
  induction h generalizing last with
  | atEnd p =>
    rw [Tokenizer.tokens_atEnd hl]
    have hmerge : TokenOptions.mergeRuns last [⟨.eof, "", p⟩] = [⟨.eof, "", p⟩] := by
      simp [TokenOptions.mergeRuns]
    cases hskip : o.skipEof with
    | true => simp [Except.map, TokenOptions.processAfter, TokenOptions.skips, hskip,
        TokenOptions.mergeRuns]
    | false => simp [Except.map, TokenOptions.processAfter, TokenOptions.skips, hskip, hmerge,
        TokenOptions.finish]
  | fault p h =>
    rw [Tokenizer.tokens_fault hl o p last h]
    rfl
  | @lexeme x rest p r h hx more ih =>
    cases hdrops : o.drops last x.kind with
    | true =>
      rw [Tokenizer.tokens_dropped hl o p last h hx hdrops, ih]
      cases r with
      | error e => rfl
      | ok tokens =>
        exact congrArg Except.ok (TokenOptions.processAfter_cons_of_drops
          (t := ⟨x.kind, _, p⟩) hx.kind_ne_eof hdrops tokens).symm
    | false =>
      rw [Tokenizer.tokens_kept hl o p last h hx hdrops]
      dsimp only
      rw [ih]
      cases r with
      | error e => rfl
      | ok tokens =>
        exact congrArg Except.ok (TokenOptions.processAfter_cons
          (t := ⟨x.kind, _, p⟩) hx.kind_ne_eof hdrops tokens).symm

theorem Lexicon.Cut.tokens_reading_plain {l : Lexicon} (hl : l.WellRouted) {c : Cursor}
    {r : Except SyntaxError (List Token)} (h : l.Cut c r) :
    (Tokenizer.reading l {} c none).tokens.1 = r := by
  rw [h.tokens_reading hl]
  cases r with
  | error e => rfl
  | ok tokens => rw [Except.map, ← TokenOptions.process_eq, TokenOptions.process_default]

namespace Tokenizer

/-- Under a ready lexicon a tokenizer fails with any options as it does without, and otherwise
it gives out what the passes make of the tokens that it gives out without. -/
theorem tokenize_eq_process (t : Tokenizer) (hl : t.lexicon.Ready) (text : String) :
    (t.tokenize text).1 = ({ t with options := {} }.tokenize text).1.map t.options.process := by
  obtain ⟨r, hr⟩ := hl.wellRouted.exists_cut text.toList {}
  rw [tokenize, tokenize, setInput_eq_reading, setInput_eq_reading]
  dsimp only [Cursor.ofString]
  rw [hr.tokens_reading hl.wellRouted, hr.tokens_reading_plain hl.wellRouted,
    ← funext t.options.process_eq]

/-- Two runs of whitespace become neighbours when the comment between them is left out. -/
theorem tokenize_around_comment :
    Lexicon.formulas.Ready ∧
      (tokenize
        { lexicon := .formulas
          options := { skipComments := true, skipEof := true, mergeWhitespace := true,
                       unifyNumbers := true, decodeStrings := true } }
        "1. /*;*/ 'it''s'").1.toOption =
        some [⟨.number, "1.", ⟨1, 1⟩⟩, ⟨.whitespace, " ", ⟨1, 3⟩⟩, ⟨.quoted, "it's", ⟨1, 10⟩⟩] := by
  refine ⟨.inr rfl, ?_⟩
  have hprocess := fun o =>
    tokenize_eq_process { lexicon := .formulas, options := o } (.inr rfl) "1. /*;*/ 'it''s'"
  rw [hprocess, Lexicon.formulas_eq_ofRanges]
  decide +kernel

end Tokenizer

end Formula
