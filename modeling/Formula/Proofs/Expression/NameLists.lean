import Formula.Proofs.Expression.Composing

/-!
# Lists of names

Names with a symbol between two of them, and blanks round the symbol if any, are read one by one. A name
may be written as it stands if it is one word, and in double quotes in any case.
-/

namespace Formula

open Text Lexicon

/-- How a name may be written in a formula. -/
inductive Written (name : String) : String → Prop
  | plain (hrun : IsRun name.toList) (hkeyword : isKeyword name = false) : Written name name
  | quoted : Written name (String.ofList (Quoted.encode '"' name.toList))

/-- Nothing that a name goes on with comes first. -/
def EndsName (rest : List Char) : Prop := EndsRun rest ∧ rest.head? ≠ some '"'

/-- The pieces of a list of names behind the first one, with a symbol before each. -/
def separated (m : String) (hm : m ∈ marks) (names : List String) : List Piece :=
  names.flatMap fun name => [.mark m hm, .name name]

/-- The text is taken off as the pieces, with no other tokens between them. -/
def LexedAs (ps : List Piece) (text : List Char) : Prop := Lexed text (ps.map (Piece.token · {}))

namespace LexedAs

variable {rest : List Char} {ps : List Piece} {name w : String}

theorem cons_name (h : Written name w) (hrest : EndsName rest) (more : LexedAs ps rest) :
    LexedAs (.name name :: ps) (w.toList ++ rest) := by
  cases h with
  | plain hrun hkeyword =>
    have hnext := hrun.next hrest.1
    rw [String.ofList_toList, hkeyword] at hnext
    refine .token (x := ⟨.word, name.toList, name.toList⟩) hnext hrun.ne_nil rfl ?_ more
    exact ⟨rfl, String.ofList_toList⟩
  | quoted =>
    have hnext := next_name name hrest.2
    rw [String.toList_ofList]
    refine .token (x := ⟨.word, Quoted.encode '"' name.toList, name.toList⟩) hnext
      (List.cons_ne_nil _ _) rfl ?_ more
    exact ⟨rfl, String.ofList_toList⟩

theorem cons_mark {m : String} (hm : m ∈ marks) (halone : m ∉ infixMarks) (more : LexedAs ps rest) :
    LexedAs (.mark m hm :: ps) (m.toList ++ rest) := by
  obtain ⟨c, cs, hchars, -⟩ := (Piece.mark m hm).exists_spelling_eq_cons
  refine .token (x := ⟨.symbol, m.toList, m.toList⟩) (next_mark hm fun h => absurd h halone) ?_ rfl
    ⟨rfl, String.ofList_toList⟩ more
  exact fun hnil => List.cons_ne_nil c cs (hchars.symm.trans hnil)

theorem append_blanks {blanks : List Char} (hblanks : ∀ c ∈ blanks, c.toNat ≤ 32)
    (hrest : ∀ c ∈ rest.head?, 32 < c.toNat) (more : LexedAs ps rest) :
    LexedAs ps (blanks ++ rest) := by
  by_cases hne : blanks = []
  · rwa [hne]
  · exact .layout (x := ⟨.whitespace, blanks, blanks⟩) (next_blanks hne hblanks hrest) hne rfl more

theorem exists_tokensOf {text : String} (h : LexedAs ps text.toList) :
    ∃ ts, Parsed.tokensOf text = .ok ts ∧ Tokens ps ts := by
  obtain ⟨ts, hts, hsame⟩ := Lexed.exists_tokensOf h
  rw [String.ofList_toList] at hts
  refine ⟨ts, hts, (List.forall₂_map_left_iff.mp hsame.flip).imp ?_⟩
  rintro p ⟨kind, text, q⟩ ⟨hkind, htext⟩
  exact ⟨q, congrArg₂ (fun kind text => Token.mk kind text q) hkind htext⟩

end LexedAs

theorem Written.lt_head {name w : String} (h : Written name w) (rest : List Char) :
    ∀ c ∈ (w.toList ++ rest).head?, 32 < c.toNat := by
  cases h with
  | plain hrun hkeyword =>
    obtain ⟨c, hc, -⟩ := hrun.starts
    obtain ⟨cs, hcs⟩ := List.head?_eq_some_iff.mp hc
    have hletter := hrun.letters c (List.mem_of_head? hc)
    rw [hcs]
    rintro _ ⟨⟩
    by_contra hblank
    have hend : EndsToken [c] := by
      rintro _ ⟨⟩
      exact Nat.le_of_not_lt hblank
    rw [lookup_letters_of_endsToken hend c rfl] at hletter
    cases hletter
  | quoted =>
    rw [String.toList_ofList]
    rintro _ ⟨⟩
    decide

theorem Lexicon.EndsToken.endsName {rest : List Char} (h : EndsToken rest) : EndsName rest :=
  ⟨lookup_letters_of_endsToken h, h.head_ne (by decide)⟩

theorem endsName_nil : EndsName [] := by
  simp [EndsName, EndsRun]

theorem endsName_mark : ∀ m ∈ marks, ∀ rest : List Char, EndsName (m.toList ++ rest) := by
  simp [marks, EndsName, EndsRun, lookup_letters]

theorem lt_head_mark : ∀ m ∈ marks, ∀ rest : List Char,
    ∀ c ∈ (m.toList ++ rest).head?, 32 < c.toNat := by
  simp [marks]

section

variable {m : String} {before after : List Char}

/-- The characters of a list of names behind the first one. -/
def separatedChars (before : List Char) (m : String) (after : List Char) (spelled : List String) :
    List Char :=
  spelled.flatMap fun w => before ++ (m.toList ++ (after ++ w.toList))

variable (hm : m ∈ marks) (hbefore : ∀ c ∈ before, c.toNat ≤ 32)
include hm hbefore

theorem endsName_separated (spelled : List String) {rest : List Char} (hrest : EndsName rest) :
    EndsName (separatedChars before m after spelled ++ rest) := by
  cases spelled with
  | nil => exact hrest
  | cons w spelled =>
    rw [separatedChars, List.flatMap_cons, List.append_assoc, List.append_assoc]
    by_cases hne : before = []
    · rw [hne, List.nil_append, List.append_assoc]
      exact endsName_mark m hm _
    · exact (endsToken_append hne hbefore _).endsName

theorem LexedAs.append_separated (halone : m ∉ infixMarks) (hafter : ∀ c ∈ after, c.toNat ≤ 32)
    {names spelled : List String} (hspelled : List.Forall₂ Written names spelled)
    {rest : List Char} {ps : List Piece} (hrest : EndsName rest) (more : LexedAs ps rest) :
    LexedAs (separated m hm names ++ ps) (separatedChars before m after spelled ++ rest) := by
  induction hspelled with
  | nil => exact more
  | @cons name w names spelled h hspelled ih =>
    have hname := ih.cons_name h (endsName_separated hm hbefore spelled hrest)
    have hmark := (hname.append_blanks hafter (h.lt_head _)).cons_mark hm halone
    have hall := hmark.append_blanks hbefore (lt_head_mark m hm _)
    simpa [separatedChars, separated] using hall

/-- A list of names with separators is taken off as the names and the symbols between them. -/
theorem LexedAs.append_intercalate (halone : m ∉ infixMarks) (hafter : ∀ c ∈ after, c.toNat ≤ 32)
    {sep first w : String} (hsep : sep.toList = before ++ (m.toList ++ after))
    (hfirst : Written first w) {names spelled : List String}
    (hspelled : List.Forall₂ Written names spelled) {rest : List Char} {ps : List Piece}
    (hrest : EndsName rest) (more : LexedAs ps rest) :
    LexedAs (.name first :: separated m hm names ++ ps)
      ((sep.intercalate (w :: spelled)).toList ++ rest) := by
  have hchars (v : String) (words : List String) : (sep.intercalate (v :: words)).toList =
      v.toList ++ separatedChars before m after words := by
    induction words generalizing v with
    | nil => simp [separatedChars]
    | cons u words ih =>
      rw [String.intercalate_cons_cons, String.toList_append, String.toList_append, ih, hsep]
      simp [separatedChars]
  have hlist := more.append_separated hm hbefore halone hafter hspelled hrest
  rw [hchars, List.append_assoc]
  exact hlist.cons_name hfirst (endsName_separated hm hbefore spelled hrest)

end

/-- The names of a list behind the first one, each with the places of the symbol and of itself. -/
structure Link where
  separator : Position
  name : String
  position : Position

/-- Joins an operand with the variables of a list, the first one first. -/
def joinAll {α : Type} (join : α → Position → Expr → α) (a : α) (links : List Link) : α :=
  links.foldl (fun a l => join a l.separator (.variable l.name l.position)) a

theorem ReadsAs.name (name : String) (q : Position) :
    ReadsAs [(Piece.name name).token q] (Expr.variable name q).items :=
  .single (fun due _ hcall => ofToken_name name q due hcall) rfl

/-- Where the symbol joins what was read with an operand, the tokens of a list are read as the joined
variables. -/
theorem ReadsAs.exists_joinAll {α : Type} {items : α → Row} {join : α → Position → Expr → α}
    {m : String} (hm : m ∈ marks)
    (hjoin : ∀ {us vs : List Token} {a : α} {e : Expr} (q : Position), ReadsAs us (items a) →
      ReadsAs vs e.items → ∃ p, ReadsAs (us ++ (Piece.mark m hm).token q :: vs) (items (join a p e)))
    {names : List String} {us ts : List Token} {a : α} (ha : ReadsAs us (items a))
    (hts : Tokens (separated m hm names) ts) :
    ∃ links : List Link, links.map Link.name = names ∧
      ReadsAs (us ++ ts) (items (joinAll join a links)) := by
  induction names generalizing us ts a with
  | nil =>
    cases hts
    exact ⟨[], rfl, by rwa [List.append_nil]⟩
  | cons name names ih =>
    obtain _ | ⟨⟨q, rfl⟩, _ | ⟨⟨q', rfl⟩, hts⟩⟩ := hts
    obtain ⟨p, hjoined⟩ := hjoin q ha (.name name q')
    obtain ⟨links, rfl, hreads⟩ := ih hjoined hts
    refine ⟨⟨p, name, q'⟩ :: links, rfl, ?_⟩
    rwa [List.append_assoc] at hreads

end Formula
