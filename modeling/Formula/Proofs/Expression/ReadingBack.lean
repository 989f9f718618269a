import Formula.Proofs.Expression.Names
import Formula.Proofs.Expression.Printing
import Formula.Proofs.Expression.TokenRows
import Formula.Proofs.Lexical.Spacing

/-!
# Written formulas are read back

The tokens of a written term are read as the items of a grouped tree: the term with its
positions and parentheses. Reading is stated for any tokens that may follow an operand, so
the parts of a term are read one after another.
-/

namespace Formula

open Text TokenMeaning

namespace Item

/-- The names that are kept with one more item. -/
def addName (names : List String) (i : Located Item) : List String :=
  match i.value with
  | .variable name =>
    if names.any fun known => decide (AsciiCase.Same known name) then names
    else names ++ [name]
  | _ => names

theorem foldl_addName (row : Row) (names : List String) : row.foldl addName names =
    List.eraseDupsBy.loop (fun a b => decide (AsciiCase.Same a b)) row.names names.reverse := by
  induction row generalizing names with
  | nil => exact (List.reverse_reverse names).symm
  | cons i row ih =>
    rw [List.foldl_cons, ih, Row.names_cons]
    obtain ⟨value, p⟩ := i
    cases value with
    | «variable» name =>
      have hany : (names.reverse.any fun known => decide (AsciiCase.Same name known)) =
          names.any fun known => decide (AsciiCase.Same known name) := by
        rw [List.any_reverse]
        simp only [AsciiCase.same_comm]
      change _ = List.eraseDupsBy.loop _ (name :: Row.names row) names.reverse
      rw [List.eraseDupsBy.loop, hany, addName]
      cases hknown : names.any fun known => decide (AsciiCase.Same known name) with
      | true => simp only [hknown, if_true]
      | false => simp only [hknown, Bool.false_eq_true, if_false, List.reverse_append,
          List.reverse_singleton, List.singleton_append]
    | _ => rfl

/-- The names of variables are kept in order, except those that are the same as an earlier
one. -/
theorem variableNames_eq (row : Row) : variableNames row =
    row.names.eraseDupsBy fun a b => decide (AsciiCase.Same a b) :=
  foldl_addName row []

end Item

abbrev Tokens (ps : List Piece) (ts : List Token) : Prop := List.Forall₂ Piece.Matches ps ts

theorem Tokens.exists_append {ps qs : List Piece} {ts : List Token} (h : Tokens (ps ++ qs) ts) :
    ∃ us vs, ts = us ++ vs ∧ Tokens ps us ∧ Tokens qs vs := by
  induction ps generalizing ts with
  | nil => exact ⟨[], ts, rfl, .nil, h⟩
  | cons p ps ih =>
    cases h with
    | @cons _ t _ ts hp h =>
      obtain ⟨us, vs, rfl, hus, hvs⟩ := ih h
      exact ⟨t :: us, vs, rfl, .cons hp hus, hvs⟩

@[simp]
theorem ofToken_mark {s : String} (hs : s ∈ marks) (q : Position) (due : Bool)
    (rest : List Token) : ofToken due ((Piece.mark s hs).token q) rest = ofSymbol due s :=
  rfl

@[simp]
theorem ofToken_reserved {word : String} (hw : word ∈ keywords) (q : Position) (due : Bool)
    (rest : List Token) :
    ofToken due ((Piece.reserved word hw).token q) rest = ofKeyword word rest :=
  rfl

theorem ofToken_name (name : String) (q : Position) (due : Bool) {rest : List Token}
    (hcall : startsCall rest = false) :
    ofToken due ((Piece.name name).token q) rest = .ok (.item (.variable name) 0) := by
  rw [ofToken_word rfl, hcall]
  rfl

@[simp]
theorem isWordAt_reserved {word : String} (hw : word ∈ keywords) (q : Position)
    (rest : List Token) (other : String) :
    isWordAt ((Piece.reserved word hw).token q :: rest) 0 other =
      decide (AsciiCase.Same word other) :=
  rfl

@[simp]
theorem isWordAt_succ (t : Token) (rest : List Token) (place : Nat) (word : String) :
    isWordAt (t :: rest) (place + 1) word = isWordAt rest place word :=
  rfl

/-- Of the words that an operand may begin with none goes with `NOT`. -/
theorem notWord_reserved {w : String} (hw : w ∈ keywords)
    (h : w ∈ ["NOT", "NULL", "TRUE", "FALSE"]) (q : Position) (rest : List Token) :
    ∀ word ∈ ["IN", "LIKE"], isWordAt ((Piece.reserved w hw).token q :: rest) 0 word = false := by
  have hall : ∀ w ∈ ["NOT", "NULL", "TRUE", "FALSE"], ∀ word ∈ ["IN", "LIKE"],
      ¬ AsciiCase.Same w word := by
    decide
  intro word hword
  rw [isWordAt_reserved]
  exact decide_eq_false (hall w h word hword)

/-- After an operand the tokens are the item. -/
structure ItemTokens (ts : List Token) (i : Item) (p : Position) : Prop where
  noCall (rest : List Token) : startsCall (ts ++ rest) = false
  reads {last : Option Item} {rest : List Token} {row : Row} :
    operandDue last = false → Reads (some i) none rest row →
      Reads last none (ts ++ rest) (⟨i, p⟩ :: row)

theorem ItemTokens.of_head {t : Token} {more : List Token} {i : Item}
    (hcall : startsCall [t] = false)
    (ht : ∀ rest, ofToken false t (more ++ rest) = .ok (.item i more.length)) :
    ItemTokens (t :: more) i t.position where
  noCall rest := hcall
  reads {last rest row} hdue h := by
    have hdrop : (more ++ rest).drop more.length = rest := List.drop_left
    rw [← hdrop] at h
    exact .item (hdue ▸ ht rest) (fun hn => absurd rfl hn) h

theorem InfixOp.exists_itemTokens (op : InfixOp) {ts : List Token} (h : Tokens op.pieces ts) :
    ∃ p, ItemTokens ts (.infixOp op) p := by
  cases op with
  | notIn | notLike =>
    obtain _ | ⟨⟨q, rfl⟩, _ | ⟨⟨q', rfl⟩, _ | _⟩⟩ := h
    refine ⟨q, .of_head rfl ?_⟩
    intro rest
    simp [ofKeyword, AsciiCase.Same, AsciiCase.key]
  | _ =>
    obtain _ | ⟨⟨q, rfl⟩, _ | _⟩ := h
    refine ⟨q, .of_head rfl ?_⟩
    intro rest
    simp [ofKeyword, ofSymbol]

theorem SuffixOp.exists_itemTokens (op : SuffixOp) {ts : List Token} (h : Tokens op.pieces ts) :
    ∃ p, ItemTokens ts (.suffixOp op) p := by
  cases op with
  | isNull =>
    obtain _ | ⟨⟨q, rfl⟩, _ | ⟨⟨q', rfl⟩, _ | _⟩⟩ := h
    refine ⟨q, .of_head rfl ?_⟩
    intro rest
    simp [ofKeyword, AsciiCase.Same, AsciiCase.key]
  | isNotNull =>
    obtain _ | ⟨⟨q, rfl⟩, _ | ⟨⟨q', rfl⟩, _ | ⟨⟨q'', rfl⟩, _ | _⟩⟩⟩ := h
    refine ⟨q, .of_head rfl ?_⟩
    intro rest
    simp [ofKeyword, AsciiCase.Same, AsciiCase.key]

/-- Where an operand is due, the tokens are read as the row. -/
def ReadsAs (ts : List Token) (r : Row) : Prop :=
  ∀ ⦃last : Option Item⦄ ⦃rest : List Token⦄ ⦃row : Row⦄, operandDue last = true →
    startsCall rest = false → Reads (some .closeParen) none rest row →
      Reads last none (ts ++ rest) (r ++ row)

namespace ReadsAs

variable {us vs ws : List Token} {r s : Row}

theorem single {t : Token} {i : Item}
    (ht : ∀ due rest, startsCall rest = false → ofToken due t rest = .ok (.item i 0))
    (hi : operandDue (some i) = false) : ReadsAs [t] [⟨i, t.position⟩] := by
  intro last rest row _ hcall h
  exact .single (ht _ rest hcall) (h.congr (some i) hi)

theorem enclosed (h : ReadsAs us r) (opened closed : Position) :
    ReadsAs ((Piece.mark "(").token opened :: (us ++ [(Piece.mark ")").token closed]))
      (⟨.openParen, opened⟩ :: (r ++ [⟨.closeParen, closed⟩])) := by
  intro last rest row _ _ hrest
  have hclose : Reads (some .closeParen) none ((Piece.mark ")").token closed :: rest)
      (⟨.closeParen, closed⟩ :: row) := .single rfl hrest
  rw [List.cons_append, List.cons_append, List.append_assoc, List.append_assoc]
  exact .single rfl (h rfl rfl hclose)

theorem infixOp {op : InfixOp} {p : Position} (hl : ReadsAs us r)
    (hop : ItemTokens vs (.infixOp op) p) (hr : ReadsAs ws s) :
    ReadsAs (us ++ (vs ++ ws)) (r ++ ⟨.infixOp op, p⟩ :: s) := by
  intro last rest row hdue hcall hrest
  rw [List.append_assoc, List.append_assoc, List.append_assoc, List.cons_append]
  exact hl hdue (hop.noCall _) (hop.reads rfl (hr rfl hcall hrest))

theorem suffixOp {op : SuffixOp} {p : Position} (h : ReadsAs us r)
    (hop : ItemTokens vs (.suffixOp op) p) : ReadsAs (us ++ vs) (r ++ [⟨.suffixOp op, p⟩]) := by
  intro last rest row hdue _ hrest
  rw [List.append_assoc, List.append_assoc, List.singleton_append]
  exact h hdue (hop.noCall _) (hop.reads rfl (hrest.congr _ rfl))

theorem element (hc : ReadsAs us r) (hi : ReadsAs vs s) (opened closed : Position) :
    ReadsAs (us ++ (Piece.mark "[").token opened :: (vs ++ [(Piece.mark "]").token closed]))
      (r ++ ⟨.openBracket, opened⟩ :: (s ++ [⟨.closeBracket, closed⟩])) := by
  intro last rest row hdue _ hrest
  have hclose : Reads (some .closeParen) none ((Piece.mark "]").token closed :: rest)
      (⟨.closeBracket, closed⟩ :: row) := .single rfl (hrest.congr _ rfl)
  have hopen : Reads (some .closeParen) none
      ((Piece.mark "[").token opened :: (vs ++ (Piece.mark "]").token closed :: rest))
      (⟨.openBracket, opened⟩ :: (s ++ ⟨.closeBracket, closed⟩ :: row)) :=
    .single rfl (hi rfl rfl hclose)
  rw [List.append_assoc, List.append_assoc, List.cons_append, List.cons_append,
    List.append_assoc, List.append_assoc]
  exact hc hdue rfl hopen

theorem comma (hb : ReadsAs us r) (he : ReadsAs vs s) (p : Position) :
    ReadsAs (us ++ (Piece.mark ",").token p :: vs) (r ++ ⟨.comma, p⟩ :: s) := by
  intro last rest row hdue hcall hrest
  have hcomma : Reads (some .closeParen) none ((Piece.mark ",").token p :: (vs ++ rest))
      (⟨.comma, p⟩ :: (s ++ row)) := .single rfl (he rfl hcall hrest)
  rw [List.append_assoc, List.append_assoc, List.cons_append, List.cons_append]
  exact hb hdue rfl hcomma

theorem call (name : String) (p : Position) {opened : Position}
    (h : ReadsAs ((Piece.mark "(").token opened :: us) (⟨.openParen, opened⟩ :: r)) :
    ReadsAs ((Piece.name name).token p :: (Piece.mark "(").token opened :: us)
      (⟨.function name, p⟩ :: ⟨.openParen, opened⟩ :: r) := by
  intro last rest row _ hcall hrest
  exact .single rfl (h rfl hcall hrest)

theorem prefixOp {op : PrefixOp} {p : Position} (h : ReadsAs us r)
    (hword : ∀ rest, ∀ word ∈ ["IN", "LIKE"], isWordAt (us ++ rest) 0 word = false) :
    ReadsAs (op.piece.token p :: us) (⟨.prefixOp op, p⟩ :: r) := by
  intro last rest row hdue hcall hrest
  have hafter : Reads (some (.prefixOp op)) none (us ++ rest) (r ++ row) := h rfl hcall hrest
  rw [List.cons_append, List.cons_append]
  cases op with
  | negate => exact .single (hdue ▸ rfl) hafter
  | not =>
    have hin := hword rest "IN" (by decide)
    have hlike := hword rest "LIKE" (by decide)
    refine .single ?_ hafter
    simp [PrefixOp.piece, ofKeyword, hin, hlike]

end ReadsAs

/-- The tokens of an operand, which is the tree `e`; it does not begin with a word that would
go with `NOT`. -/
structure OperandTokens (ts : List Token) (e : Expr) : Prop where
  reads : ReadsAs ts e.items
  notWord (rest : List Token) : ∀ word ∈ ["IN", "LIKE"], isWordAt (ts ++ rest) 0 word = false

namespace OperandTokens

variable {us vs : List Token} {e : Expr}

theorem notWord_append (h : OperandTokens us e) (vs rest : List Token) :
    ∀ word ∈ ["IN", "LIKE"], isWordAt (us ++ vs ++ rest) 0 word = false := by
  rw [List.append_assoc]
  exact h.notWord (vs ++ rest)

theorem enclosed (h : OperandTokens us e) (opened closed : Position) :
    OperandTokens ((Piece.mark "(").token opened :: (us ++ [(Piece.mark ")").token closed]))
      (.group opened e closed) :=
  ⟨h.reads.enclosed opened closed, fun _ _ _ => rfl⟩

end OperandTokens

/-- The tree is the term at some positions, and shows an operator only if the term does. -/
structure Term.Stands (t : Term) (e : Expr) : Prop where
  steps : e.program.map Located.value = t.steps
  names : Row.names e.items = t.names
  grouped : e.Grouped
  closed : ¬ t.hasOperator → e.Closed

structure TermArgs.Stands (args : TermArgs) (f : Args) : Prop where
  steps : f.program.map Located.value = args.steps
  names : Row.names f.items = args.names
  grouped : f.Grouped
  size : f.size = args.size

/-- The pieces are read back as the term. -/
def Term.ReadsBack (t : Term) (ps : List Piece) : Prop :=
  ∀ ⦃ts : List Token⦄, Tokens ps ts → ∃ e, t.Stands e ∧ OperandTokens ts e

def TermArgs.ReadsBack (args : TermArgs) (ps : List Piece) : Prop :=
  ∀ ⦃ts : List Token⦄, Tokens ps ts → ∃ f, args.Stands f ∧ ReadsAs ts f.items

namespace Term.ReadsBack

variable {t u : Term} {ps qs : List Piece}

theorem exists_group (h : t.ReadsBack ps) {ts : List Token}
    (hts : Tokens (Piece.enclose true ps) ts) :
    ∃ e, t.Stands e ∧ e.Closed ∧ OperandTokens ts e := by
  obtain _ | ⟨⟨opened, rfl⟩, hts⟩ := hts
  obtain ⟨us, vs, rfl, hus, hvs⟩ := Tokens.exists_append hts
  obtain _ | ⟨⟨closed, rfl⟩, _ | _⟩ := hvs
  obtain ⟨e, he, hoperand⟩ := h hus
  have hclosed : (Expr.group opened e closed).Closed := ⟨he.grouped, rfl, rfl⟩
  have hnames : Row.names (Expr.group opened e closed).items = t.names := by
    rw [Expr.items, Row.names_cons, Row.names_append, he.names]
    exact List.append_nil t.names
  exact ⟨.group opened e closed, ⟨he.steps, hnames, he.grouped, fun _ => hclosed⟩, hclosed,
    hoperand.enclosed opened closed⟩

/-- A term with an operator is in parentheses, so as an operand it shows none. -/
theorem exists_operand (h : t.ReadsBack ps) {wrapped : Bool} (hw : t.hasOperator → wrapped)
    {ts : List Token} (hts : Tokens (Piece.enclose wrapped ps) ts) :
    ∃ e, t.Stands e ∧ e.Closed ∧ OperandTokens ts e := by
  cases wrapped with
  | true => exact h.exists_group hts
  | false =>
    obtain ⟨e, he, hoperand⟩ := h hts
    exact ⟨e, he, he.closed fun ht => Bool.false_ne_true (hw ht), hoperand⟩

theorem enclose (h : t.ReadsBack ps) (wrapped : Bool) :
    t.ReadsBack (Piece.enclose wrapped ps) := by
  intro ts hts
  cases wrapped with
  | true =>
    obtain ⟨e, he, -, hoperand⟩ := h.exists_group hts
    exact ⟨e, he, hoperand⟩
  | false => exact h hts

theorem of_piece {p : Piece} {i : Item} {e : Position → Expr} (hstands : ∀ q, t.Stands (e q))
    (hitems : ∀ q, (e q).items = [⟨i, q⟩]) (hi : operandDue (some i) = false)
    (hp : ∀ q due rest, startsCall rest = false → ofToken due (p.token q) rest = .ok (.item i 0))
    (hword : ∀ q, ∀ word ∈ ["IN", "LIKE"], isWordAt [p.token q] 0 word = false) :
    t.ReadsBack [p] := by
  intro ts hts
  obtain _ | ⟨⟨q, rfl⟩, _ | _⟩ := hts
  have hreads : ReadsAs [p.token q] [⟨i, q⟩] := .single (hp q) hi
  exact ⟨e q, hstands q, hitems q ▸ hreads, fun rest => hword q⟩

theorem of_constant {p : Piece} {v : Value} (hsteps : t.steps = [.push v]) (hnames : t.names = [])
    (hp : ∀ q due rest, startsCall rest = false →
      ofToken due (p.token q) rest = .ok (.item (.constant v) 0))
    (hword : ∀ q, ∀ word ∈ ["IN", "LIKE"], isWordAt [p.token q] 0 word = false) :
    t.ReadsBack [p] := by
  have hstands (q : Position) : t.Stands (.constant v q) :=
    ⟨hsteps.symm, hnames.symm, trivial, fun _ => ⟨trivial, rfl, rfl⟩⟩
  exact of_piece hstands (fun _ => rfl) rfl hp hword

theorem number (n : Nat) (h : n < 9223372036854775808) :
    (Term.number n h).ReadsBack [.number n] := by
  refine of_constant rfl rfl ?_ (fun _ _ _ => rfl)
  intro q due rest _
  change ofLiteral (integerLiteral? (String.ofList (Number.digits n)).toList) _ = _
  rw [String.toList_ofList, integerLiteral?_digits h]
  rfl

theorem text (s : String) : (Term.text s).ReadsBack [.text s] :=
  of_constant rfl rfl (fun _ _ _ _ => rfl) (fun _ _ _ => rfl)

theorem truth (b : Bool) (wrap : Term → Bool) :
    (Term.truth b).ReadsBack ((Term.truth b).pieces wrap) := by
  cases b with
  | true =>
    refine of_constant rfl rfl ?_ fun q => notWord_reserved (by decide) (by decide) q []
    intro q due rest _
    simp [ofKeyword]
  | false =>
    refine of_constant rfl rfl ?_ fun q => notWord_reserved (by decide) (by decide) q []
    intro q due rest _
    simp [ofKeyword]

theorem null : Term.null.ReadsBack [.reserved "NULL"] := by
  refine of_constant rfl rfl ?_ fun q => notWord_reserved (by decide) (by decide) q []
  intro q due rest hcall
  simp [ofKeyword, hcall]

theorem «variable» (name : String) : (Term.variable name).ReadsBack [.name name] := by
  have hstands (q : Position) : (Term.variable name).Stands (.variable name q) :=
    ⟨rfl, rfl, trivial, fun _ => ⟨trivial, rfl, rfl⟩⟩
  exact of_piece hstands (fun _ => rfl) rfl (fun q due _ hcall => ofToken_name name q due hcall)
    fun _ _ _ => rfl

theorem prefixOp (h : t.ReadsBack ps) {wrapped : Bool} (hw : t.hasOperator → wrapped)
    (op : PrefixOp) : (Term.prefixOp op t).ReadsBack (op.piece :: Piece.enclose wrapped ps) := by
  intro ts hts
  obtain _ | @⟨_, _, _, us, ⟨p, rfl⟩, hus⟩ := hts
  obtain ⟨e, he, hclosed, hoperand⟩ := h.exists_operand hw hus
  have hsteps : (Expr.prefixOp op p e).program.map Located.value = (Term.prefixOp op t).steps := by
    rw [Expr.program, Term.steps, List.map_append, he.steps]
    rfl
  have hnames : Row.names (Expr.prefixOp op p e).items = (Term.prefixOp op t).names := by
    rw [Expr.items, Row.names_cons, he.names]
    rfl
  have hgrouped : (Expr.prefixOp op p e).Grouped :=
    ⟨hclosed.grouped, Operator.takesRight_of_closed _ hclosed⟩
  refine ⟨.prefixOp op p e, ⟨hsteps, hnames, hgrouped, fun hn => absurd rfl hn⟩,
    hoperand.reads.prefixOp hoperand.notWord, ?_⟩
  intro rest
  cases op with
  | negate => exact fun _ _ => rfl
  | not => exact notWord_reserved (by decide) (by decide) p (us ++ rest)

theorem suffixOp (h : t.ReadsBack ps) {wrapped : Bool} (hw : t.hasOperator → wrapped)
    (op : SuffixOp) :
    (Term.suffixOp t op).ReadsBack (Piece.enclose wrapped ps ++ op.pieces) := by
  intro ts hts
  obtain ⟨us, vs, rfl, hus, hvs⟩ := Tokens.exists_append hts
  obtain ⟨e, he, hclosed, hoperand⟩ := h.exists_operand hw hus
  obtain ⟨p, hop⟩ := op.exists_itemTokens hvs
  have hsteps : (Expr.suffixOp e op p).program.map Located.value = (Term.suffixOp t op).steps := by
    rw [Expr.program, Term.steps, List.map_append, he.steps]
    rfl
  have hnames : Row.names (Expr.suffixOp e op p).items = (Term.suffixOp t op).names := by
    rw [Expr.items, Row.names_append, he.names]
    exact List.append_nil _
  have hgrouped : (Expr.suffixOp e op p).Grouped :=
    ⟨hclosed.grouped, Operator.takesLeft_of_closed _ hclosed⟩
  exact ⟨.suffixOp e op p, ⟨hsteps, hnames, hgrouped, fun hn => absurd rfl hn⟩,
    hoperand.reads.suffixOp hop, hoperand.notWord_append vs⟩

theorem infixOp (ht : t.ReadsBack ps) (hu : u.ReadsBack qs) {wrappedLeft wrappedRight : Bool}
    (hl : t.hasOperator → wrappedLeft) (hr : u.hasOperator → wrappedRight)
    (op : InfixOp) : (Term.infixOp t op u).ReadsBack
      (Piece.enclose wrappedLeft ps ++ (op.pieces ++ Piece.enclose wrappedRight qs)) := by
  intro ts hts
  obtain ⟨us, rest, rfl, hus, hrest⟩ := Tokens.exists_append hts
  obtain ⟨vs, ws, rfl, hvs, hws⟩ := Tokens.exists_append hrest
  obtain ⟨e, he, hleft, hoperand⟩ := ht.exists_operand hl hus
  obtain ⟨p, hop⟩ := op.exists_itemTokens hvs
  obtain ⟨f, hf, hright, hoperand'⟩ := hu.exists_operand hr hws
  have hsteps : (Expr.infixOp e op p f).program.map Located.value =
      (Term.infixOp t op u).steps := by
    rw [Expr.program, Term.steps, List.map_append, List.map_append, he.steps, hf.steps]
    rfl
  have hnames : Row.names (Expr.infixOp e op p f).items = (Term.infixOp t op u).names := by
    rw [Expr.items, Row.names_append, Row.names_cons, he.names, hf.names]
    rfl
  have hgrouped : (Expr.infixOp e op p f).Grouped :=
    ⟨hleft.grouped, hright.grouped, Operator.takesLeft_of_closed _ hleft,
      Operator.takesRight_of_closed _ hright⟩
  exact ⟨.infixOp e op p f, ⟨hsteps, hnames, hgrouped, fun hn => absurd rfl hn⟩,
    hoperand.reads.infixOp hop hoperand'.reads, hoperand.notWord_append (vs ++ ws)⟩

theorem element (ht : t.ReadsBack ps) (hu : u.ReadsBack qs) {wrapped : Bool}
    (hl : t.hasOperator → wrapped) (wrappedIndex : Bool) : (Term.element t u).ReadsBack
      (Piece.enclose wrapped ps ++
        .mark "[" :: (Piece.enclose wrappedIndex qs ++ [.mark "]"])) := by
  intro ts hts
  obtain ⟨us, rest, rfl, hus, hrest⟩ := Tokens.exists_append hts
  obtain _ | ⟨⟨opened, rfl⟩, hrest⟩ := hrest
  obtain ⟨vs, ws, rfl, hvs, hws⟩ := Tokens.exists_append hrest
  obtain _ | ⟨⟨closed, rfl⟩, _ | _⟩ := hws
  obtain ⟨e, he, hleft, hoperand⟩ := ht.exists_operand hl hus
  obtain ⟨f, hf, hoperand'⟩ := hu.enclose wrappedIndex hvs
  have hsteps : (Expr.element e opened f closed).program.map Located.value =
      (Term.element t u).steps := by
    rw [Expr.program, Term.steps, List.map_append, List.map_append, he.steps, hf.steps]
    rfl
  have hnames : Row.names (Expr.element e opened f closed).items = (Term.element t u).names := by
    rw [Expr.items, Row.names_append, Row.names_cons, Row.names_append, he.names, hf.names]
    exact congrArg (t.names ++ ·) (List.append_nil u.names)
  have hgrouped : (Expr.element e opened f closed).Grouped :=
    ⟨hleft.grouped, hf.grouped, Operator.takesLeft_of_closed _ hleft⟩
  exact ⟨.element e opened f closed, ⟨hsteps, hnames, hgrouped, fun hn => absurd rfl hn⟩,
    hoperand.reads.element hoperand'.reads opened closed, hoperand.notWord_append _⟩

theorem callEmpty (name : String) :
    (Term.callEmpty name).ReadsBack [.name name, .mark "(", .mark ")"] := by
  intro ts hts
  obtain _ | ⟨⟨p, rfl⟩, _ | ⟨⟨opened, rfl⟩, _ | ⟨⟨closed, rfl⟩, _ | _⟩⟩⟩ := hts
  have hreads : ReadsAs [(Piece.mark "(").token opened, (Piece.mark ")").token closed]
      [⟨.openParen, opened⟩, ⟨.closeParen, closed⟩] := by
    intro last rest row _ _ hrest
    exact .single rfl (.single rfl hrest)
  exact ⟨.callEmpty name p opened closed,
    ⟨rfl, rfl, trivial, fun _ => ⟨trivial, rfl, rfl⟩⟩, hreads.call name p, fun _ _ _ => rfl⟩

theorem call {args : TermArgs} (h : args.ReadsBack ps) (name : String) :
    (Term.call name args).ReadsBack (.name name :: .mark "(" :: (ps ++ [.mark ")"])) := by
  intro ts hts
  obtain _ | ⟨⟨p, rfl⟩, _ | ⟨⟨opened, rfl⟩, hts⟩⟩ := hts
  obtain ⟨us, vs, rfl, hus, hvs⟩ := Tokens.exists_append hts
  obtain _ | ⟨⟨closed, rfl⟩, _ | _⟩ := hvs
  obtain ⟨f, hf, hreads⟩ := h hus
  have hsteps : (Expr.call name p opened f closed).program.map Located.value =
      (Term.call name args).steps := by
    rw [Expr.program, Term.steps, List.map_append, hf.steps, hf.size]
    rfl
  have hnames : Row.names (Expr.call name p opened f closed).items =
      (Term.call name args).names := by
    rw [Expr.items, Row.names_cons, Row.names_cons ⟨.openParen, opened⟩, Row.names_append,
      hf.names]
    exact List.append_nil args.names
  have hclosed : (Expr.call name p opened f closed).Closed := ⟨hf.grouped, rfl, rfl⟩
  exact ⟨.call name p opened f closed, ⟨hsteps, hnames, hf.grouped, fun _ => hclosed⟩,
    (hreads.enclosed opened closed).call name p, fun _ _ _ => rfl⟩

end Term.ReadsBack

namespace TermArgs.ReadsBack

variable {t : Term} {ps qs : List Piece}

theorem one (h : t.ReadsBack ps) (wrapped : Bool) :
    (TermArgs.one t).ReadsBack (Piece.enclose wrapped ps) := by
  intro ts hts
  obtain ⟨e, he, hoperand⟩ := h.enclose wrapped hts
  exact ⟨.one e, ⟨he.steps, he.names, he.grouped, rfl⟩, hoperand.reads⟩

theorem more {before : TermArgs} (hb : before.ReadsBack ps) (h : t.ReadsBack qs)
    (wrapped : Bool) :
    (TermArgs.more before t).ReadsBack (ps ++ .mark "," :: Piece.enclose wrapped qs) := by
  intro ts hts
  obtain ⟨us, rest, rfl, hus, hrest⟩ := Tokens.exists_append hts
  obtain _ | ⟨⟨p, rfl⟩, hvs⟩ := hrest
  obtain ⟨f, hf, hreads⟩ := hb hus
  obtain ⟨e, he, hoperand⟩ := h.enclose wrapped hvs
  have hsteps : (Args.more f p e).program.map Located.value = (TermArgs.more before t).steps := by
    rw [Args.program, TermArgs.steps, List.map_append, hf.steps, he.steps]
  have hnames : Row.names (Args.more f p e).items = (TermArgs.more before t).names := by
    rw [Args.items, Row.names_append, Row.names_cons, hf.names, he.names]
    rfl
  have hsize : (Args.more f p e).size = (TermArgs.more before t).size :=
    congrArg (· + 1) hf.size
  exact ⟨.more f p e, ⟨hsteps, hnames, ⟨hf.grouped, he.grouped⟩, hsize⟩,
    hreads.comma hoperand.reads p⟩

end TermArgs.ReadsBack

mutual

theorem Term.readsBack_pieces {wrap : Term → Bool}
    (hwrap : ∀ t : Term, t.hasOperator → wrap t) (t : Term) :
    t.ReadsBack (t.pieces wrap) := by
  match t with
  | .number n h => exact .number n h
  | .text s => exact .text s
  | .truth b => exact .truth b wrap
  | .null => exact .null
  | .variable name => exact .variable name
  | .callEmpty name => exact .callEmpty name
  | .call name args => exact .call (args.readsBack_pieces hwrap) name
  | .prefixOp op e => exact .prefixOp (e.readsBack_pieces hwrap) (hwrap e) op
  | .suffixOp e op => exact .suffixOp (e.readsBack_pieces hwrap) (hwrap e) op
  | .infixOp left op right =>
    exact .infixOp (left.readsBack_pieces hwrap) (right.readsBack_pieces hwrap) (hwrap left)
      (hwrap right) op
  | .element collection index =>
    exact .element (collection.readsBack_pieces hwrap) (index.readsBack_pieces hwrap)
      (hwrap collection) _

theorem TermArgs.readsBack_pieces {wrap : Term → Bool}
    (hwrap : ∀ t : Term, t.hasOperator → wrap t) (args : TermArgs) :
    args.ReadsBack (args.pieces wrap) := by
  match args with
  | .one e => exact .one (e.readsBack_pieces hwrap) _
  | .more before e => exact .more (before.readsBack_pieces hwrap) (e.readsBack_pieces hwrap) _

end

/-- A written formula is accepted. Its program has the steps of the term, and its variables
are those of the term, each in its first spelling. -/
theorem Parsed.ofText_written {wrap : Term → Bool}
    (hwrap : ∀ t : Term, t.hasOperator → wrap t) (t : Term) (outer : Bool)
    {text : List Char} (h : Spaced (Piece.enclose outer (t.pieces wrap)) text) :
    ∃ p, ofText (String.ofList text) = .ok p ∧ p.program.map Located.value = t.steps ∧
      p.variableNames = t.names.eraseDupsBy fun a b => decide (AsciiCase.Same a b) := by
  obtain ⟨tokens, htokens, hmatches⟩ := h.exists_tokensOf
  obtain ⟨e, he, hoperand⟩ := (t.readsBack_pieces hwrap).enclose outer hmatches
  have hreads : Reads none none tokens e.items := by
    have hrow : Reads none none (tokens ++ []) (e.items ++ []) :=
      hoperand.reads rfl rfl (.done _)
    rw [List.append_nil, List.append_nil] at hrow
    exact hrow
  have hprogram := Program.ofItems_items he.grouped hreads.callsOpen
  refine ⟨⟨String.ofList text, tokens, e.items, e.program, Item.variableNames e.items⟩, ?_,
    he.steps, ?_⟩
  · rw [ofText, htokens]
    exact ofTokensNamed_eq_ok hreads hprogram _
  · rw [← he.names]
    exact Item.variableNames_eq e.items

/-- In `"x" - ( - "X" )` the sign keeps its parentheses, and `X` is the variable `x`. -/
theorem Parsed.ofText_written_minus :
    Spaced [.name "x", .mark "-", .mark "(", .mark "-", .name "X", .mark ")"]
        ['"', 'x', '"', ' ', '-', '\t', '(', '\n', '-', ' ', ' ', '"', 'X', '"', ' ', ')'] ∧
      ∃ p, ofText (String.ofList
          ['"', 'x', '"', ' ', '-', '\t', '(', '\n', '-', ' ', ' ', '"', 'X', '"', ' ', ')']) =
          .ok p ∧
        p.program.map Located.value =
          [.load "x", .load "X", .apply (.prefixOp .negate), .apply (.infixOp .minus)] ∧
        p.variableNames = ["x"] := by
  have hspaced : Spaced [.name "x", .mark "-", .mark "(", .mark "-", .name "X", .mark ")"]
      ['"', 'x', '"', ' ', '-', '\t', '(', '\n', '-', ' ', ' ', '"', 'X', '"', ' ', ')'] := by
    have hblank : ∀ c ∈ [' '], c.toNat ≤ 32 := by simp
    have htab : ∀ c ∈ ['\t'], c.toNat ≤ 32 := by simp
    have hbreak : ∀ c ∈ ['\n'], c.toNat ≤ 32 := by simp
    have htwo : ∀ c ∈ [' ', ' '], c.toNat ≤ 32 := by simp
    have h := Spaced.cons (.name "x") (List.cons_ne_nil _ _) hblank <|
      .cons (.mark "-") (List.cons_ne_nil _ _) htab <|
      .cons (.mark "(") (List.cons_ne_nil _ _) hbreak <|
      .cons (.mark "-") (List.cons_ne_nil _ _) htwo <|
      .cons (.name "X") (List.cons_ne_nil _ _) hblank <| .last (.mark ")")
    simpa [Piece.spelling, Quoted.encode, Quoted.double] using h
  let t : Term := .infixOp (.variable "x") .minus (.prefixOp .negate (.variable "X"))
  have hwrap (u : Term) (hu : u.hasOperator) : u.hasOperator := hu
  obtain ⟨p, hp, hsteps, hnames⟩ := ofText_written hwrap t false hspaced
  have hdups : t.names.eraseDupsBy (fun a b => decide (AsciiCase.Same a b)) = ["x"] := by
    decide
  exact ⟨hspaced, p, hp, hsteps, hnames.trans hdups⟩
end Formula
