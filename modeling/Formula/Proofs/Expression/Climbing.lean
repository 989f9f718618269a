import Formula.Proofs.Expression.Tree

/-!
# Reading a row by precedence climbing

A recursive reader of rows. It reads an operand, then goes on as long as the next operator is
of a level that it may take, and reads the last operand of an operator with the lowest level
that this operand may have. It finds every grouped tree again, so a row has at most one.
-/

namespace Formula

/-- What was read off the front of a row, and the rest of it. -/
structure Split (α : Type) (bound : Nat) where
  value : α
  rest : Row
  shorter : rest.length < bound

namespace Split

variable {α : Type} {m n : Nat}

def widen (h : m ≤ n) (s : Split α m) : Split α n :=
  ⟨s.value, s.rest, Nat.lt_of_lt_of_le s.shorter h⟩

def pair (s : Split α n) : α × Row := (s.value, s.rest)

@[simp] theorem pair_widen (h : m ≤ n) (s : Split α m) : (s.widen h).pair = s.pair := rfl

@[simp] theorem map_pair_map_widen (h : m ≤ n) (s : Option (Split α m)) :
    (s.map (widen h)).map pair = s.map pair := by
  cases s <;> rfl

theorem eq_of_map_pair {s : Option (Split α n)} {a : α} {rest : Row}
    (h : s.map pair = some (a, rest)) : ∃ hr, s = some ⟨a, rest, hr⟩ := by
  obtain ⟨⟨a', rest', hr⟩, rfl, hp⟩ := Option.map_eq_some_iff.mp h
  cases hp
  exact ⟨hr, rfl⟩

end Split

namespace Expr

mutual

/-- A leaf, a call, an expression in parentheses, or a prefix operator with its operand. -/
def operand? (row : Row) : Option (Split Expr row.length) :=
  match row with
  | ⟨.constant v, p⟩ :: rest => some ⟨.constant v p, rest, by simp⟩
  | ⟨.variable name, p⟩ :: rest => some ⟨.variable name p, rest, by simp⟩
  | ⟨.function name, p⟩ :: ⟨.openParen, opened⟩ :: rest =>
    match rest with
    | ⟨.closeParen, closed⟩ :: rest =>
      some ⟨.callEmpty name p opened closed, rest, by simp only [List.length_cons]; omega⟩
    | rest =>
      match args? rest with
      | some ⟨args, ⟨.closeParen, closed⟩ :: after, h⟩ =>
        some ⟨.call name p opened args closed, after, by simp only [List.length_cons] at *; omega⟩
      | _ => none
  | ⟨.openParen, opened⟩ :: rest =>
    match climb? 0 rest with
    | some ⟨e, ⟨.closeParen, closed⟩ :: after, h⟩ =>
      some ⟨.group opened e closed, after, by simp only [List.length_cons] at *; omega⟩
    | _ => none
  | ⟨.prefixOp op, p⟩ :: rest =>
    match climb? (Operator.prefixOp op).operandLevel rest with
    | some ⟨e, after, h⟩ =>
      some ⟨.prefixOp op p e, after, by simp only [List.length_cons] at *; omega⟩
    | none => none
  | _ => none
termination_by 3 * row.length
decreasing_by all_goals (simp only [List.length_cons] at *; omega)

/-- An expression whose outermost operators are at least of the level `least`. -/
def climb? (least : Nat) (row : Row) : Option (Split Expr row.length) :=
  match operand? row with
  | some ⟨e, rest, h⟩ => (extend? least e rest).map (Split.widen h)
  | none => none
termination_by 3 * row.length + 1
decreasing_by all_goals omega

/-- Takes in the operators after `left` for as long as their level allows it. -/
def extend? (least : Nat) (left : Expr) (row : Row) : Option (Split Expr (row.length + 1)) :=
  match row with
  | ⟨.infixOp op, p⟩ :: rest =>
    if least ≤ (Operator.infixOp op).level then
      match climb? (Operator.infixOp op).operandLevel rest with
      | some ⟨right, after, h⟩ =>
        (extend? least (.infixOp left op p right) after).map
          (Split.widen (by simp only [List.length_cons]; omega))
      | none => none
    else some ⟨left, ⟨.infixOp op, p⟩ :: rest, by simp⟩
  | ⟨.suffixOp op, p⟩ :: rest =>
    if least ≤ (Operator.suffixOp op).level then
      (extend? least (.suffixOp left op p) rest).map (Split.widen (by simp))
    else some ⟨left, ⟨.suffixOp op, p⟩ :: rest, by simp⟩
  | ⟨.openBracket, opened⟩ :: rest =>
    if least ≤ Operator.element.level then
      match climb? 0 rest with
      | some ⟨index, ⟨.closeBracket, closed⟩ :: after, h⟩ =>
        (extend? least (.element left opened index closed) after).map
          (Split.widen (by simp only [List.length_cons] at *; omega))
      | _ => none
    else some ⟨left, ⟨.openBracket, opened⟩ :: rest, by simp⟩
  | row => some ⟨left, row, by simp⟩
termination_by 3 * row.length
decreasing_by all_goals (simp only [List.length_cons] at *; omega)

def args? (row : Row) : Option (Split Args row.length) :=
  match climb? 0 row with
  | some ⟨e, rest, h⟩ => (moreArgs? (.one e) rest).map (Split.widen h)
  | none => none
termination_by 3 * row.length + 2
decreasing_by all_goals omega

def moreArgs? (before : Args) (row : Row) : Option (Split Args (row.length + 1)) :=
  match row with
  | ⟨.comma, p⟩ :: rest =>
    match climb? 0 rest with
    | some ⟨e, after, h⟩ =>
      (moreArgs? (.more before p e) after).map
        (Split.widen (by simp only [List.length_cons]; omega))
    | none => none
  | row => some ⟨before, row, by simp⟩
termination_by 3 * row.length
decreasing_by all_goals (simp only [List.length_cons] at *; omega)

end

def ofItems? (row : Row) : Option Expr :=
  match climb? 0 row with
  | some ⟨e, [], _⟩ => some e
  | _ => none

end Expr

namespace Expr

mutual

theorem items_of_operand? {row rest : Row} {e : Expr}
    (h : (operand? row).map Split.pair = some (e, rest)) : e.items ++ rest = row := by
  generalize hrow : row = r at h ⊢
  have hlength : row.length = r.length := congrArg List.length hrow
  rw [operand?.eq_def] at h
  split at h
  · cases h
    rfl
  · cases h
    rfl
  · split at h
    · cases h
      rfl
    · split at h
      · next hargs =>
        cases h
        have hin := items_of_args? (congrArg (Option.map Split.pair) hargs)
        simp only [items, List.cons_append, List.append_assoc, List.nil_append, hin]
      · cases h
  · split at h
    · next hin =>
      cases h
      have hin := items_of_climb? (congrArg (Option.map Split.pair) hin)
      simp only [items, List.cons_append, List.append_assoc, List.nil_append, hin]
    · cases h
  · split at h
    · next hin =>
      cases h
      have hin := items_of_climb? (congrArg (Option.map Split.pair) hin)
      simp only [items, List.cons_append, hin]
    · cases h
  · cases h
termination_by 3 * row.length
decreasing_by all_goals (simp only [List.length_cons] at *; omega)

theorem items_of_climb? {least : Nat} {row rest : Row} {e : Expr}
    (h : (climb? least row).map Split.pair = some (e, rest)) : e.items ++ rest = row := by
  rw [climb?.eq_def] at h
  split at h
  · next left rest' hshort hin =>
    rw [Split.map_pair_map_widen] at h
    have hin := items_of_operand? (congrArg (Option.map Split.pair) hin)
    rw [← hin]
    exact items_of_extend? h
  · cases h
termination_by 3 * row.length + 1
decreasing_by all_goals omega

theorem items_of_extend? {least : Nat} {left : Expr} {row rest : Row} {e : Expr}
    (h : (extend? least left row).map Split.pair = some (e, rest)) :
    e.items ++ rest = left.items ++ row := by
  generalize hrow : row = r at h ⊢
  have hlength : row.length = r.length := congrArg List.length hrow
  rw [extend?.eq_def] at h
  split at h
  · split at h
    · split at h
      · next hin =>
        rw [Split.map_pair_map_widen] at h
        have hin := items_of_climb? (congrArg (Option.map Split.pair) hin)
        rw [items_of_extend? h, items, List.append_assoc, List.cons_append, hin]
      · cases h
    · cases h
      rfl
  · split at h
    · rw [Split.map_pair_map_widen] at h
      rw [items_of_extend? h, items, List.append_assoc, List.singleton_append]
    · cases h
      rfl
  · split at h
    · split at h
      · next index closed after hshort hin =>
        rw [Split.map_pair_map_widen] at h
        have hafter := Nat.le_of_lt hshort
        have hin := items_of_climb? (congrArg (Option.map Split.pair) hin)
        rw [items_of_extend? h]
        simp only [items, List.append_assoc, List.cons_append, List.nil_append, hin]
      · cases h
    · cases h
      rfl
  · cases h
    rfl
termination_by 3 * row.length
decreasing_by all_goals (simp only [List.length_cons] at *; omega)

theorem items_of_args? {row rest : Row} {args : Args}
    (h : (args? row).map Split.pair = some (args, rest)) : args.items ++ rest = row := by
  rw [args?.eq_def] at h
  split at h
  · next hin =>
    rw [Split.map_pair_map_widen] at h
    have hin := items_of_climb? (congrArg (Option.map Split.pair) hin)
    rw [← hin]
    exact items_of_moreArgs? h
  · cases h
termination_by 3 * row.length + 2
decreasing_by all_goals omega

theorem items_of_moreArgs? {before : Args} {row rest : Row} {args : Args}
    (h : (moreArgs? before row).map Split.pair = some (args, rest)) :
    args.items ++ rest = before.items ++ row := by
  generalize hrow : row = r at h ⊢
  have hlength : row.length = r.length := congrArg List.length hrow
  rw [moreArgs?.eq_def] at h
  split at h
  · split at h
    · next hin =>
      rw [Split.map_pair_map_widen] at h
      have hin := items_of_climb? (congrArg (Option.map Split.pair) hin)
      rw [items_of_moreArgs? h, Args.items, List.append_assoc, List.cons_append, hin]
    · cases h
  · cases h
    rfl
termination_by 3 * row.length
decreasing_by all_goals (simp only [List.length_cons] at *; omega)

end

theorem items_of_ofItems? {row : Row} {e : Expr} (h : ofItems? row = some e) : e.items = row := by
  rw [ofItems?] at h
  split at h
  · next hin =>
    cases h
    have hin := items_of_climb? (congrArg (Option.map Split.pair) hin)
    rwa [List.append_nil] at hin
  · cases h

end Expr

/-- The operator that a row goes on with after an operand. -/
def Row.operator? : Row → Option Operator
  | ⟨.infixOp op, _⟩ :: _ => some (.infixOp op)
  | ⟨.suffixOp op, _⟩ :: _ => some (.suffixOp op)
  | ⟨.openBracket, _⟩ :: _ => some .element
  | _ => none

def Operator.EndsAt (held : Operator) (row : Row) : Prop :=
  ∀ g, row.operator? = some g → held.Yields g

namespace Expr

theorem extend?_of_endsAt {held : Operator} {row : Row} (h : held.EndsAt row) (left : Expr) :
    (extend? held.operandLevel left row).map Split.pair = some (left, row) := by
  have hlevel : ∀ g, row.operator? = some g → ¬ held.operandLevel ≤ g.level := by
    intro g hg
    rw [← Operator.not_yields_iff]
    exact fun hn => hn (h g hg)
  rw [extend?.eq_def]
  split
  · rw [if_neg (hlevel _ rfl)]
    rfl
  · rw [if_neg (hlevel _ rfl)]
    rfl
  · rw [if_neg (hlevel _ rfl)]
    rfl
  · rfl

theorem extend?_of_operator?_eq_none {row : Row} (h : row.operator? = none) (least : Nat)
    (left : Expr) : (extend? least left row).map Split.pair = some (left, row) := by
  rw [extend?.eq_def]
  split
  · cases h
  · cases h
  · cases h
  · rfl

theorem climb?_of_operand? {row rest : Row} {e : Expr}
    (h : (operand? row).map Split.pair = some (e, rest)) (least : Nat) :
    (climb? least row).map Split.pair = (extend? least e rest).map Split.pair := by
  obtain ⟨hr, hs⟩ := Split.eq_of_map_pair h
  rw [climb?.eq_def, hs]
  exact Split.map_pair_map_widen hr _

theorem args?_of_climb? {row rest : Row} {e : Expr}
    (h : (climb? 0 row).map Split.pair = some (e, rest)) :
    (args? row).map Split.pair = (moreArgs? (.one e) rest).map Split.pair := by
  obtain ⟨hr, hs⟩ := Split.eq_of_map_pair h
  rw [args?.eq_def, hs]
  exact Split.map_pair_map_widen hr _

theorem moreArgs?_comma {row rest : Row} {e : Expr}
    (h : (climb? 0 row).map Split.pair = some (e, rest)) (before : Args) (p : Text.Position) :
    (moreArgs? before (⟨.comma, p⟩ :: row)).map Split.pair =
      (moreArgs? (.more before p e) rest).map Split.pair := by
  obtain ⟨hr, hs⟩ := Split.eq_of_map_pair h
  rw [moreArgs?.eq_def]
  simp only [hs]
  exact Split.map_pair_map_widen _ _

theorem extend?_infixOp {least : Nat} {op : InfixOp} (hl : least ≤ (Operator.infixOp op).level)
    {row rest : Row} {right : Expr}
    (h : (climb? (Operator.infixOp op).operandLevel row).map Split.pair = some (right, rest))
    (left : Expr) (p : Text.Position) :
    (extend? least left (⟨.infixOp op, p⟩ :: row)).map Split.pair =
      (extend? least (.infixOp left op p right) rest).map Split.pair := by
  obtain ⟨hr, hs⟩ := Split.eq_of_map_pair h
  rw [extend?.eq_def]
  simp only [hs, if_pos hl]
  exact Split.map_pair_map_widen _ _

theorem extend?_suffixOp {least : Nat} {op : SuffixOp}
    (hl : least ≤ (Operator.suffixOp op).level) (left : Expr) (p : Text.Position) (row : Row) :
    (extend? least left (⟨.suffixOp op, p⟩ :: row)).map Split.pair =
      (extend? least (.suffixOp left op p) row).map Split.pair := by
  rw [extend?.eq_def]
  simp only [if_pos hl]
  exact Split.map_pair_map_widen _ _

theorem extend?_element {least : Nat} (hl : least ≤ Operator.element.level) {row rest : Row}
    {index : Expr} {closed : Text.Position}
    (h : (climb? 0 row).map Split.pair = some (index, ⟨.closeBracket, closed⟩ :: rest))
    (left : Expr) (opened : Text.Position) :
    (extend? least left (⟨.openBracket, opened⟩ :: row)).map Split.pair =
      (extend? least (.element left opened index closed) rest).map Split.pair := by
  obtain ⟨hr, hs⟩ := Split.eq_of_map_pair h
  rw [extend?.eq_def]
  simp only [hs, if_pos hl]
  exact Split.map_pair_map_widen _ _

theorem operand?_prefixOp {op : PrefixOp} {row rest : Row} {e : Expr}
    (h : (climb? (Operator.prefixOp op).operandLevel row).map Split.pair = some (e, rest))
    (p : Text.Position) :
    (operand? (⟨.prefixOp op, p⟩ :: row)).map Split.pair = some (.prefixOp op p e, rest) := by
  obtain ⟨hr, hs⟩ := Split.eq_of_map_pair h
  rw [operand?.eq_def]
  simp only [hs]
  rfl

theorem operand?_group {row rest : Row} {e : Expr} {closed : Text.Position}
    (h : (climb? 0 row).map Split.pair = some (e, ⟨.closeParen, closed⟩ :: rest))
    (opened : Text.Position) :
    (operand? (⟨.openParen, opened⟩ :: row)).map Split.pair =
      some (.group opened e closed, rest) := by
  obtain ⟨hr, hs⟩ := Split.eq_of_map_pair h
  rw [operand?.eq_def]
  simp only [hs]
  rfl

theorem args?_closeParen (closed : Text.Position) (row : Row) :
    args? (⟨.closeParen, closed⟩ :: row) = none := by
  rw [args?.eq_def, climb?.eq_def, operand?.eq_def]

theorem operand?_call {row rest : Row} {args : Args} {closed : Text.Position}
    (h : (args? row).map Split.pair = some (args, ⟨.closeParen, closed⟩ :: rest))
    (name : String) (p opened : Text.Position) :
    (operand? (⟨.function name, p⟩ :: ⟨.openParen, opened⟩ :: row)).map Split.pair =
      some (.call name p opened args closed, rest) := by
  obtain ⟨hr, hs⟩ := Split.eq_of_map_pair h
  rw [operand?.eq_def]
  dsimp only
  split
  · next closed' row =>
    rw [args?_closeParen] at hs
    cases hs
  · simp only [hs]
    rfl

end Expr

/-- Reading goes on after the tree as if it had just been read, provided that what follows
ends every operand which is still open. -/
def Expr.ReadsOn (e : Expr) : Prop :=
  ∀ (least : Nat) (rest : Row), (∀ g ∈ e.leftEdge, least ≤ g.level) →
    (∀ held ∈ e.rightEdge, held.EndsAt rest) →
      (climb? least (e.items ++ rest)).map Split.pair = (extend? least e rest).map Split.pair

def Args.ReadsOn (args : Args) : Prop :=
  ∀ rest : Row, rest.operator? = none →
    (Expr.args? (args.items ++ rest)).map Split.pair = (Expr.moreArgs? args rest).map Split.pair

namespace Expr.ReadsOn

variable {e f : Expr}

/-- The last operand of an operator is read with the level of that operand. -/
theorem climb?_last (h : e.ReadsOn) {op : Operator} (ht : op.TakesRight e) {rest : Row}
    (hr : ∀ held ∈ e.rightEdge, held.EndsAt rest) (hop : op.EndsAt rest) :
    (climb? op.operandLevel (e.items ++ rest)).map Split.pair = some (e, rest) := by
  have hl : ∀ g ∈ e.leftEdge, op.operandLevel ≤ g.level :=
    fun g hg => (Operator.not_yields_iff op g).mp (ht g hg)
  rw [h _ rest hl hr]
  exact extend?_of_endsAt hop e

/-- What stands in brackets is read up to the end of the bracket. -/
theorem climb?_bracketed (h : e.ReadsOn) (rest : Row) (hrest : rest.operator? = none) :
    (climb? 0 (e.items ++ rest)).map Split.pair = some (e, rest) := by
  have hr : ∀ held ∈ e.rightEdge, held.EndsAt rest := by
    intro held _ g hg
    rw [hrest] at hg
    cases hg
  rw [h 0 rest (fun g _ => Nat.zero_le _) hr]
  exact extend?_of_operator?_eq_none hrest 0 e

theorem of_operand? (h : ∀ rest, (operand? (e.items ++ rest)).map Split.pair = some (e, rest)) :
    e.ReadsOn :=
  fun least rest _ _ => climb?_of_operand? (h rest) least

theorem constant (v : Value) (p : Text.Position) : (Expr.constant v p).ReadsOn := by
  apply of_operand?
  intro rest
  rw [operand?.eq_def]
  rfl

theorem «variable» (name : String) (p : Text.Position) : (Expr.variable name p).ReadsOn := by
  apply of_operand?
  intro rest
  rw [operand?.eq_def]
  rfl

theorem callEmpty (name : String) (p opened closed : Text.Position) :
    (Expr.callEmpty name p opened closed).ReadsOn := by
  apply of_operand?
  intro rest
  rw [operand?.eq_def]
  rfl

theorem call {args : Args} (h : args.ReadsOn) (name : String) (p opened closed : Text.Position) :
    (Expr.call name p opened args closed).ReadsOn := by
  apply of_operand?
  intro rest
  have hargs := h (⟨.closeParen, closed⟩ :: rest) rfl
  rw [items, List.cons_append, List.cons_append, List.append_assoc, List.singleton_append]
  apply operand?_call
  rw [hargs, moreArgs?.eq_def]
  rfl

theorem group (h : e.ReadsOn) (opened closed : Text.Position) :
    (Expr.group opened e closed).ReadsOn := by
  apply of_operand?
  intro rest
  have hin := h.climb?_bracketed (⟨.closeParen, closed⟩ :: rest) rfl
  rw [items, List.cons_append, List.append_assoc, List.singleton_append]
  exact operand?_group hin opened

theorem prefixOp (h : e.ReadsOn) {op : PrefixOp} (ht : (Operator.prefixOp op).TakesRight e)
    (p : Text.Position) : (Expr.prefixOp op p e).ReadsOn := by
  intro least rest _ hr
  have hlast := h.climb?_last ht (fun g hg => hr g (.tail _ hg)) (hr _ (.head _))
  exact climb?_of_operand? (operand?_prefixOp hlast p) least

theorem climb?_operator (h : e.ReadsOn) {op : Operator} (ht : op.TakesLeft e) {least : Nat}
    (hl : ∀ g ∈ e.leftEdge, least ≤ g.level) (rest : Row) (hrest : rest.operator? = some op) :
    (climb? least (e.items ++ rest)).map Split.pair =
      (extend? least e rest).map Split.pair := by
  apply h least rest hl
  intro held hh g hg
  rw [hrest] at hg
  cases hg
  exact ht held hh

theorem suffixOp (h : e.ReadsOn) {op : SuffixOp} (ht : (Operator.suffixOp op).TakesLeft e)
    (p : Text.Position) : (Expr.suffixOp e op p).ReadsOn := by
  intro least rest hl _
  have hin := h.climb?_operator ht (fun g hg => hl g (.tail _ hg)) (⟨.suffixOp op, p⟩ :: rest) rfl
  rw [items, List.append_assoc, List.singleton_append, hin]
  exact extend?_suffixOp (hl _ (.head _)) e p rest

theorem infixOp (he : e.ReadsOn) (hf : f.ReadsOn) {op : InfixOp}
    (htl : (Operator.infixOp op).TakesLeft e) (htr : (Operator.infixOp op).TakesRight f)
    (p : Text.Position) : (Expr.infixOp e op p f).ReadsOn := by
  intro least rest hl hr
  have hin := he.climb?_operator htl (fun g hg => hl g (.tail _ hg))
    (⟨.infixOp op, p⟩ :: (f.items ++ rest)) rfl
  have hlast := hf.climb?_last htr (fun g hg => hr g (.tail _ hg)) (hr _ (.head _))
  rw [items, List.append_assoc, List.cons_append, hin]
  exact extend?_infixOp (hl _ (.head _)) hlast e p

theorem element (he : e.ReadsOn) (hf : f.ReadsOn) (ht : Operator.element.TakesLeft e)
    (opened closed : Text.Position) : (Expr.element e opened f closed).ReadsOn := by
  intro least rest hl _
  have hin := he.climb?_operator ht (fun g hg => hl g (.tail _ hg))
    (⟨.openBracket, opened⟩ :: (f.items ++ ⟨.closeBracket, closed⟩ :: rest)) rfl
  have hindex := hf.climb?_bracketed (⟨.closeBracket, closed⟩ :: rest) rfl
  rw [items, List.append_assoc, List.cons_append, List.append_assoc, List.singleton_append, hin]
  exact extend?_element (hl _ (.head _)) hindex e opened

end Expr.ReadsOn

namespace Args.ReadsOn

theorem one {e : Expr} (h : e.ReadsOn) : (Args.one e).ReadsOn :=
  fun rest hrest => Expr.args?_of_climb? (h.climb?_bracketed rest hrest)

theorem more {before : Args} (hb : before.ReadsOn) {e : Expr} (h : e.ReadsOn)
    (comma : Text.Position) : (Args.more before comma e).ReadsOn := by
  intro rest hrest
  have hin := hb (⟨.comma, comma⟩ :: (e.items ++ rest)) rfl
  rw [Args.items, List.append_assoc, List.cons_append, hin]
  exact Expr.moreArgs?_comma (h.climb?_bracketed rest hrest) before comma

end Args.ReadsOn

mutual

theorem Expr.Grouped.readsOn {e : Expr} (he : e.Grouped) : e.ReadsOn := by
  match e with
  | .constant v p => exact .constant v p
  | .variable name p => exact .variable name p
  | .callEmpty name p opened closed => exact .callEmpty name p opened closed
  | .call name p opened args closed => exact .call (Args.Grouped.readsOn he) name p opened closed
  | .group opened e closed => exact .group (Expr.Grouped.readsOn (e := e) he) opened closed
  | .prefixOp op p e => exact .prefixOp (Expr.Grouped.readsOn he.1) he.2 p
  | .suffixOp e op p => exact .suffixOp (Expr.Grouped.readsOn he.1) he.2 p
  | .infixOp left op p right =>
    obtain ⟨hleft, hright, htl, htr⟩ := he
    exact .infixOp (Expr.Grouped.readsOn hleft) (Expr.Grouped.readsOn hright) htl htr p
  | .element collection opened index closed =>
    obtain ⟨hcollection, hindex, htl⟩ := he
    exact .element (Expr.Grouped.readsOn hcollection) (Expr.Grouped.readsOn hindex) htl opened
      closed

theorem Args.Grouped.readsOn {args : Args} (ha : args.Grouped) : args.ReadsOn := by
  match args with
  | .one e => exact .one (Expr.Grouped.readsOn (e := e) ha)
  | .more before comma e =>
    exact .more (Args.Grouped.readsOn ha.1) (Expr.Grouped.readsOn ha.2) comma

end

namespace Expr

theorem ofItems?_items {e : Expr} (he : e.Grouped) : ofItems? e.items = some e := by
  have h := he.readsOn.climb?_bracketed [] rfl
  rw [List.append_nil] at h
  obtain ⟨hr, hs⟩ := Split.eq_of_map_pair h
  rw [ofItems?, hs]

theorem Grouped.eq_of_items_eq {e f : Expr} (he : e.Grouped) (hf : f.Grouped)
    (h : e.items = f.items) : e = f := by
  apply Option.some.inj
  rw [← ofItems?_items he, ← ofItems?_items hf, h]

end Expr

end Formula
