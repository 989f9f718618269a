import Formula.Proofs.Expression.Alternation
import Formula.Proofs.Expression.Layout
import Formula.Proofs.Text.Case

/-!
# Plus signs

A plus sign leaves no item, so it may be put in front of every operand and taken out again. No
token looks past it: what a name, `NOT` or `IS` looks for stands right behind it, and none of these
is read where an operand is due behind them, unless what they looked for was there. An operand
follows every plus sign that was taken in, since the item behind it was.
-/

namespace Formula

open TokenMeaning

def Row.lastItem (last : Option Item) : Row → Option Item
  | [] => last
  | i :: row => lastItem (some i.value) row

/-- An item that is taken in opens an operand if one is due behind the items before it. -/
theorem Arranging.opensOperand_of_feed {a b : Arranging} {steps : Program} {front back : Row}
    {i : Located Item} {last : Option Item} (h : a.feed (front ++ i :: back) = .ok (steps, b))
    (hdue : a.operandDue = TokenMeaning.operandDue last) (hi : i.value.kind ≠ .closeParen) :
    TokenMeaning.operandDue (Row.lastItem last front) = i.value.opensOperand := by
  induction front generalizing a last steps with
  | nil =>
    obtain ⟨first, c, more, hs, -⟩ := exists_of_feed_cons h
    exact hdue.symm.trans ((due_of_step hs).1 hi)
  | cons j front ih =>
    obtain ⟨first, c, more, hs, hrest, -⟩ := exists_of_feed_cons h
    exact ih hrest (due_of_step hs).2

theorem Item.closesOperand_of_opensOperand {i : Item} (h : i.opensOperand = true) :
    i.closesOperand = false := by
  cases i <;> first | rfl | cases h

theorem Item.kind_ne_closeParen {i : Item} (h : i.closesOperand = false) :
    i.kind ≠ .closeParen := by
  cases i with
  | closeParen => cases h
  | _ => nofun

def Token.IsPlus (t : Token) : Prop := t.kind = .symbol ∧ t.text = "+"

theorem TokenMeaning.ofToken_plus {t : Token} (ht : t.IsPlus) (rest : List Token) :
    ofToken true t rest = .ok .plusSign := by
  rw [ofToken, ht.1, ht.2]
  rfl

/-- Reading `before`, with `after` behind it, leaves `last'` as the last item. -/
inductive ReadsTo (after : List Token) : Option Item → List Token → Option Item → Prop
  | done (last : Option Item) : ReadsTo after last [] last
  | pass {last last' : Option Item} {t : Token} {rest : List Token} {m : TokenMeaning}
    (ht : ofToken (operandDue last) t (rest ++ after) = .ok m) (hm : ∀ i more, m ≠ .item i more)
    (h : ReadsTo after last rest last') : ReadsTo after last (t :: rest) last'
  | item {last last' : Option Item} {t : Token} {words rest : List Token} {i : Item}
    (ht : ofToken (operandDue last) t (words ++ (rest ++ after)) = .ok (.item i words.length))
    (h : ReadsTo after (some i) rest last') : ReadsTo after last (t :: (words ++ rest)) last'

/-- The token `t` between `before` and `rest` is read behind the item `last` and means `m`. -/
structure ReadAs (before : List Token) (t : Token) (rest : List Token) (last : Option Item)
    (m : TokenMeaning) : Prop where
  before : ReadsTo (t :: rest) none before last
  meaning : ofToken (operandDue last) t rest = .ok m

namespace TokenMeaning

variable {t : Token} {rest rest' words : List Token} {due : Bool} {m : TokenMeaning} {i : Item}

theorem exists_item_of_ofKeyword {text : String} (h : ofKeyword text rest = .ok m) :
    ∃ i more, m = .item i more := by
  unfold ofKeyword at h
  dsimp only at h
  split at h <;> (try split_ifs at h) <;> cases h <;> exact ⟨_, _, rfl⟩

theorem exists_item_of_ofLiteral {value : Option Value} {text : String}
    (h : ofLiteral value text = .ok m) : ∃ i more, m = .item i more := by
  unfold ofLiteral at h
  split at h <;> cases h
  exact ⟨_, _, rfl⟩

theorem text_of_ofSymbol {text : String} (h : ofSymbol due text = .ok m)
    (hm : ∀ i more, m ≠ .item i more) : text = "+" := by
  by_contra hne
  unfold ofSymbol at h
  dsimp only at h
  split at h <;> (try split_ifs at h) <;> cases h <;> first | exact hm _ _ rfl | exact hne rfl

theorem isLayout_or_isPlus (h : ofToken due t rest = .ok m) (hm : ∀ i more, m ≠ .item i more) :
    t.isLayout = true ∨ t.IsPlus := by
  have hno : ¬∃ i more, m = .item i more := fun ⟨i, more, hi⟩ => hm i more hi
  unfold ofToken at h
  split at h
  · next hk => exact .inr ⟨hk, text_of_ofSymbol h hm⟩
  · exact absurd (exists_item_of_ofKeyword h) hno
  · exact absurd (exists_item_of_ofLiteral h) hno
  · exact absurd (exists_item_of_ofLiteral h) hno
  · exact absurd (exists_item_of_ofLiteral h) hno
  · exact absurd ⟨_, _, (Except.ok.inj h).symm⟩ hno
  · exact absurd ⟨_, _, (Except.ok.inj h).symm⟩ hno
  · next hk => exact .inl (by rw [Token.isLayout, hk]; rfl)
  · next hk => exact .inl (by rw [Token.isLayout, hk]; rfl)
  · next hk => exact .inl (by rw [Token.isLayout, hk]; rfl)
  · cases h
  · cases h

theorem looksSame_of_kind (hword : t.kind ≠ .word) (hkeyword : t.kind ≠ .keyword) :
    LooksSame t rest rest' := by
  have hreserved : ∀ word, t.isReserved word = false := by simp [Token.isReserved, hkeyword]
  exact ⟨by simp [hword, hreserved], by simp [hreserved], by simp [hreserved]⟩

theorem looksSame_of_no_item (h : ofToken due t rest = .ok m) (hm : ∀ i more, m ≠ .item i more)
    (rest' : List Token) : LooksSame t rest rest' := by
  obtain hlayout | ⟨hk, -⟩ := isLayout_or_isPlus h hm
  · simp only [Token.isLayout, Bool.or_eq_true, decide_eq_true_eq] at hlayout
    rcases hlayout with (hk | hk) | hk <;>
      exact looksSame_of_kind (by rw [hk]; decide) (by rw [hk]; decide)
  · exact looksSame_of_kind (by rw [hk]; decide) (by rw [hk]; decide)

theorem ofToken_of_isWordAt {word : String} (hword : word = "IN" ∨ word = "LIKE")
    (h : isWordAt (t :: rest) 0 word = true) (due : Bool) :
    ∃ op, ofToken due t rest = .ok (.item (.infixOp op) 0) := by
  simp only [isWordAt, List.getElem?_cons_zero, Bool.and_eq_true, decide_eq_true_eq] at h
  obtain ⟨hk, hsame⟩ := h
  have hupper := Text.AsciiCase.map_toUpper_eq hsame
  obtain rfl | rfl := hword
  · refine ⟨.isIn, ?_⟩
    rw [ofToken, hk]
    dsimp only
    rw [ofKeyword, hupper]
    rfl
  · refine ⟨.like, ?_⟩
    rw [ofToken, hk]
    dsimp only
    rw [ofKeyword, hupper]
    rfl

/-- What may come in the place of `after` behind the item `last`, without a difference to the
token of that item. -/
structure Seam (last : Option Item) (after after' : List Token) : Prop where
  due : operandDue last = true
  noCall : startsCall after = true → ∀ name, last ≠ some (.function name)
  noIn : isWordAt after' 0 "IN" = false
  noLike : isWordAt after' 0 "LIKE" = false

/-- A name or `NULL` right before the seam would be a call or end an operand. -/
theorem Seam.not_name {after after' : List Token} (hs : Seam (some i) after after')
    (ht : ofToken due t after = .ok (.item i 0)) : ¬(t.kind = .word ∨ t.isReserved "NULL" = true) := by
  rintro (hname | hname)
  · rw [ofToken_word hname] at ht
    cases hcall : startsCall after <;> rw [hcall] at ht <;> cases ht
    · cases hs.due
    · exact hs.noCall hcall _ rfl
  · rw [ofToken_null hname] at ht
    cases hcall : startsCall after <;> rw [hcall] at ht <;> cases ht
    · cases hs.due
    · exact hs.noCall hcall _ rfl

theorem Seam.looksSame_at {after after' : List Token} (hs : Seam (some i) after after')
    (ht : ofToken due t after = .ok (.item i 0)) : LooksSame t after after' := by
  refine ⟨fun hname => absurd hname (hs.not_name ht), fun hnot => ?_, fun his => ?_⟩
  · rw [ofToken_not hnot] at ht
    split_ifs at ht with hin hlike
    · cases ht
    · cases ht
    · rw [Bool.not_eq_true] at hin hlike
      exact ⟨hs.noIn.trans hin.symm, hs.noLike.trans hlike.symm⟩
  · rw [ofToken_is his] at ht
    split_ifs at ht <;> cases ht

/-- Where something stands between a token and the seam, it looks no further. -/
theorem looksSame_of_words {u : Token} {after after' : List Token}
    (ht : ofToken due t (words ++ (rest ++ after)) = .ok (.item i words.length))
    (hu : words ++ rest = u :: rest') :
    LooksSame t (words ++ (rest ++ after)) (words ++ (rest ++ after')) := by
  rw [← List.append_assoc, ← List.append_assoc]
  rw [← List.append_assoc] at ht
  refine ⟨fun _ => ?_, fun _ => ?_, fun his => ?_⟩
  · rw [hu]
    rfl
  · rw [hu]
    exact ⟨rfl, rfl⟩
  · refine ⟨?_, ?_, fun hnull => ?_⟩
    · rw [hu]
      rfl
    · rw [hu]
      rfl
    · -- `NOT NULL` belongs to the token then, so both words stand before the seam.
      rw [ofToken_is his, hnull, if_neg Bool.false_ne_true] at ht
      have htwo : 2 = words.length := by
        split_ifs at ht
        exact congrArg TokenMeaning.more (Except.ok.inj ht)
      obtain ⟨first, second, rfl⟩ := List.length_eq_two.mp htwo.symm
      rfl

end TokenMeaning

namespace ReadsTo

variable {last last' : Option Item} {t : Token} {words rest after after' : List Token} {i : Item}

theorem looksSame (h : ReadsTo after (some i) rest last') (hs : Seam last' after after')
    (ht : ofToken (operandDue last) t (words ++ (rest ++ after)) = .ok (.item i words.length)) :
    LooksSame t (words ++ (rest ++ after)) (words ++ (rest ++ after')) := by
  cases hu : words ++ rest with
  | cons u others => exact looksSame_of_words ht hu
  | nil =>
    obtain ⟨rfl, rfl⟩ := List.append_eq_nil_iff.mp hu
    cases h with
    | done last => exact hs.looksSame_at ht

end ReadsTo

namespace Reads

variable {last last' : Option Item} {sign sign' : Option Text.Position} {t : Token}
  {before after after' rest : List Token} {front back row : Row} {i : Located Item}

/-- A row is read up to a seam, and on from there in whatever comes in its place. -/
theorem exists_seam (h : Reads last sign (before ++ after) row)
    (hto : ReadsTo after last before last') :
    ∃ front back sign', row = front ++ back ∧ Row.lastItem last front = last' ∧
      Reads last' sign' after back ∧
      ∀ after', Seam last' after after' → Reads last' sign' after' back →
        Reads last sign (before ++ after') row := by
  induction hto generalizing sign row with
  | done last => exact ⟨[], row, sign, rfl, rfl, h, fun _ _ hafter => hafter⟩
  | @pass last last' t rest m ht hm hto ih =>
    have hkept : ∀ after', ofToken (operandDue last) t (rest ++ after') = .ok m := by
      intro after'
      rw [(looksSame_of_no_item ht hm (rest ++ after')).ofToken_eq, ht]
    cases h with
    | layout ht' h =>
      cases ht.symm.trans ht'
      obtain ⟨front, back, sign', hrow, hlast, hback, hseam⟩ := ih h
      exact ⟨front, back, sign', hrow, hlast, hback, fun after' hs hafter =>
        .layout (hkept after') (hseam after' hs hafter)⟩
    | plusSign ht' h =>
      cases ht.symm.trans ht'
      obtain ⟨front, back, sign', hrow, hlast, hback, hseam⟩ := ih h
      exact ⟨front, back, sign', hrow, hlast, hback, fun after' hs hafter =>
        .plusSign (hkept after') (hseam after' hs hafter)⟩
    | item ht' hsign h =>
      cases ht.symm.trans ht'
      exact absurd rfl (hm _ _)
  | @item last last' t words rest i ht hto ih =>
    rw [List.cons_append, List.append_assoc] at h
    cases h with
    | layout ht' h => cases ht.symm.trans ht'
    | plusSign ht' h => cases ht.symm.trans ht'
    | @item _ _ _ _ others _ _ ht' hsign h =>
      cases ht.symm.trans ht'
      rw [List.drop_left] at h
      obtain ⟨front, back, sign', rfl, hlast, hback, hseam⟩ := ih h
      refine ⟨⟨i, t.position⟩ :: front, back, sign', rfl, hlast, hback, fun after' hs hafter => ?_⟩
      have hkept := (hto.looksSame hs ht).ofToken_eq.trans ht
      rw [List.cons_append, List.append_assoc]
      refine .item hkept hsign ?_
      rw [List.drop_left]
      exact hseam after' hs hafter

/-- An operand that may follow a plus sign may follow anything else. -/
theorem of_sign {p : Text.Position} {tokens : List Token} (h : Reads last (some p) tokens row)
    (sign : Option Text.Position) : Reads last sign tokens row := by
  generalize hp : some p = pending at h
  induction h with
  | done last => cases hp
  | layout ht h ih => exact .layout ht (ih hp)
  | plusSign ht h ih => exact .plusSign ht h
  | item ht hs h ih => exact .item ht (fun _ => hs (hp ▸ Option.some_ne_none p)) h

theorem exists_readAs {tokens : List Token} (h : Reads last sign tokens row)
    (hrow : row = front ++ i :: back) :
    ∃ before t rest more, tokens = before ++ t :: rest ∧ t.position = i.position ∧
      ReadsTo (t :: rest) last before (Row.lastItem last front) ∧
      ofToken (operandDue (Row.lastItem last front)) t rest = .ok (.item i.value more) := by
  induction h generalizing front with
  | done last => cases List.append_eq_nil_iff.mp hrow.symm |>.2
  | layout ht h ih =>
    obtain ⟨before, u, rest, more, rfl, hp, hto, hu⟩ := ih hrow
    exact ⟨_ :: before, u, rest, more, rfl, hp, .pass ht nofun hto, hu⟩
  | plusSign ht h ih =>
    obtain ⟨before, u, rest, more, rfl, hp, hto, hu⟩ := ih hrow
    exact ⟨_ :: before, u, rest, more, rfl, hp, .pass ht nofun hto, hu⟩
  | @item last sign t rest row j more ht hs h ih =>
    cases front with
    | nil =>
      cases hrow
      exact ⟨[], t, rest, more, rfl, rfl, .done last, ht⟩
    | cons k front =>
      cases hrow
      obtain ⟨words, tail, rfl, rfl, -⟩ := takesWords_of_ofToken ht
      obtain ⟨before, u, others, n, htail, hp, hto, hu⟩ := ih rfl
      rw [List.drop_left] at htail
      cases htail
      refine ⟨t :: (words ++ before), u, others, n, ?_, hp, .item ht hto, hu⟩
      rw [List.cons_append, List.append_assoc]

/-- Behind a plus sign comes an item, after layout and other plus signs. -/
theorem exists_item_of_sign {p : Text.Position} {tokens : List Token}
    (h : Reads last (some p) tokens row) :
    ∃ gap u rest i more back, tokens = gap ++ u :: rest ∧
      (∀ v ∈ gap, v.isLayout = true ∨ v.IsPlus) ∧ ReadsTo (u :: rest) last gap last ∧
      ofToken (operandDue last) u rest = .ok (.item i more) ∧ i.closesOperand = false ∧
      row = ⟨i, u.position⟩ :: back := by
  generalize hp : some p = sign at h
  induction h generalizing p with
  | done last => cases hp
  | layout ht h ih =>
    obtain ⟨gap, u, rest, i, more, back, rfl, hgap, hto, hu⟩ := ih hp
    exact ⟨_ :: gap, u, rest, i, more, back, rfl,
      List.forall_mem_cons.mpr ⟨isLayout_or_isPlus ht nofun, hgap⟩, .pass ht nofun hto, hu⟩
  | plusSign ht h ih =>
    obtain ⟨gap, u, rest, i, more, back, rfl, hgap, hto, hu⟩ := ih rfl
    exact ⟨_ :: gap, u, rest, i, more, back, rfl,
      List.forall_mem_cons.mpr ⟨isLayout_or_isPlus ht nofun, hgap⟩, .pass ht nofun hto, hu⟩
  | @item last sign t rest row i more ht hs h ih =>
    exact ⟨[], t, rest, i, more, row, rfl, nofun, .done last, ht,
      hs (hp ▸ Option.some_ne_none p), rfl⟩

theorem isWordAt_of_sign {p : Text.Position} {tokens : List Token}
    (h : Reads last (some p) tokens row) {word : String} (hword : word = "IN" ∨ word = "LIKE") :
    isWordAt tokens 0 word = false := by
  cases tokens with
  | nil => rfl
  | cons t rest =>
    rw [← Bool.not_eq_true]
    intro hat
    obtain ⟨op, hop⟩ := ofToken_of_isWordAt hword hat (operandDue last)
    cases h with
    | layout ht h => cases hop.symm.trans ht
    | plusSign ht h => cases hop.symm.trans ht
    | item ht hs h =>
      cases hop.symm.trans ht
      cases hs (Option.some_ne_none p)

end Reads

theorem ReadsTo.append {last mid last' : Option Item} {front gap after : List Token}
    (h : ReadsTo (gap ++ after) last front mid) (hgap : ReadsTo after mid gap last') :
    ReadsTo after last (front ++ gap) last' := by
  induction h with
  | done last => exact hgap
  | pass ht hm h ih =>
    rw [List.cons_append]
    rw [← List.append_assoc] at ht
    exact .pass ht hm (ih hgap)
  | @item last last' t words rest i ht h ih =>
    rw [List.cons_append, List.append_assoc]
    rw [← List.append_assoc rest] at ht
    exact .item ht (ih hgap)

namespace Parsed

variable {tokens before rest : List Token} {t plus : Token} {p : Parsed} {last : Option Item}

theorem map_contents_of_reads (h : ofTokens tokens = .ok p) {others : List Token}
    (hreads : Reads none none others p.items) : (ofTokens others).map contents = .ok p.contents := by
  have hp : p.variableNames = Item.variableNames p.items :=
    congrArg Parsed.variableNames (eq_of_ofTokensNamed h)
  rw [ofTokens, ofTokensNamed_eq_ok hreads (of_ofTokensNamed h).2, contents, hp]
  rfl

theorem opensOperand_of_items (h : ofTokens tokens = .ok p) {front back : Row} {i : Located Item}
    (hitems : p.items = front ++ i :: back) (hi : i.value.kind ≠ .closeParen) :
    operandDue (Row.lastItem none front) = i.value.opensOperand := by
  obtain ⟨steps, b, more, hf, -⟩ := Arranging.feed_of_run (of_ofTokensNamed h).2
  rw [hitems] at hf
  exact Arranging.opensOperand_of_feed hf rfl hi

theorem ofTokens_insert_plus (h : ofTokens (before ++ t :: rest) = .ok p) {i : Item} {more : Nat}
    (ht : ReadAs before t rest last (.item i more)) (hi : i.opensOperand = true)
    (hcall : i = .openParen → ∀ name, last ≠ some (.function name)) (hplus : plus.IsPlus) :
    (ofTokens (before ++ plus :: t :: rest)).map contents = .ok p.contents := by
  obtain ⟨front, back, sign, hitems, hlast, hback, hseam⟩ :=
    (of_ofTokensNamed h).1.exists_seam ht.before
  cases hback with
  | layout ht' hback => cases ht.meaning.symm.trans ht'
  | plusSign ht' hback => cases ht.meaning.symm.trans ht'
  | item ht' hsign hback =>
    cases ht.meaning.symm.trans ht'
    have hcloses : i.closesOperand = false := Item.closesOperand_of_opensOperand hi
    have hdue : operandDue last = true := by
      rw [← hlast, opensOperand_of_items h hitems (Item.kind_ne_closeParen hcloses), hi]
    refine map_contents_of_reads h (hseam _ ?seam ?reads)
    case seam =>
      refine ⟨hdue, fun hstarts => ?_, by simp [isWordAt, hplus.1], by simp [isWordAt, hplus.1]⟩
      simp only [startsCall, Bool.and_eq_true, decide_eq_true_eq] at hstarts
      cases ht.meaning.symm.trans (ofToken_openParen hstarts.1 hstarts.2 _ _)
      exact hcall rfl
    case reads =>
      refine .plusSign (by rw [hdue]; exact ofToken_plus hplus _) ?_
      exact .item ht' (fun _ => hcloses) hback

/-- Behind a plus sign an operand begins, and the plus sign may be left out. -/
theorem ofTokens_delete_plus (h : ofTokens (before ++ plus :: rest) = .ok p)
    (hto : ReadsTo (plus :: rest) none before last) (hplus : plus.IsPlus)
    (hdue : operandDue last = true) :
    (∃ gap u more i n, rest = gap ++ u :: more ∧ (∀ v ∈ gap, v.isLayout = true ∨ v.IsPlus) ∧
      ReadAs (before ++ plus :: gap) u more last (.item i n) ∧ i.opensOperand = true) ∧
    (ofTokens (before ++ rest)).map contents = .ok p.contents := by
  obtain ⟨front, back, sign, hitems, hlast, hback, hseam⟩ :=
    (of_ofTokensNamed h).1.exists_seam hto
  have hmeans : ofToken (operandDue last) plus rest = .ok .plusSign := by
    rw [hdue]
    exact ofToken_plus hplus rest
  cases hback with
  | layout ht' hback => cases hmeans.symm.trans ht'
  | item ht' hsign hback => cases hmeans.symm.trans ht'
  | plusSign ht' hback =>
    refine ⟨?_, map_contents_of_reads h (hseam _ ?seam (hback.of_sign sign))⟩
    case seam =>
      have hno : startsCall (plus :: rest) = false := by simp [startsCall, hplus.2]
      exact ⟨hdue, fun hstarts => Bool.noConfusion (hno.symm.trans hstarts),
        hback.isWordAt_of_sign (.inl rfl), hback.isWordAt_of_sign (.inr rfl)⟩
    · obtain ⟨gap, u, more, i, n, tail, rfl, hgap, hgapTo, hu, hi, rfl⟩ := hback.exists_item_of_sign
      refine ⟨gap, u, more, i, n, rfl, hgap, ⟨?_, hu⟩, ?_⟩
      · exact hto.append (.pass hmeans (fun _ _ => TokenMeaning.noConfusion) hgapTo)
      · rw [← opensOperand_of_items h hitems (Item.kind_ne_closeParen hi), hlast, hdue]

/-- Plus signs may be put in front of every operand, and each one that is read where an operand
is due stands in front of one and may be left out. -/
theorem plus_signs_transparent (h : ofTokens tokens = .ok p) :
    (∀ front i back, p.items = front ++ i :: back →
      ∃ before t rest more, tokens = before ++ t :: rest ∧ t.position = i.position ∧
        ReadAs before t rest (Row.lastItem none front) (.item i.value more)) ∧
    (∀ before t rest last i more, tokens = before ++ t :: rest →
      ReadAs before t rest last (.item i more) → i.opensOperand = true →
      (i = .openParen → ∀ name, last ≠ some (.function name)) →
      ∀ plus : Token, plus.IsPlus →
        (ofTokens (before ++ plus :: t :: rest)).map contents = .ok p.contents) ∧
    (∀ before plus rest last, tokens = before ++ plus :: rest →
      ReadsTo (plus :: rest) none before last → plus.IsPlus → operandDue last = true →
      (∃ gap u more i n, rest = gap ++ u :: more ∧ (∀ v ∈ gap, v.isLayout = true ∨ v.IsPlus) ∧
        ReadAs (before ++ plus :: gap) u more last (.item i n) ∧ i.opensOperand = true) ∧
      (ofTokens (before ++ rest)).map contents = .ok p.contents) := by
  refine ⟨?_, ?_, ?_⟩
  · intro front i back hitems
    obtain ⟨before, t, rest, more, rfl, hp, hto, ht⟩ :=
      (of_ofTokensNamed h).1.exists_readAs hitems
    exact ⟨before, t, rest, more, rfl, hp, hto, ht⟩
  · rintro before t rest last i more rfl ht hi hcall plus hplus
    exact ofTokens_insert_plus h ht hi hcall hplus
  · rintro before plus rest last rfl hto hplus hdue
    exact ofTokens_delete_plus h hto hplus hdue

/-- In `-f(+a)` the plus sign may be left out, and another one put in front of `f`. -/
theorem plus_signs_transparent_argument :
    let minus : Token := ⟨.symbol, "-", ⟨1, 1⟩⟩
    let call : List Token := [⟨.word, "f", ⟨1, 2⟩⟩, ⟨.symbol, "(", ⟨1, 3⟩⟩]
    let plus : Token := ⟨.symbol, "+", ⟨1, 4⟩⟩
    let argument : List Token := [⟨.word, "a", ⟨1, 5⟩⟩, ⟨.symbol, ")", ⟨1, 6⟩⟩]
    ∃ p, ofTokens (minus :: call ++ plus :: argument) = .ok p ∧
      (ofTokens (minus :: call ++ argument)).map contents = .ok p.contents ∧
      (ofTokens (minus :: plus :: call ++ plus :: argument)).map contents = .ok p.contents := by
  intro minus call plus argument
  obtain ⟨p, hp⟩ : ∃ p, ofTokens (minus :: call ++ plus :: argument) = .ok p := by
    have hsome : (ofTokens (minus :: call ++ plus :: argument)).toOption.isSome = true := by
      decide +kernel
    obtain ⟨p, hp⟩ := Option.isSome_iff_exists.mp hsome
    exact ⟨p, eq_ok_of_toOption hp⟩
  have hminus : ReadsTo (call ++ plus :: argument) none [minus] (some (.prefixOp .negate)) :=
    @ReadsTo.item _ _ _ _ [] _ _ rfl (.done _)
  have hcall : ReadsTo (plus :: argument) none (minus :: call) (some .openParen) :=
    @ReadsTo.item _ _ _ _ [] _ _ rfl <| @ReadsTo.item _ _ _ _ [] _ _ rfl <|
      @ReadsTo.item _ _ _ _ [] _ _ rfl (.done _)
  refine ⟨p, hp, ?_, ?_⟩
  · exact ((plus_signs_transparent hp).2.2 (minus :: call) plus argument (some .openParen) rfl hcall
      ⟨rfl, rfl⟩ rfl).2
  · exact (plus_signs_transparent hp).2.1 [minus] _ _ (some (.prefixOp .negate)) (.function "f") 0 rfl
      ⟨hminus, rfl⟩ rfl nofun plus ⟨rfl, rfl⟩

end Parsed

end Formula
