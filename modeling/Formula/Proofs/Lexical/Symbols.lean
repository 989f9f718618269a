import Formula.Lexical.Lexicon

/-!
# The symbols of a tree

A tree is described by the kinds of its symbols. Adding a symbol changes the kind of that symbol
only, and the walk along a text ends at the front of the text that is a symbol.
-/

namespace Formula.SymbolTree

theorem kind?_cons_cons (t : SymbolTree) (c d : Char) (cs : List Char) :
    t.kind? (c :: d :: cs) = (t.child? c).bind fun child => child.2.kind? (d :: cs) := rfl

theorem kind?_leaf (w : List Char) : leaf.kind? w = none := by
  cases w with
  | nil => rfl
  | cons c cs => cases cs <;> rfl

theorem kind?_add (kind : TokenKind) (symbol w : List Char) (hne : symbol ≠ []) (t : SymbolTree) :
    (t.add kind symbol).kind? w = if w = symbol then some kind else t.kind? w := by
  induction symbol generalizing w t with
  | nil => exact absurd rfl hne
  | cons c cs ih =>
    cases w with
    | nil => simp [kind?]
    | cons d ds =>
      by_cases hd : d = c
      · subst hd
        cases cs with
        | nil =>
          cases ds with
          | nil => cases h : t.child? d <;> simp [add, kind?, child?_adjust, h]
          | cons e es => cases h : t.child? d <;> simp [add, kind?, child?_adjust, h, kind?_leaf]
        | cons e es =>
          have ih := fun w => ih w (List.cons_ne_nil e es)
          cases ds with
          | nil => cases h : t.child? d <;> simp [add, kind?, child?_adjust, h]
          | cons f fs =>
            cases h : t.child? d <;> simp [add, kind?, child?_adjust, h, ih, kind?_leaf]
      · have hchild : ∀ f, (t.adjust c f).child? d = t.child? d := by
          intro f
          rw [child?_adjust, if_neg hd]
        have hadd : (t.add kind (c :: cs)).child? d = t.child? d := by
          cases cs <;> exact hchild _
        cases ds <;> simp [kind?, hadd, hd]

theorem longest?_eq_some {t : SymbolTree} {cs : List Char} {n : Nat} {kind : TokenKind}
    (h : t.longest? cs = some (n, kind)) :
    0 < n ∧ n ≤ cs.length ∧ t.kind? (cs.take n) = some kind := by
  induction cs generalizing t n kind with
  | nil => simp [longest?] at h
  | cons c cs ih =>
    unfold longest? at h
    split at h
    · simp at h
    · next own below hchild =>
      split at h
      · next m k hbelow =>
        obtain ⟨rfl, rfl⟩ := Prod.mk.inj (Option.some.inj h)
        obtain ⟨hpos, hlen, hkind⟩ := ih hbelow
        refine ⟨Nat.succ_pos m, Nat.succ_le_succ hlen, ?_⟩
        obtain ⟨d, ds, hds⟩ : ∃ d ds, cs.take m = d :: ds := by
          cases hds : cs.take m with
          | nil => simp [hds, kind?] at hkind
          | cons d ds => exact ⟨d, ds, rfl⟩
        rw [List.take_succ_cons, hds, kind?_cons_cons, hchild, ← hds]
        exact hkind
      · cases own with
        | none => simp at h
        | some k =>
          obtain ⟨rfl, rfl⟩ := Prod.mk.inj (Option.some.inj h)
          simp [kind?, hchild]

def AllSymbols (t : SymbolTree) : Prop := ∀ w kind, t.kind? w = some kind → kind = .symbol

theorem AllSymbols.add {t : SymbolTree} (h : t.AllSymbols) (symbol : List Char) :
    (t.add .symbol symbol).AllSymbols := by
  intro w kind hw
  by_cases hne : symbol = []
  · subst hne
    exact h w kind hw
  · rw [kind?_add _ _ _ hne] at hw
    split at hw
    · exact (Option.some.inj hw).symm
    · exact h w kind hw

theorem allSymbols_symbolsOf (symbols : List String) :
    (Lexicon.symbolsOf symbols).AllSymbols := by
  have hfold : ∀ (rows : List String) (t : SymbolTree), t.AllSymbols →
      ((rows.map fun s => (s.toList, TokenKind.symbol)).foldl
        (fun t row => t.add row.2 row.1) t).AllSymbols := by
    intro rows
    induction rows with
    | nil => exact fun t ht => ht
    | cons s rows ih => exact fun t ht => ih _ (ht.add s.toList)
  refine hfold symbols .leaf fun w kind hw => ?_
  rw [kind?_leaf] at hw
  cases hw

end Formula.SymbolTree
