import Formula.Proofs.Operations.Comparisons
import Formula.Proofs.Operations.Conversions
import Formula.Proofs.Operations.Exchanging

/-!
# Comparisons and their mirror images

A comparison says the same of two values as its mirror image says of them in the other order, unless the
left operand decides how both are read. Under the coercing strategy it does so for a number and a moment
or span, which meet as milliseconds on one side and exactly on the other, and for a string and an object.
-/

namespace Formula

open Time

/-- Where both succeed, they give the same value. -/
def Compatible (r r' : Result) : Prop := ∀ v w, r = .ok v → r' = .ok w → v = w

theorem SameOutcome.compatible {r r' : Result} (h : SameOutcome r r') : Compatible r r' := by
  rintro v w rfl rfl
  exact Option.some_inj.mp h

def Value.IsWholeTime : Value → Prop
  | .dateTime m => m.IsWhole
  | .timeSpan s => s.IsWhole
  | _ => False

namespace Strategy

variable {s : Strategy} {a b : Value}

/-- Each comparison of two values is related to its mirror image on them in the other order. -/
structure Mirrored (s : Strategy) (related : Result → Result → Prop) (a b : Value) : Prop where
  equal : related (s.equal a b) (s.equal b a)
  more : related (s.more a b) (s.less b a)
  less : related (s.less a b) (s.more b a)
  moreEqual : related (s.moreEqual a b) (s.lessEqual b a)
  lessEqual : related (s.lessEqual a b) (s.moreEqual b a)

/-- The pairs are the same in one order as in the other. -/
structure Opposed (p q : Value × Value) : Prop where
  same : p.1.same p.2 = q.1.same q.2
  order : p.1.compare? p.2 = (q.1.compare? q.2).map (Option.map Ordering.swap)

theorem opposed_swap (x y : Value) : Opposed (x, y) (y, x) where
  same := Value.same_comm x y
  order := Value.compare?_swap y x

theorem opposed_of_compare? {x y x' y' : Value} {o : Option Ordering} (h : x.compare? y = some o)
    (h' : x'.compare? y' = some (o.map Ordering.swap)) : Opposed (x, y) (x', y') where
  same := by
    rw [Value.same_of_compare? h, Value.same_of_compare? h']
    rcases o with _ | _ | _ | _ <;> rfl
  order := by
    rw [h, h']
    rcases o with _ | _ | _ | _ <;> rfl

/-- The answer of a comparison of order on a coerced pair. -/
def orderPair (operation : Operation) (accept : Ordering → Bool) (p : Value × Value) : Result :=
  match p.1.compare? p.2 with
  | some order => .ok (.boolean (order.any accept))
  | none => .error (.unsupported operation p.1.kind)

theorem Opposed.sameOutcome_orderPair {p q : Value × Value} (h : Opposed p q)
    {operation operation' : Operation} {accept accept' : Ordering → Bool}
    (haccept : ∀ o : Ordering, accept o.swap = accept' o) :
    SameOutcome (orderPair operation accept p) (orderPair operation' accept' q) := by
  rw [orderPair, orderPair, h.order]
  rcases q.1.compare? q.2 with _ | _ | o
  · rfl
  · rfl
  · change some (Value.boolean (accept o.swap)) = some (Value.boolean (accept' o))
    rw [haccept]

section

variable (hpresent : (a.isNull || b.isNull) = false)
include hpresent

theorem ordering_eq_bind (operation : Operation) (accept : Ordering → Bool) :
    s.ordering operation accept a b =
      (s.coercePair .comparison a b).bind (orderPair operation accept) := by
  rw [s.ordering_of_present hpresent]
  cases s.coercePair .comparison a b <;> rfl

theorem equal_eq_bind : s.equal a b =
    (s.coercePair .comparison a b).bind fun p => .ok (.boolean (p.1.same p.2)) := by
  rw [equal, hpresent, if_neg Bool.false_ne_true]
  cases s.coercePair .comparison a b <;> rfl

/-- All comparisons are related to their mirror images if whatever treats opposed pairs alike has related
outcomes on what coercion makes of the operands in the two orders. -/
theorem mirrored_of_bind {related : Result → Result → Prop}
    (h : ∀ f g : Value × Value → Result, (∀ p q, Opposed p q → SameOutcome (f p) (g q)) →
      related ((s.coercePair .comparison a b).bind f) ((s.coercePair .comparison b a).bind g)) :
    s.Mirrored related a b := by
  have hpresent' : (b.isNull || a.isNull) = false := Bool.or_comm _ _ ▸ hpresent
  have hordering (operation operation' : Operation) {accept accept' : Ordering → Bool}
      (haccept : ∀ o : Ordering, accept o.swap = accept' o) :
      related (s.ordering operation accept a b) (s.ordering operation' accept' b a) := by
    rw [ordering_eq_bind hpresent, ordering_eq_bind hpresent']
    exact h _ _ fun p q hopposed => hopposed.sameOutcome_orderPair haccept
  refine ⟨?_, hordering _ _ ?_, hordering _ _ ?_, hordering _ _ ?_, hordering _ _ ?_⟩
  · rw [equal_eq_bind hpresent, equal_eq_bind hpresent']
    refine h _ _ fun p q hopposed => ?_
    rw [hopposed.same]
    rfl
  all_goals exact fun o => by cases o <;> rfl

theorem mirrored_of_exchanges (h : s.Exchanges .comparison a b) : s.Mirrored SameOutcome a b := by
  refine mirrored_of_bind hpresent fun f g hfg => ?_
  rcases h.fails_or with ⟨e, e', hp, hq⟩ | ⟨x, y, hp, hq⟩
  · rw [hp, hq]
    rfl
  · rw [hp, hq]
    exact hfg _ _ (opposed_swap x y)

theorem mirrored_of_opposed (h : ∀ p q, s.coercePair .comparison a b = .ok p →
    s.coercePair .comparison b a = .ok q → Opposed p q) : s.Mirrored Compatible a b := by
  refine mirrored_of_bind hpresent fun f g hfg v w hv hw => ?_
  cases hp : s.coercePair .comparison a b with
  | error e =>
    rw [hp] at hv
    cases hv
  | ok p =>
    cases hq : s.coercePair .comparison b a with
    | error e =>
      rw [hq] at hw
      cases hw
    | ok q =>
      rw [hp] at hv
      rw [hq] at hw
      exact (hfg p q (h p q hp hq)).compatible v w hv hw

end

theorem mirrored_of_null (h : (a.isNull || b.isNull) = true) : s.Mirrored SameOutcome a b := by
  have h' : (b.isNull || a.isNull) = true := Bool.or_comm _ _ ▸ h
  have hordering (operation operation' : Operation) (accept accept' : Ordering → Bool) :
      SameOutcome (s.ordering operation accept a b) (s.ordering operation' accept' b a) := by
    rw [ordering, ordering, h, h', if_pos rfl, if_pos rfl]
    rfl
  refine ⟨?_, hordering _ _ _ _, hordering _ _ _ _, hordering _ _ _ _, hordering _ _ _ _⟩
  rw [equal, equal, h, h', if_pos rfl, if_pos rfl, Bool.and_comm]
  rfl

theorem coercePair_of_orderMatters (h : a.kind.OrderMatters b.kind) :
    coercing.coercePair .comparison a b = (coercing.convert b a.kind).map (a, ·) := by
  rw [coercePair, Kind.common_of_orderMatters h, lawful_coercing.convert_self]
  cases coercing.convert b a.kind <;> rfl

/-- Values that show which operand stands on the left: a thousand milliseconds, and half of one more, and
a text that is not how its object is written. -/
def probe : Kind → Value
  | .integer => .integer 1000
  | .long => .long 1000
  | .float => .float (Number.singleOfBits 0x447a0000)
  | .double => .double (Number.doubleOfBits 0x408f400000000000)
  | .dateTime => .dateTime ⟨1, 500000, by decide, by decide, by decide⟩
  | .timeSpan => .timeSpan ⟨1000500000, by decide, by decide⟩
  | .string => .string "\x7b \x7d"
  | .object => .object (.object [])
  | _ => .null

theorem matchesItem_probe : ∀ k l : Kind, k.OrderMatters l → (probe k).kind = k ∧ (probe l).kind = l ∧
    coercing.matchesItem (probe k) (probe l) ≠ coercing.matchesItem (probe l) (probe k) := by
  decide +kernel

theorem matchesItem_eq (a b : Value) : s.matchesItem a b =
    match (s.equal a b).toOption with
    | some (.boolean b) => b
    | _ => false := by
  rw [matchesItem]
  cases s.equal a b with
  | error e => rfl
  | ok v => cases v <;> rfl

theorem not_sameOutcome_of_matchesItem (h : s.matchesItem a b ≠ s.matchesItem b a) :
    ¬ SameOutcome (s.equal a b) (s.equal b a) := by
  intro hsame
  rw [matchesItem_eq, matchesItem_eq, hsame] at h
  exact h rfl

/-- No comparison of values of two kinds differs from its mirror image, exactly where the left operand
does not decide. -/
theorem mirrored_iff {k l : Kind} :
    (∀ a b, a.kind = k → b.kind = l → coercing.Mirrored SameOutcome a b) ↔ ¬ k.OrderMatters l := by
  constructor
  · intro h hmatters
    obtain ⟨hk, hl, hdiffers⟩ := matchesItem_probe k l hmatters
    exact not_sameOutcome_of_matchesItem hdiffers (h _ _ hk hl).equal
  · rintro h a b rfl rfl
    cases hnull : a.isNull || b.isNull with
    | true => exact mirrored_of_null hnull
    | false =>
      rw [Bool.or_eq_false_iff] at hnull
      exact mirrored_of_exchanges (Bool.or_eq_false_iff.mpr hnull) (coercing_exchanges
        (Value.kind_ne_null_iff.mpr hnull.1) (Value.kind_ne_null_iff.mpr hnull.2) h)

section

open Number Coercing

variable {t u : Value} {k : Kind} {w : Width} {m n : Int}

theorem compare?_of_carries (ht : Carries m k t) (hu : Carries n k u) (hk : k.IsTime) :
    t.compare? u = some (some (compare m n)) := by
  cases ht with
  | long h => exact absurd hk (by decide)
  | string => exact absurd hk (by decide)
  | timeSpan hwhole h =>
    cases hu with
    | timeSpan hwhole' h' =>
      rw [← h, ← h', ← Span.compare_of_whole hwhole hwhole']
      rfl
  | dateTime hwhole h =>
    cases hu with
    | dateTime hwhole' h' =>
      rw [← h, ← h', ← Moment.compare_of_whole hwhole hwhole']
      rfl

theorem compare?_value (hm : w.Fits m) (hn : w.Fits n) :
    (w.value m).compare? (w.value n) = some (some (compare m n)) := by
  cases w with
  | short =>
    change some (some (compare (Int32.ofInt m).toInt (Int32.ofInt n).toInt)) = _
    rw [toInt_ofInt_int32 hm, toInt_ofInt_int32 hn]
  | long =>
    change some (some (compare (Int64.ofInt m).toInt (Int64.ofInt n).toInt)) = _
    rw [toInt_ofInt_int64 hm, toInt_ofInt_int64 hn]

/-- An integer next to a moment or span of whole milliseconds: both are read as integers in one order
and as moments or spans in the other, and stand in the order of their integers either way. -/
theorem mirrored_value_of_carries (hn : w.Fits n) (ht : Carries m k t) (hk : k.IsTime) :
    coercing.Mirrored Compatible (w.value n) t := by
  have hnumber : w.kind.IsNumber := by cases w <;> decide
  have hmem : ∀ k : Kind, k.IsTime → k ∈ [Kind.long, .string, .timeSpan, .dateTime] := by decide
  have hne : k ≠ w.kind := by
    rintro rfl
    cases w <;> revert hk <;> decide
  have hpresent : ((w.value n).isNull || t.isNull) = false := by
    cases w <;> cases ht <;> rfl
  have hleft : (w.value n).kind.OrderMatters t.kind := by
    rw [w.kind_value, ht.kind_eq]
    exact .inl ⟨hnumber, hk⟩
  have hright : t.kind.OrderMatters (w.value n).kind := by
    rw [w.kind_value, ht.kind_eq]
    exact .inr (.inl ⟨hk, hnumber⟩)
  refine mirrored_of_opposed hpresent fun p q hp hq => ?_
  rw [coercePair_of_orderMatters hleft, w.kind_value] at hp
  rw [coercePair_of_orderMatters hright, ht.kind_eq] at hq
  by_cases hm : w.Fits m
  · have hconvert : coercing.convert t w.kind = .ok (w.value m) := ht.convert_width hm hne
    rw [hconvert] at hp
    cases hp
    cases hback : coercing.convert (w.value n) k with
    | error e =>
      rw [hback] at hq
      cases hq
    | ok u =>
      rw [hback] at hq
      cases hq
      have hu : Carries n k u := (convert_eq_ok_iff_carries hn (hmem k hk)).mp hback
      refine opposed_of_compare? (compare?_value hn hm) ?_
      rw [compare?_of_carries ht hu hk, Std.OrientedOrd.eq_swap]
      rfl
  · have hrefused : coercing.convert t w.kind =
        w.hold (.conversion t.kind w.kind .outOfRange) m :=
      ht.counts.convert_width (by rwa [ht.kind_eq])
    rw [hrefused, Width.hold_of_not_fits hm] at hp
    cases hp

theorem mirrored_whole_of_long {a b : Value} (ha : a.kind = .integer ∨ a.kind = .long)
    (hb : b.IsWholeTime) : coercing.Mirrored Compatible a b := by
  obtain ⟨m, hcarries, htime⟩ : ∃ m, Carries m b.kind b ∧ b.kind.IsTime := by
    cases b with
    | dateTime x => exact ⟨_, .dateTime hb rfl, (by decide : Kind.IsTime .dateTime)⟩
    | timeSpan x => exact ⟨_, .timeSpan hb rfl, (by decide : Kind.IsTime .timeSpan)⟩
    | _ => exact hb.elim
  cases a with
  | integer n =>
    have hmirrored := mirrored_value_of_carries (w := .short) (fitsInt32_toInt n) hcarries htime
    rwa [Width.value, Int32.ofInt_toInt] at hmirrored
  | long n =>
    have hmirrored := mirrored_value_of_carries (w := .long) (fitsInt64_toInt n) hcarries htime
    rwa [Width.value, Int64.ofInt_toInt] at hmirrored
  | _ => rcases ha with ha | ha <;> cases ha

end

/-- Under the coercing strategy the comparisons of all values of two kinds have the outcomes of their
mirror images just if the kinds are not a number and a moment or span, nor a string and an object. For
those the right operand is converted to the kind of the left one. Integers still agree with moments and
spans of whole milliseconds wherever both orders succeed. -/
theorem comparisons_mirrored :
    (∀ k l : Kind, (∀ a b, a.kind = k → b.kind = l → coercing.Mirrored SameOutcome a b) ↔
      ¬ k.OrderMatters l) ∧
    (∀ a b, a.kind.OrderMatters b.kind →
      coercing.coercePair .comparison a b = (coercing.convert b a.kind).map (a, ·)) ∧
    ∀ a b, a.kind = .integer ∨ a.kind = .long → b.IsWholeTime → coercing.Mirrored Compatible a b :=
  ⟨fun _ _ => mirrored_iff, fun _ _ => coercePair_of_orderMatters, fun _ _ => mirrored_whole_of_long⟩

/-- A truth value and a number, a text and an object, and the first millisecond of 1970. -/
theorem comparisons_mirrored_cases :
    coercing.Mirrored SameOutcome (.boolean true) (.integer 2) ∧
    coercing.coercePair .comparison (.string "[]") (.object (.array [])) =
      .ok (.string "[]", .string "[]") ∧
    coercing.Mirrored Compatible (.integer 1)
      (.dateTime ⟨0, 1000000, by decide, by decide, by decide⟩) := by
  refine ⟨(comparisons_mirrored.1 .boolean .integer).mpr (by decide) _ _ rfl rfl,
    (comparisons_mirrored.2.1 (.string "[]") (.object (.array [])) (by decide)).trans ?_,
    comparisons_mirrored.2.2 _ _ (.inl rfl) ?_⟩
  · rfl
  · exact ⟨by decide, by decide⟩

/-- Written out, the empty object differs from the text by a blank; read as an object, the text is the
same. -/
theorem not_mirrored_string_object :
    coercing.equal (.string "\x7b \x7d") (.object (.object [])) = .ok (.boolean false) ∧
      coercing.equal (.object (.object [])) (.string "\x7b \x7d") = .ok (.boolean true) := by
  exact ⟨rfl, rfl⟩

end Strategy

end Formula
