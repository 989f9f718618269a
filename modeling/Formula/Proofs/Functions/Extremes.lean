import Formula.Functions.Numeric
import Formula.Proofs.Operations.Comparisons
import Formula.Proofs.Operations.Exchanging
import Formula.Proofs.Operations.Widths

/-!
# The least and the greatest of the arguments

Where the comparisons of the arguments follow a linear order, a value is replaced only by one that is
strictly better, so that of several arguments of the same rank the first stays. Values of one ordered
kind have such an order, and so have integers of both widths where they are coerced.
-/

namespace Formula

open Time

section

variable {β : Type} [LinearOrder β] {rank : Value → β} {args : List Value} {m u v : Value}

/-- No value has a lesser rank than `m`, and those before it have greater ones. -/
def FirstLeast (rank : Value → β) (args : List Value) (m : Value) : Prop :=
  ∃ before after, args = before ++ m :: after ∧ (∀ v ∈ before, rank m < rank v) ∧
    ∀ v ∈ after, rank m ≤ rank v

namespace FirstLeast

theorem mem (h : FirstLeast rank args m) : m ∈ args := by
  obtain ⟨before, after, rfl, -, -⟩ := h
  simp

theorem le (h : FirstLeast rank args m) (hv : v ∈ args) : rank m ≤ rank v := by
  obtain ⟨before, after, rfl, hbefore, hafter⟩ := h
  simp only [List.mem_append, List.mem_cons] at hv
  rcases hv with hv | rfl | hv
  · exact (hbefore v hv).le
  · exact le_rfl
  · exact hafter v hv

/-- A later value of a lesser rank is the first one of its rank. -/
theorem replaced (h : FirstLeast rank args m) (hv : rank v < rank m) :
    FirstLeast rank (args ++ [v]) v :=
  ⟨args, [], rfl, fun _ hu => hv.trans_le (h.le hu), nofun⟩

theorem kept (h : FirstLeast rank args m) (hv : rank m ≤ rank v) :
    FirstLeast rank (args ++ [v]) m := by
  obtain ⟨before, after, rfl, hbefore, hafter⟩ := h
  refine ⟨before, after ++ [v], by simp, hbefore, fun u hu => ?_⟩
  rcases List.mem_append.mp hu with hu | hu
  · exact hafter u hu
  · rwa [List.mem_singleton.mp hu]

end FirstLeast

/-- The first of the values that stand in the relation to all of them. -/
def FirstOf (relates : Value → Value → Result) (args : List Value) (m : Value) : Prop :=
  ∃ before after, args = before ++ m :: after ∧
    (∀ v ∈ args, relates m v = .ok (.boolean true)) ∧
    ∀ u ∈ before, ∃ v ∈ args, relates u v = .ok (.boolean false)

/-- Among the arguments a value beats another if it has a lesser rank, relates to those of no lesser rank
and equals those of its own. -/
structure Ranked (rank : Value → β) (args : List Value)
    (beaten relates equal : Value → Value → Result) : Prop where
  beaten (a b : Value) (ha : a ∈ args) (hb : b ∈ args) :
    beaten a b = .ok (.boolean (decide (rank b < rank a)))
  relates (a b : Value) (ha : a ∈ args) (hb : b ∈ args) :
    relates a b = .ok (.boolean (decide (rank a ≤ rank b)))
  equal (a b : Value) (ha : a ∈ args) (hb : b ∈ args) :
    equal a b = .ok (.boolean (decide (rank a = rank b)))

variable {beaten relates equal : Value → Value → Result}

/-- The best value so far is the first of the least rank among those seen, to the end. -/
theorem Functions.best_of_firstLeast {rest seen : List Value}
    (h : ∀ u ∈ seen ++ rest, ∀ v ∈ seen ++ rest,
      beaten u v = .ok (.boolean (decide (rank v < rank u))))
    (hseen : FirstLeast rank seen u) :
    ∃ m, best beaten u rest = .ok m ∧ FirstLeast rank (seen ++ rest) m := by
  -- each turn moves the next argument to those seen, and the invariant with it
  induction rest generalizing u seen with
  | nil => exact ⟨u, rfl, by rwa [List.append_nil]⟩
  | cons v rest ih =>
    rw [best, h u (List.mem_append_left _ hseen.mem) v (by simp)]
    rw [List.append_cons] at h ⊢
    by_cases hbeaten : rank v < rank u
    · rw [decide_eq_true hbeaten]
      exact ih h (hseen.replaced hbeaten)
    · rw [decide_eq_false hbeaten]
      exact ih h (hseen.kept (not_lt.mp hbeaten))

namespace Ranked

theorem perm {args' : List Value} (h : Ranked rank args beaten relates equal)
    (hperm : args'.Perm args) : Ranked rank args' beaten relates equal where
  beaten a b ha hb := h.beaten a b (hperm.mem_iff.mp ha) (hperm.mem_iff.mp hb)
  relates a b ha hb := h.relates a b (hperm.mem_iff.mp ha) (hperm.mem_iff.mp hb)
  equal a b ha hb := h.equal a b (hperm.mem_iff.mp ha) (hperm.mem_iff.mp hb)

theorem chosen (h : Ranked rank args beaten relates equal) (hlength : 2 ≤ args.length) :
    ∃ m, Functions.atLeastTwo (Functions.best beaten) args = .ok m ∧ FirstLeast rank args m := by
  match args, hlength with
  | first :: v :: rest, _ =>
    have hfirst : FirstLeast rank [first] first := ⟨[], [], rfl, nofun, nofun⟩
    exact Functions.best_of_firstLeast (fun u hu w hw => h.beaten u w hu hw) hfirst

theorem firstOf (h : Ranked rank args beaten relates equal) (hm : FirstLeast rank args m) :
    FirstOf relates args m := by
  have hmem := hm.mem
  have hrelates (v : Value) (hv : v ∈ args) : relates m v = .ok (.boolean true) := by
    rw [h.relates m v hmem hv, decide_eq_true (hm.le hv)]
  obtain ⟨before, after, hsplit, hbefore, -⟩ := hm
  refine ⟨before, after, hsplit, hrelates, fun u hu => ⟨m, hmem, ?_⟩⟩
  have hmemu : u ∈ args := hsplit ▸ List.mem_append_left _ hu
  rw [h.relates u m hmemu hmem, decide_eq_false (not_le.mpr (hbefore u hu))]

/-- The choice is the first value that relates to all, and in any other order one that equals it. -/
theorem choice (h : Ranked rank args beaten relates equal) (hlength : 2 ≤ args.length) :
    ∃ m, Functions.atLeastTwo (Functions.best beaten) args = .ok m ∧ FirstOf relates args m ∧
      ∀ args', args'.Perm args →
        ∃ m', Functions.atLeastTwo (Functions.best beaten) args' = .ok m' ∧
          equal m m' = .ok (.boolean true) := by
  obtain ⟨m, hm, hleast⟩ := h.chosen hlength
  refine ⟨m, hm, h.firstOf hleast, fun args' hperm => ?_⟩
  obtain ⟨m', hm', hleast'⟩ := (h.perm hperm).chosen (hperm.length_eq ▸ hlength)
  have hmem := hperm.mem_iff.mp hleast'.mem
  have hrank : rank m = rank m' :=
    le_antisymm (hleast.le hmem) (hleast'.le (hperm.mem_iff.mpr hleast.mem))
  refine ⟨m', hm', ?_⟩
  rw [h.equal m m' hleast.mem hmem, decide_eq_true hrank]

end Ranked

end

/-- The number that orders a value among those of its kind; of a moment, its nanoseconds with as many to
each second as a leap second has. -/
def Value.place : Value → Int
  | .boolean b => b.toNat
  | .integer n => n.toInt
  | .long n => n.toInt
  | .dateTime m => m.seconds * (2 * nanosPerSecond : Nat) + m.nanos
  | .timeSpan s => s.nanos
  | _ => 0

theorem Time.Moment.compare_eq_compare_place (a b : Moment) :
    a.compare b = Ord.compare (Value.dateTime a).place (Value.dateTime b).place := by
  have ha : a.nanos < 2 * 1000000000 := a.nanos_lt
  have hb : b.nanos < 2 * 1000000000 := b.nanos_lt
  rw [Moment.compare, Value.place, Value.place, nanosPerSecond]
  rcases lt_trichotomy a.seconds b.seconds with h | h | h
  · rw [compare_lt_iff_lt.mpr h, Ordering.lt_then, eq_comm, compare_lt_iff_lt]
    omega
  · have hmono : StrictMono fun n : Nat => b.seconds * (2 * 1000000000 : Nat) + n :=
      fun x y hxy => by simpa using hxy
    rw [compare_eq_iff_eq.mpr h, Ordering.eq_then, h, ← cmp_eq_compare, ← cmp_eq_compare]
    exact (hmono.cmp_map_eq a.nanos b.nanos).symm
  · rw [compare_gt_iff_gt.mpr h, Ordering.gt_then, eq_comm, compare_gt_iff_gt]
    omega

namespace Value

variable {a b : Value}

theorem compare?_eq_compare_place
    (ha : a.kind ∈ [.boolean, .integer, .long, .dateTime, .timeSpan]) (hkind : a.kind = b.kind) :
    a.compare? b = some (some (compare a.place b.place)) := by
  cases a with
  | boolean p =>
    cases b with
    | boolean q => cases p <;> cases q <;> rfl
    | _ => cases hkind
  | dateTime m =>
    cases b with
    | dateTime n => exact congrArg (some ∘ some) (m.compare_eq_compare_place n)
    | _ => cases hkind
  | integer _ | long _ | timeSpan _ => cases b <;> first | rfl | cases hkind
  | _ => simp [kind] at ha

theorem compare?_eq_compare_text (ha : a.kind = .string) (hb : b.kind = .string) :
    a.compare? b = some (some (compare a.text b.text)) := by
  cases a with
  | string x =>
    cases b with
    | string y =>
      rw [text, text, chars, chars, String.ofList_toList, String.ofList_toList]
      rfl
    | _ => cases hb
  | _ => cases ha

theorem place_value {w : Width} {n : Int} (h : w.Fits n) : (w.value n).place = n := by
  cases w with
  | short => exact Number.toInt_ofInt_int32 h
  | long => exact Number.toInt_ofInt_int64 h

end Value

namespace Strategy

variable {s : Strategy} {args : List Value} {a b : Value} {o : Option Ordering}

/-- Arguments of one ordered kind, or integers of both widths where they are coerced. -/
inductive Comparable (s : Strategy) (args : List Value) : Prop
  | alike (k : Kind) (hk : k ∈ [.boolean, .integer, .long, .string, .dateTime, .timeSpan])
      (h : ∀ v ∈ args, v.kind = k)
  | integers (hs : s = coercing) (h : ∀ v ∈ args, v.kind = .integer ∨ v.kind = .long)

theorem decides_alike (hs : s.Lawful) (hnull : a.kind ≠ .null) (hkind : a.kind = b.kind)
    (ho : a.compare? b = some o) : s.Decides o a b := by
  have hpair : s.coercePair .comparison a b = .ok (a, b) := by
    have hcommon := (Kind.common_comparison_eq_or a.kind a.kind).elim id id
    rw [coercePair_eq_ok_iff, ← hkind, hcommon]
    exact ⟨hs.convert_self a, hkind ▸ hs.convert_self b⟩
  refine s.decides_of_coercePair ?_ hpair ho
  rw [← Value.isNull_eq_of_kind_eq hkind, Bool.or_self]
  exact Value.kind_ne_null_iff.mp hnull

theorem decides_integers (ha : a.kind = .integer ∨ a.kind = .long)
    (hb : b.kind = .integer ∨ b.kind = .long) :
    coercing.Decides (some (compare a.place b.place)) a b := by
  have hwhole {v : Value} (hv : v.kind = .integer ∨ v.kind = .long) : v.whole? = some v.place := by
    cases v <;> first
      | rfl
      | rcases hv with hv | hv <;> cases hv
  have hnumber : ¬ (a.kind = .boolean ∧ b.kind = .boolean) := by
    rintro ⟨hboolean, -⟩
    rw [hboolean] at ha
    rcases ha with ha | ha <;> cases ha
  have hpair : IntegerPair a b (a.width.join b.width) a.place b.place :=
    ⟨hwhole ha, hwhole hb, rfl, hnumber⟩
  refine coercing.decides_of_coercePair hpair.isNull (hpair.coercePair .comparison) ?_
  rw [Value.compare?_eq_compare_place, Value.place_value hpair.fits_left,
    Value.place_value hpair.fits_right]
  · rw [Width.kind_value]
    cases a.width.join b.width <;> decide
  · rw [Width.kind_value, Width.kind_value]

/-- The ranks of the arguments decide all comparisons between them. -/
def DecidedBy {β : Type} [LinearOrder β] (s : Strategy) (rank : Value → β) (args : List Value) :
    Prop :=
  ∀ a ∈ args, ∀ b ∈ args, s.Decides (some (compare (rank a) (rank b))) a b

theorem Comparable.exists_decidedBy (h : s.Comparable args) (hs : s.Lawful) :
    ∃ (β : Type) (_ : LinearOrder β) (rank : Value → β), s.DecidedBy rank args := by
  cases h with
  | alike k hk h =>
    have halike (a b : Value) (ha : a ∈ args) (hb : b ∈ args) : a.kind = b.kind := by
      rw [h a ha, h b hb]
    have hnull (a : Value) (ha : a ∈ args) : a.kind ≠ .null := by
      rw [h a ha]
      rintro rfl
      exact absurd hk (by decide)
    by_cases htext : k = .string
    · subst htext
      refine ⟨String, inferInstance, Value.text, fun a ha b hb => ?_⟩
      exact decides_alike hs (hnull a ha) (halike a b ha hb)
        (Value.compare?_eq_compare_text (h a ha) (h b hb))
    · have hplaced : k ∈ [.boolean, .integer, .long, .dateTime, .timeSpan] := by
        simpa [htext] using hk
      refine ⟨Int, inferInstance, Value.place, fun a ha b hb => ?_⟩
      exact decides_alike hs (hnull a ha) (halike a b ha hb)
        (Value.compare?_eq_compare_place (by rwa [h a ha]) (halike a b ha hb))
  | integers hs h =>
    subst hs
    exact ⟨Int, inferInstance, Value.place, fun a ha b hb => decides_integers (h a ha) (h b hb)⟩

namespace DecidedBy

variable {β : Type} [LinearOrder β] {rank : Value → β}

theorem answers (h : s.DecidedBy rank args) (ha : a ∈ args) (hb : b ∈ args) :
    s.less a b = .ok (.boolean (decide (rank a < rank b))) ∧
    s.more a b = .ok (.boolean (decide (rank b < rank a))) ∧
    s.lessEqual a b = .ok (.boolean (decide (rank a ≤ rank b))) ∧
    s.moreEqual a b = .ok (.boolean (decide (rank b ≤ rank a))) ∧
    s.equal a b = .ok (.boolean (decide (rank a = rank b))) := by
  have hdecides := h a ha b hb
  rw [hdecides.less, hdecides.more, hdecides.lessEqual, hdecides.moreEqual, hdecides.equal]
  rcases lt_trichotomy (rank a) (rank b) with hrank | hrank | hrank
  · simp [compare_lt_iff_lt.mpr hrank, hrank, hrank.le, hrank.ne]
  · simp [hrank]
  · simp [compare_gt_iff_gt.mpr hrank, hrank, hrank.le, hrank.ne']

theorem ranked_least (h : s.DecidedBy rank args) :
    Ranked rank args s.more s.lessEqual s.equal where
  beaten _ _ ha hb := (h.answers ha hb).2.1
  relates _ _ ha hb := (h.answers ha hb).2.2.1
  equal _ _ ha hb := (h.answers ha hb).2.2.2.2

theorem ranked_greatest (h : s.DecidedBy rank args) :
    Ranked (OrderDual.toDual ∘ rank) args s.less s.moreEqual s.equal where
  beaten _ _ ha hb := (h.answers ha hb).1
  relates _ _ ha hb := (h.answers ha hb).2.2.2.1
  equal _ _ ha hb := (h.answers ha hb).2.2.2.2

end DecidedBy

/-- Under both strategies the function for the least argument returns the first argument that is less
than or equal to all of them, and the one for the greatest the first that is greater than or equal to all.
In another order of the arguments the results are equal to these. -/
theorem extremes_are_first (hs : s = coercing ∨ s = strict) (hargs : s.Comparable args)
    (hlength : 2 ≤ args.length) :
    (∃ least, Functions.min s args = .ok least ∧ FirstOf s.lessEqual args least ∧
      ∀ args', args'.Perm args → ∃ least', Functions.min s args' = .ok least' ∧
        s.equal least least' = .ok (.boolean true)) ∧
    (∃ greatest, Functions.max s args = .ok greatest ∧ FirstOf s.moreEqual args greatest ∧
      ∀ args', args'.Perm args → ∃ greatest', Functions.max s args' = .ok greatest' ∧
        s.equal greatest greatest' = .ok (.boolean true)) := by
  obtain ⟨β, _, rank, hrank⟩ := hargs.exists_decidedBy (lawful_of_eq hs)
  exact ⟨hrank.ranked_least.choice hlength, hrank.ranked_greatest.choice hlength⟩

/-- Integers of both widths, two of them the same number. -/
theorem extremes_are_first_both_widths :
    Functions.min coercing [.integer 7, .long 2, .integer 2] = .ok (.long 2) ∧
    FirstOf coercing.lessEqual [.integer 7, .long 2, .integer 2] (.long 2) ∧
    ∃ least, Functions.min coercing [.integer 2, .integer 7, .long 2] = .ok least ∧
      coercing.equal (.long 2) least = .ok (.boolean true) := by
  have hmin : Functions.min coercing [.integer 7, .long 2, .integer 2] = .ok (.long 2) := rfl
  have hcomparable : coercing.Comparable [.integer 7, .long 2, .integer 2] :=
    .integers rfl (by simp [Value.kind])
  obtain ⟨⟨least, hleast, hfirst, hperm⟩, -⟩ :=
    extremes_are_first (.inl rfl) hcomparable (by decide)
  rw [hmin] at hleast
  cases hleast
  have hrotated : [Value.integer 2, .integer 7, .long 2].Perm [.integer 7, .long 2, .integer 2] :=
    @List.perm_append_comm Value [.integer 2] [.integer 7, .long 2]
  exact ⟨hmin, hfirst, hperm _ hrotated⟩

end Strategy

end Formula
