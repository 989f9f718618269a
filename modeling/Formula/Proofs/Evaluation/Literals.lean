import Formula.Proofs.Evaluation.Histories
import Formula.Proofs.Expression.Positions
import Formula.Proofs.Lexical.Respelling
import Formula.Proofs.Number.Case
import Formula.Proofs.Number.Singles

/-!
# Integers as formulas

The text of an integer is a formula: digits are one literal, and a minus sign is an operator in
front of it. The kind of the literal is settled before the sign is taken, so the two integers that
need their sign to fit come out one kind wider than they are.
-/

namespace Formula

open Number Lexicon

namespace Number

section

variable {ds : List Char} (hne : ds ≠ []) (hds : ∀ c ∈ ds, c.isDigit = true)
include hne hds

theorem unsignedDecimal?_of_isDigit : unsignedDecimal? ds = some (digitsValue ds, 0) := by
  have hspan : spanDigits (ds ++ []) = (ds, []) := spanDigits_append hds nofun
  rw [List.append_nil, spanDigits, Prod.mk.injEq] at hspan
  rw [unsignedDecimal?]
  simp [hspan, hne, exponent?]

theorem numeral?_of_isDigit : numeral? ds = some (.decimal false (digitsValue ds) 0) := by
  have hword {w : List Char} (hw : ∃ c ∈ w, c.isDigit = false) : ds ≠ w := by
    rintro rfl
    obtain ⟨c, hc, hno⟩ := hw
    rw [hds c hc] at hno
    cases hno
  have hsign : splitSign ds = (false, ds) := by
    cases ds with
    | nil => rfl
    | cons c cs => exact splitSign_of_isDigit (hds c (.head _)) cs
  rw [numeral?, hsign]
  dsimp only
  rw [map_toLower_of_digits hds, if_neg (hword ⟨'n', by decide⟩),
    if_neg (not_or.mpr ⟨hword ⟨'n', by decide⟩, hword ⟨'n', by decide⟩⟩),
    unsignedDecimal?_of_isDigit hne hds]
  rfl

theorem double?_of_isDigit : double? ds =
    some (doubleOfBits ((Numeral.decimal false (digitsValue ds) 0).toBits binary64)) := by
  rw [double?, numeral?_of_isDigit hne hds]
  rfl

end

end Number

/-- A double as a value and its opposite, both in single precision only if that holds it. -/
inductive Opposites (x : Float) : Value → Value → Prop
  | single (h : singleIsFinite (narrow x) = true) :
    Opposites x (.float (narrow x)) (.float (-narrow x))
  | double : Opposites x (.double x) (.double (-x))

theorem exists_opposites {cs : List Char} {x : Float} (h : double? cs = some x) (s : Strategy) :
    ∃ v w, realLiteral? cs = some v ∧ s.negative v = .ok w ∧ Opposites x v w := by
  rw [realLiteral?, h, Option.map_some]
  dsimp only
  split_ifs with hsingle
  · exact ⟨_, _, rfl, rfl, .single hsingle.1⟩
  · exact ⟨_, _, rfl, rfl, .double⟩

theorem Opposites.eq_double {x : Float} {v w : Value} (h : Opposites x v w)
    (hx : singleIsFinite (narrow x) = false) : v = .double x := by
  cases h with
  | single hfinite =>
    rw [hx] at hfinite
    cases hfinite
  | double => rfl

section

variable {ds : List Char} (hne : ds ≠ []) (hds : ∀ c ∈ ds, c.isDigit = true)
include hne hds

theorem lexed_digits : Lexed ds [⟨.integer, String.ofList ds, {}⟩] := by
  have hnext : formulas.next (ds ++ []) = .ok ⟨.integer, ds, ds⟩ := next_digits hne hds nofun
  have hlexed := Lexed.token (x := ⟨.integer, ds, ds⟩) hnext hne rfl ⟨rfl, rfl⟩ .nil
  rwa [List.append_nil] at hlexed

theorem lexed_minus_digits :
    Lexed ('-' :: ds) [⟨.symbol, "-", {}⟩, ⟨.integer, String.ofList ds, {}⟩] := by
  have hnext : formulas.next ('-' :: ds) = .ok ⟨.symbol, ['-'], ['-']⟩ :=
    next_mark (s := "-") (by decide) (fun h => absurd h (by decide))
  exact .token (x := ⟨.symbol, ['-'], ['-']⟩) hnext (by decide) rfl ⟨rfl, rfl⟩
    (lexed_digits hne hds)

end

theorem reads_digits {ds : List Char} {v : Value} (hv : integerLiteral? ds = some v)
    {last : Option Item} :
    Reads last none [⟨.integer, String.ofList ds, {}⟩] [⟨.constant v, {}⟩] := by
  refine .single ?_ (.done _)
  change TokenMeaning.ofLiteral (integerLiteral? (String.ofList ds).toList) _ = _
  rw [String.toList_ofList, hv]
  rfl

theorem Lexed.exists_ofText {cs : List Char} {ts : List Token} {row : Row} {program : Program}
    (h : Lexed cs ts) (hreads : Reads none none ts row) (hprogram : Program.ofItems row = .ok program) :
    ∃ p, Parsed.ofText (String.ofList cs) = .ok p ∧
      p.program.map Located.value = program.map Located.value := by
  obtain ⟨us, hus, hsame⟩ := h.exists_tokensOf
  obtain ⟨p, hp, hsteps⟩ := Parsed.exists_same_of_ofTokensNamed
    (Parsed.ofTokensNamed_eq_ok hreads hprogram "") hsame (String.ofList cs)
  refine ⟨p, ?_, hsteps.program⟩
  rw [Parsed.ofText, hus]
  exact hp

namespace Environment

variable (env : Environment) {program : Program} {v : Value}

theorem evaluate_push (h : program.map Located.value = [.push v]) :
    env.evaluate program = .ok v := by
  obtain ⟨⟨_, p⟩, rfl, rfl⟩ := List.map_eq_singleton_iff.mp h
  rfl

theorem evaluate_push_negate (h : program.map Located.value = [.push v, .apply (.prefixOp .negate)]) :
    env.evaluate program = env.strategy.negative v := by
  obtain ⟨⟨_, p⟩, _, rfl, rfl, hrest⟩ := List.map_eq_cons_iff.mp h
  obtain ⟨⟨_, q⟩, rfl, rfl⟩ := List.map_eq_singleton_iff.mp hrest
  cases hv : env.strategy.negative v <;>
    simp [evaluate, run, step, applyOperator, unary, Strategy.applyPrefix, ValueStack.push,
      ValueStack.pop?, pushResult, hv]

end Environment

namespace Calculator

/-- What a calculator gives for a text, whatever it was used for before. -/
def calculate (c : Calculator) (text : List Char) : Result :=
  (c.setText (String.ofList text)).1.evaluate

section

variable (c : Calculator) {ds : List Char} {v : Value}

theorem calculate_eq {cs : List Char} {p : Parsed} (h : Parsed.ofText (String.ofList cs) = .ok p) :
    ∃ vs : Variables, c.calculate cs =
      Environment.evaluate ⟨vs.value?, c.functions.find?, c.strategy⟩ p.program := by
  obtain ⟨vs, htake⟩ := c.exists_take_eq (c.parsed.setText (String.ofList cs))
  refine ⟨vs, ?_⟩
  rw [calculate, setText, htake, Parsed.setText_eq, h]
  rfl

variable (hne : ds ≠ []) (hds : ∀ c ∈ ds, c.isDigit = true) (hv : integerLiteral? ds = some v)
include hne hds hv

theorem calculate_digits : c.calculate ds = .ok v := by
  have hprogram : Program.ofItems [⟨.constant v, {}⟩] = .ok [⟨.push v, {}⟩] := rfl
  obtain ⟨p, hp, hsteps⟩ := (lexed_digits hne hds).exists_ofText (reads_digits hv) hprogram
  obtain ⟨vs, hvs⟩ := c.calculate_eq hp
  rw [hvs, Environment.evaluate_push _ hsteps]

theorem calculate_minus_digits : c.calculate ('-' :: ds) = c.strategy.negative v := by
  have hreads : Reads none none [⟨.symbol, "-", {}⟩, ⟨.integer, String.ofList ds, {}⟩]
      [⟨.prefixOp .negate, {}⟩, ⟨.constant v, {}⟩] := .single rfl (reads_digits hv)
  have hprogram : Program.ofItems [⟨.prefixOp .negate, {}⟩, ⟨.constant v, {}⟩] =
      .ok [⟨.push v, {}⟩, ⟨.apply (.prefixOp .negate), {}⟩] := rfl
  obtain ⟨p, hp, hsteps⟩ := (lexed_minus_digits hne hds).exists_ofText hreads hprogram
  obtain ⟨vs, hvs⟩ := c.calculate_eq hp
  rw [hvs, Environment.evaluate_push_negate _ hsteps]

end

end Calculator

theorem Strategy.negative_ofNat (s : Strategy) {n : Nat} (h : n < 9223372036854775808) :
    s.negative (Value.ofNat n) = .ok (if n < 2147483648 then .integer (Int32.ofInt (-n))
      else .long (Int64.ofInt (-n))) := by
  by_cases hn : n < 2147483648
  · have hfits : FitsInt32 (n : Int) := ⟨by omega, by omega⟩
    have hopposite : FitsInt32 (-(n : Int)) := ⟨by omega, by omega⟩
    rw [Value.ofNat, if_pos hn, if_pos hn, negative,
      toInt_ofInt_int32 hfits, int32?, if_pos hopposite]
  · have hfits : FitsInt64 (n : Int) := ⟨by omega, by omega⟩
    have hopposite : FitsInt64 (-(n : Int)) := ⟨by omega, by omega⟩
    rw [Value.ofNat, if_neg hn, if_neg hn, negative,
      toInt_ofInt_int64 hfits, int64?, if_pos hopposite]

namespace Calculator

variable (c : Calculator)

/-- The sign has no part in the kind: an integer is short if it and its opposite fit. -/
theorem calculate_integerText {z : Int} (h : z.natAbs < 9223372036854775808) :
    c.calculate (integerText z) = .ok (if z.natAbs < 2147483648 then .integer (Int32.ofInt z)
      else .long (Int64.ofInt z)) := by
  have hne := digits_ne_nil z.natAbs
  have hds : ∀ d ∈ digits z.natAbs, d.isDigit = true := fun _ => isDigit_of_mem_digits
  have hliteral := integerLiteral?_digits h
  rw [integerText]
  by_cases hz : z < 0
  · have hopposite : -(z.natAbs : Int) = z := by omega
    rw [if_pos hz, c.calculate_minus_digits hne hds hliteral, Strategy.negative_ofNat _ h, hopposite]
  · have hself : (z.natAbs : Int) = z := by omega
    rw [if_neg hz, c.calculate_digits hne hds hliteral, Value.ofNat, hself]

theorem exists_calculate_opposites {ds : List Char} (hne : ds ≠ [])
    (hds : ∀ d ∈ ds, d.isDigit = true) (h : 9223372036854775808 ≤ digitsValue ds) :
    ∃ x v w, double? ds = some x ∧ Opposites x v w ∧ c.calculate ds = .ok v ∧
      c.calculate ('-' :: ds) = .ok w ∧ (2 ^ 128 ≤ digitsValue ds → v = .double x) := by
  have hdouble := double?_of_isDigit hne hds
  obtain ⟨v, w, hv, hw, hopposites⟩ := exists_opposites hdouble c.strategy
  have hliteral := (integerLiteral?_of_large hne hds h).trans hv
  refine ⟨_, v, w, hdouble, hopposites, c.calculate_digits hne hds hliteral, ?_, fun hlarge => ?_⟩
  · rw [c.calculate_minus_digits hne hds hliteral, hw]
  · obtain ⟨hlow, hhigh⟩ := toBits_of_large hlarge
    exact hopposites.eq_double (not_singleIsFinite_narrow hlow hhigh)

/-- Every integer of 32 bits but the least is the value of its text, and so is every longer one of
64 bits but the least. The least of 32 bits comes out long. Digits beyond 64 bits denote the
nearest double, and the double itself where single precision is at an end; with a minus sign,
which the least of 64 bits needs, they denote its opposite. -/
theorem calculate_integers :
    (∀ n : Int32, n ≠ Int32.minValue → c.calculate (integerText n.toInt) = .ok (.integer n)) ∧
    c.calculate (integerText Int32.minValue.toInt) = .ok (.long Int32.minValue.toInt64) ∧
    (∀ n : Int64, ¬ FitsInt32 n.toInt → n ≠ Int64.minValue →
      c.calculate (integerText n.toInt) = .ok (.long n)) ∧
    ∀ ds : List Char, ds ≠ [] → (∀ d ∈ ds, d.isDigit = true) → 2 ^ 63 ≤ digitsValue ds →
      ∃ x v w, double? ds = some x ∧ Opposites x v w ∧ c.calculate ds = .ok v ∧
        c.calculate ('-' :: ds) = .ok w ∧ (2 ^ 128 ≤ digitsValue ds → v = .double x) := by
  refine ⟨fun n hn => ?_, ?_, fun n hwide hn => ?_,
    fun ds hne hds h => c.exists_calculate_opposites hne hds h⟩
  · have hbounds := fitsInt32_toInt n
    have hmin : n.toInt ≠ -2147483648 := fun h => hn (Int32.toInt_inj.mp h)
    rw [c.calculate_integerText (by rw [FitsInt32] at hbounds; omega), if_pos, Int32.ofInt_toInt]
    rw [FitsInt32] at hbounds
    omega
  · exact c.calculate_integerText (by decide)
  · have hbounds := fitsInt64_toInt n
    have hmin : n.toInt ≠ -9223372036854775808 := fun h => hn (Int64.toInt_inj.mp h)
    rw [FitsInt64] at hbounds
    rw [FitsInt32] at hwide
    rw [c.calculate_integerText (by omega), if_neg (by omega), Int64.ofInt_toInt]

/-- Integers at the ends of both widths, and the least number that is beyond single precision. -/
theorem calculate_integers_at_ends :
    let c : Calculator := { functions := {} }
    let large := "340282366920938463463374607431768211456".toList
    Int32.maxValue ≠ Int32.minValue ∧
      c.calculate "2147483647".toList = .ok (.integer Int32.maxValue) ∧
      c.calculate "-2147483648".toList = .ok (.long (-2147483648)) ∧
      ¬ FitsInt32 Int64.maxValue.toInt ∧ Int64.maxValue ≠ Int64.minValue ∧
      c.calculate "9223372036854775807".toList = .ok (.long Int64.maxValue) ∧
      large ≠ [] ∧ (∀ d ∈ large, d.isDigit = true) ∧ 2 ^ 63 ≤ digitsValue large ∧
      ∃ x, double? large = some x ∧ c.calculate large = .ok (.double x) := by
  intro c large
  obtain ⟨hshort, hleast, hlong, hreal⟩ := calculate_integers c
  have hmax : integerText Int32.maxValue.toInt = "2147483647".toList := by decide +kernel
  have hmin : integerText Int32.minValue.toInt = "-2147483648".toList := by decide +kernel
  have hmax' : integerText Int64.maxValue.toInt = "9223372036854775807".toList := by decide +kernel
  have hne : large ≠ [] := by decide
  have hds : ∀ d ∈ large, d.isDigit = true := List.all_eq_true.mp (by decide +kernel)
  have hlow : 2 ^ 63 ≤ digitsValue large := by decide +kernel
  have hlarge : 2 ^ 128 ≤ digitsValue large := by decide +kernel
  obtain ⟨x, v, w, hx, -, hv, -, hdouble⟩ := hreal large hne hds hlow
  rw [hdouble hlarge] at hv
  exact ⟨by decide, hmax ▸ hshort Int32.maxValue (by decide), hmin ▸ hleast, by decide, by decide,
    hmax' ▸ hlong Int64.maxValue (by decide) (by decide), hne, hds, hlow, x, hx, hv⟩

/-- The least integers of both widths are not the values of their texts, and the first number
beyond 64 bits is of single precision. -/
theorem calculate_minValue :
    let c : Calculator := { functions := {} }
    c.calculate "-2147483648".toList = .ok (.long (-2147483648)) ∧
      c.calculate "-2147483648".toList ≠ .ok (.integer (-2147483648)) ∧
      c.calculate "-9223372036854775808".toList ≠ .ok (.long (-9223372036854775808)) ∧
      ∃ y : Float32, c.calculate "9223372036854775808".toList = .ok (.float y) := by
  intro c
  have htext : integerText (-2147483648) = "-2147483648".toList := by decide +kernel
  have hleast := c.calculate_integerText (z := -2147483648) (by decide)
  rw [htext] at hleast
  have hne : "9223372036854775808".toList ≠ [] := by decide
  have hds : ∀ d ∈ "9223372036854775808".toList, d.isDigit = true :=
    List.all_eq_true.mp (by decide +kernel)
  refine ⟨hleast, ?_, ?_, ?_⟩
  · rw [hleast]
    nofun
  · obtain ⟨x, v, w, -, hopposites, -, hw, -⟩ :=
      c.exists_calculate_opposites hne hds (by decide +kernel)
    have hminus : "-9223372036854775808".toList = '-' :: "9223372036854775808".toList := by decide
    rw [hminus, hw]
    cases hopposites <;> nofun
  · have hkind : (integerLiteral? "9223372036854775808".toList).map Value.kind = some .float := by
      decide +kernel
    obtain ⟨v, hv, hfloat⟩ := Option.map_eq_some_iff.mp hkind
    have hvalue := c.calculate_digits hne hds hv
    cases v with
    | float y => exact ⟨y, hvalue⟩
    | _ => cases hfloat

end Calculator

end Formula
