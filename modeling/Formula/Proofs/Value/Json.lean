import Formula.Proofs.Number.Doubles
import Formula.Value.Json

/-!
# Values through JSON and back

JSON has no form for most kinds of values, so a value that goes through JSON comes back as one
of six kinds. Those that come back as they were are the plain ones, and all that comes out of JSON
is plain. In the other direction only integers beyond 64 signed bits change.
-/

namespace Formula

open Number

section Numbers

variable {n : Int} {x : Float}

theorem Number.FitsInt32.fitsInt64 (h : FitsInt32 n) : FitsInt64 n :=
  ⟨Int.le_trans (by decide) h.1, Int.lt_trans h.2 (by decide)⟩

theorem Number.FitsInt64.fitsJson (h : FitsInt64 n) : FitsJson n :=
  ⟨h.1, Int.lt_trans h.2 (by decide)⟩

theorem FitsJson.log2_lt (h : FitsJson n) : n.natAbs.log2 < 1023 := by
  have hsize : n.natAbs < 2 ^ 65 := by
    have := h.1
    have := h.2
    omega
  by_cases hn : n.natAbs = 0
  · rw [hn]
    decide
  · exact ((Nat.log2_lt hn).mpr hsize).trans (by decide)

theorem FitsJson.doubleIsFinite (h : FitsJson n) : doubleIsFinite (doubleOfInt n) = true :=
  doubleIsFinite_doubleOfInt h.log2_lt

theorem Json.ofInt_eq (h : FitsJson n) : Json.ofInt n = .number (.whole n h) := by
  simp [Json.ofInt, JsonNumber.ofInt?, h]

theorem Json.ofDouble_eq (h : doubleIsFinite x = true) : Json.ofDouble x = .number (.real x h) := by
  simp [Json.ofDouble, JsonNumber.ofDouble?, h]

/-- An integer from JSON is a word that holds it, or the double nearest to it. -/
theorem Value.ofInt_cases (n : Int) :
    (∃ w : Int32, n = w.toInt ∧ Value.ofInt n = .integer w) ∨
      (∃ w : Int64, n = w.toInt ∧ ¬ FitsInt32 n ∧ Value.ofInt n = .long w) ∨
      (¬ FitsInt64 n ∧ Value.ofInt n = .double (doubleOfInt n)) := by
  rw [Value.ofInt]
  cases h32 : int32? n with
  | some w => exact .inl ⟨w, int32?_eq_some_iff.mp h32, rfl⟩
  | none =>
    cases h64 : int64? n with
    | some w => exact .inr (.inl ⟨w, int64?_eq_some_iff.mp h64, int32?_eq_none_iff.mp h32, rfl⟩)
    | none => exact .inr (.inr ⟨int64?_eq_none_iff.mp h64, rfl⟩)

theorem Value.ofInt_int32 (w : Int32) : Value.ofInt w.toInt = .integer w := by
  rw [Value.ofInt, int32?_toInt]

theorem Value.ofInt_int64 {w : Int64} (h : ¬ FitsInt32 w.toInt) : Value.ofInt w.toInt = .long w := by
  rw [Value.ofInt, int32?_eq_none_iff.mpr h, int64?_toInt]

end Numbers

mutual

/-- Null, truth values, texts, integers of the narrowest kind, finite doubles, JSON objects and
arrays of plain values. -/
def Value.Plain : Value → Prop
  | .null => True
  | .integer _ => True
  | .long n => ¬ FitsInt32 n.toInt
  | .boolean _ => True
  | .float _ => False
  | .double x => doubleIsFinite x = true
  | .string _ => True
  | .dateTime _ => False
  | .timeSpan _ => False
  | .object (.object _) => True
  | .object _ => False
  | .array items => Value.AllPlain items

def Value.AllPlain : List Value → Prop
  | [] => True
  | v :: vs => v.Plain ∧ Value.AllPlain vs

end

theorem Value.plain_object_iff {j : Json} :
    (Value.object j).Plain ↔ ∃ members, j = .object members := by
  cases j <;> simp [Value.Plain]

def Value.viaJson (v : Value) : Value := v.toJson.toValue

theorem Value.plain_ofInt {n : Int} (h : FitsJson n) : (Value.ofInt n).Plain := by
  obtain ⟨w, -, hw⟩ | ⟨w, rfl, hwide, hw⟩ | ⟨-, hw⟩ := Value.ofInt_cases n
  · rw [hw, Value.Plain]; trivial
  · rw [hw, Value.Plain]; exact hwide
  · rw [hw, Value.Plain]; exact h.doubleIsFinite

mutual

theorem Json.plain_toValue : (j : Json) → j.toValue.Plain
  | .null => by simp [Json.toValue, Value.Plain]
  | .bool b => by simp [Json.toValue, Value.Plain]
  | .number (.whole n fits) => Value.plain_ofInt fits
  | .number (.real x finite) => by simpa [Json.toValue, Value.Plain] using finite
  | .string s => by simp [Json.toValue, Value.Plain]
  | .array items => by
    rw [Json.toValue, Value.Plain]
    exact Json.allPlain_toValues items
  | .object members => by simp [Json.toValue, Value.Plain]

theorem Json.allPlain_toValues : (js : List Json) → Value.AllPlain (Json.toValues js)
  | [] => by simp [Json.toValues, Value.AllPlain]
  | j :: js => by
    rw [Json.toValues, Value.AllPlain]
    exact ⟨Json.plain_toValue j, Json.allPlain_toValues js⟩

end

mutual

theorem Value.toValue_toJson : (v : Value) → v.Plain → v.toJson.toValue = v
  | .null, _ => rfl
  | .integer n, _ => by
    rw [Value.toJson, Json.ofInt_eq (fitsInt32_toInt n).fitsInt64.fitsJson, Json.toValue,
      Value.ofInt_int32]
  | .long n, h => by
    rw [Value.Plain] at h
    rw [Value.toJson, Json.ofInt_eq (fitsInt64_toInt n).fitsJson, Json.toValue,
      Value.ofInt_int64 h]
  | .boolean b, _ => rfl
  | .float x, h => h.elim
  | .double x, h => by
    rw [Value.Plain] at h
    rw [Value.toJson, Json.ofDouble_eq h, Json.toValue]
  | .dateTime m, h => h.elim
  | .timeSpan s, h => h.elim
  | .string s, _ => rfl
  | .object j, h => by
    obtain ⟨members, rfl⟩ := Value.plain_object_iff.mp h
    rfl
  | .array items, h => by
    rw [Value.Plain] at h
    rw [Value.toJson, Json.toValue, Value.toValues_toJsons items h]

theorem Value.toValues_toJsons : (vs : List Value) → Value.AllPlain vs →
    Json.toValues (Value.toJsons vs) = vs
  | [], _ => rfl
  | v :: vs, h => by
    rw [Value.AllPlain] at h
    rw [Value.toJsons, Json.toValues, Value.toValue_toJson v h.1, Value.toValues_toJsons vs h.2]

end

/-- The values that come back from JSON as they were are the plain ones. -/
theorem Value.viaJson_eq_iff {v : Value} : v.viaJson = v ↔ v.Plain :=
  ⟨fun h => h ▸ Json.plain_toValue v.toJson, Value.toValue_toJson v⟩

theorem JsonNumber.same_self (n : JsonNumber) : n.same n = true := by
  cases n <;> simp [JsonNumber.same]

mutual

theorem Json.same_self : (j : Json) → j.same j = true
  | .null => rfl
  | .bool b => by simp [Json.same]
  | .number n => n.same_self
  | .string s => by simp [Json.same]
  | .array items => by rw [Json.same, Json.sameItems_self items]
  | .object members => by rw [Json.same, Json.sameMembers_self members]

theorem Json.sameItems_self : (js : List Json) → Json.sameItems js js = true
  | [] => rfl
  | j :: js => by rw [Json.sameItems, Json.same_self j, Json.sameItems_self js]; rfl

theorem Json.sameMembers_self : (ms : List (String × Json)) → Json.sameMembers ms ms = true
  | [] => rfl
  | (name, j) :: ms => by
    rw [Json.sameMembers, Json.same_self j, Json.sameMembers_self ms, beq_self_eq_true]; rfl

end

theorem compareRanks?_self (r : Int) : compareRanks? (some r) (some r) = some .eq := by
  simp [compareRanks?]

mutual

/-- A plain value equals itself; what is no number is not plain. -/
theorem Value.Plain.same_self : {v : Value} → v.Plain → v.same v = true
  | .null, _ => rfl
  | .integer n, _ => by simp [Value.same]
  | .long n, _ => by simp [Value.same]
  | .boolean b, _ => by simp [Value.same]
  | .float x, h => h.elim
  | .dateTime m, h => h.elim
  | .timeSpan s, h => h.elim
  | .double x, h => by
    rw [Value.Plain] at h
    obtain ⟨r, hr⟩ := exists_rankDouble? h
    rw [Value.same, hr, compareRanks?_self]; rfl
  | .string s, _ => by simp [Value.same]
  | .object j, _ => j.same_self
  | .array items, h => by
    rw [Value.Plain] at h
    rw [Value.same, Value.sameItems_self items h]

theorem Value.sameItems_self : (vs : List Value) → Value.AllPlain vs →
    Value.sameItems vs vs = true
  | [], _ => rfl
  | v :: vs, h => by
    rw [Value.AllPlain] at h
    rw [Value.sameItems, h.1.same_self, Value.sameItems_self vs h.2]; rfl

end

/-- One passage through JSON settles a value: a second one changes nothing, by identity and by the
equality of values, and the values that were settled from the start are the plain ones. -/
theorem Value.viaJson_settles (v : Value) :
    v.viaJson.viaJson = v.viaJson ∧ v.viaJson.viaJson.same v.viaJson = true ∧
      (v.viaJson = v ↔ v.Plain) := by
  have hplain : v.viaJson.Plain := Json.plain_toValue v.toJson
  have hsettled : v.viaJson.viaJson = v.viaJson := Value.viaJson_eq_iff.mpr hplain
  refine ⟨hsettled, ?_, Value.viaJson_eq_iff⟩
  rw [hsettled]
  exact hplain.same_self

mutual

/-- Outside of objects, all integers have at most 64 bits, the sign among them. -/
def Json.Signed : Json → Prop
  | .null => True
  | .bool _ => True
  | .number (.whole n _) => FitsInt64 n
  | .number (.real _ _) => True
  | .string _ => True
  | .array items => Json.AllSigned items
  | .object _ => True

def Json.AllSigned : List Json → Prop
  | [] => True
  | j :: js => j.Signed ∧ Json.AllSigned js

end

mutual

/-- Outside of objects, each integer beyond 64 bits with a sign is replaced by a double. -/
def Json.withDoubles : Json → Json
  | .number (.whole n fits) =>
    .number (if FitsInt64 n then .whole n fits else .real (doubleOfInt n) fits.doubleIsFinite)
  | .array items => .array (Json.withDoublesIn items)
  | j => j

def Json.withDoublesIn : List Json → List Json
  | [] => []
  | j :: js => j.withDoubles :: Json.withDoublesIn js

end

theorem Value.toJson_ofInt {n : Int} (fits : FitsJson n) :
    (Value.ofInt n).toJson =
      .number (if FitsInt64 n then .whole n fits else .real (doubleOfInt n) fits.doubleIsFinite) := by
  obtain ⟨w, rfl, hw⟩ | ⟨w, rfl, -, hw⟩ | ⟨hbeyond, hw⟩ := Value.ofInt_cases n
  · rw [hw, Value.toJson, Json.ofInt_eq fits, if_pos (fitsInt32_toInt w).fitsInt64]
  · rw [hw, Value.toJson, Json.ofInt_eq fits, if_pos (fitsInt64_toInt w)]
  · rw [hw, Value.toJson, Json.ofDouble_eq fits.doubleIsFinite, if_neg hbeyond]

mutual

theorem Json.toJson_toValue : (j : Json) → j.toValue.toJson = j.withDoubles
  | .null => rfl
  | .bool b => rfl
  | .number (.whole n fits) => by rw [Json.toValue, Value.toJson_ofInt fits, Json.withDoubles]
  | .number (.real x finite) => by
    rw [Json.toValue, Value.toJson, Json.ofDouble_eq finite]
    rfl
  | .string s => rfl
  | .array items => by
    rw [Json.toValue, Value.toJson, Json.withDoubles, Json.toJsons_toValues items]
  | .object members => rfl

theorem Json.toJsons_toValues :
    (js : List Json) → Value.toJsons (Json.toValues js) = Json.withDoublesIn js
  | [] => rfl
  | j :: js => by
    rw [Json.toValues, Value.toJsons, Json.withDoublesIn, Json.toJson_toValue j,
      Json.toJsons_toValues js]

end

mutual

theorem Json.withDoubles_eq_iff : (j : Json) → (j.withDoubles = j ↔ j.Signed)
  | .null => iff_of_true rfl trivial
  | .bool b => iff_of_true rfl trivial
  | .number (.whole n fits) => by
    rw [Json.withDoubles, Json.Signed, Json.number.injEq]
    split_ifs with h
    · exact iff_of_true rfl h
    · exact iff_of_false nofun h
  | .number (.real x finite) => iff_of_true rfl trivial
  | .string s => iff_of_true rfl trivial
  | .array items => by
    rw [Json.withDoubles, Json.Signed, Json.array.injEq]
    exact Json.withDoublesIn_eq_iff items
  | .object members => iff_of_true rfl trivial

theorem Json.withDoublesIn_eq_iff :
    (js : List Json) → (Json.withDoublesIn js = js ↔ Json.AllSigned js)
  | [] => iff_of_true rfl trivial
  | j :: js => by
    rw [Json.withDoublesIn, Json.AllSigned, List.cons.injEq]
    exact and_congr (Json.withDoubles_eq_iff j) (Json.withDoublesIn_eq_iff js)

end

end Formula
