import Formula.Operations.Comparison
import Mathlib

/-!
# Sameness and order of values

Sameness does not depend on which value is named first, and the order of two values is turned round
when they change places. Values of an ordered kind are the same where neither comes before the other.
Only what is no number has no place in the order of its kind.
-/

namespace Formula

open Number Time

namespace Number

theorem compareRanks?_swap (r q : Option Int) :
    compareRanks? q r = (compareRanks? r q).map Ordering.swap := by
  cases r with
  | none => cases q <;> rfl
  | some x =>
    cases q with
    | none => rfl
    | some y => exact congrArg some Std.OrientedOrd.eq_swap

theorem compareRanks?_eq_none_iff {r q : Option Int} :
    compareRanks? r q = none ↔ r = none ∨ q = none := by
  cases r <;> cases q <;> simp [compareRanks?]

theorem BinaryFormat.rank?_eq_none_iff (f : BinaryFormat) (hf : 0 < f.precision) (bits : Nat) :
    f.rank? bits = none ↔ f.read bits = .nan := by
  have hfields : f.signBit = f.hiddenBit * (f.lastExponent + 1) := by
    have hpower : 0 < 2 ^ f.exponentBits := Nat.two_pow_pos _
    rw [signBit, hiddenBit, lastExponent, Nat.pow_eq, Nat.pow_eq, Nat.pow_eq,
      Nat.sub_add_cancel hpower, ← Nat.pow_add]
    congr 1
    omega
  have hmagnitude : bits % f.signBit =
      bits % f.hiddenBit + f.hiddenBit * (bits / f.hiddenBit % (f.lastExponent + 1)) := by
    rw [hfields, Nat.mod_mul]
  have hexponent : bits / f.hiddenBit % (f.lastExponent + 1) ≤ f.lastExponent :=
    Nat.le_of_lt_succ (Nat.mod_lt _ (Nat.succ_pos _))
  have hfraction : bits % f.hiddenBit < f.hiddenBit := Nat.mod_lt _ (Nat.two_pow_pos _)
  rw [rank?, read, hmagnitude, infinityBits, Nat.mul_comm f.lastExponent]
  generalize bits / f.hiddenBit % (f.lastExponent + 1) = exponent at *
  generalize bits % f.hiddenBit = fraction at *
  by_cases hlast : exponent = f.lastExponent
  · subst hlast
    rcases Nat.eq_zero_or_pos fraction with rfl | hpos
    · simp
    · have hbeyond : ¬ fraction + f.hiddenBit * f.lastExponent ≤ f.hiddenBit * f.lastExponent := by
        omega
      simp [hbeyond, hpos.ne']
  · have hwithin : fraction + f.hiddenBit * exponent ≤ f.hiddenBit * f.lastExponent := by
      calc fraction + f.hiddenBit * exponent ≤ f.hiddenBit * (exponent + 1) := by
            rw [Nat.mul_succ]
            omega
        _ ≤ f.hiddenBit * f.lastExponent := Nat.mul_le_mul_left _ (by omega)
    simp only [if_pos hwithin, if_neg hlast]
    split_ifs <;> simp

end Number

namespace Time.Moment

theorem compare_swap (a b : Moment) : b.compare a = (a.compare b).swap := by
  rw [compare, compare, Ordering.swap_then, ← Std.OrientedOrd.eq_swap, ← Std.OrientedOrd.eq_swap]

theorem compare_eq_eq_iff {a b : Moment} : a.compare b = .eq ↔ a = b := by
  rw [compare, Ordering.then_eq_eq, Std.compare_eq_iff_eq, Std.compare_eq_iff_eq]
  cases a
  cases b
  simp

end Time.Moment

theorem JsonNumber.same_comm (m n : JsonNumber) : m.same n = n.same m := by
  cases m with
  | whole i _ =>
    cases n with
    | whole j _ => exact Bool.beq_comm
    | real y _ => rfl
  | real x _ =>
    cases n with
    | whole j _ => rfl
    | real y _ => exact Bool.beq_comm

mutual

theorem Json.same_comm : (i j : Json) → i.same j = j.same i
  | .null, j => by cases j <;> rfl
  | .bool b, j => by
    cases j with
    | bool c => exact Bool.beq_comm
    | _ => rfl
  | .number m, j => by
    cases j with
    | number n => exact m.same_comm n
    | _ => rfl
  | .string s, j => by
    cases j with
    | string t => exact Bool.beq_comm
    | _ => rfl
  | .array items, j => by
    cases j with
    | array others => exact Json.sameItems_comm items others
    | _ => rfl
  | .object members, j => by
    cases j with
    | object others => exact Json.sameMembers_comm members others
    | _ => rfl

theorem Json.sameItems_comm : (is js : List Json) → Json.sameItems is js = Json.sameItems js is
  | [], js => by cases js <;> rfl
  | i :: is, js => by
    cases js with
    | nil => rfl
    | cons j js =>
      rw [Json.sameItems, Json.sameItems, Json.same_comm i j, Json.sameItems_comm is js]

theorem Json.sameMembers_comm :
    (ms ns : List (String × Json)) → Json.sameMembers ms ns = Json.sameMembers ns ms
  | [], ns => by cases ns <;> rfl
  | (k, i) :: ms, ns => by
    cases ns with
    | nil => rfl
    | cons n ns =>
      obtain ⟨l, j⟩ := n
      rw [Json.sameMembers, Json.sameMembers, Json.same_comm i j, Json.sameMembers_comm ms ns,
        Bool.beq_comm (a := k)]

end

namespace Value

theorem sameRanks_comm (r q : Option Int) :
    (compareRanks? r q == some .eq) = (compareRanks? q r == some .eq) := by
  rw [compareRanks?_swap q r]
  cases compareRanks? q r with
  | none => rfl
  | some o => cases o <;> rfl

mutual

theorem same_comm : (a b : Value) → a.same b = b.same a
  | .null, b => by cases b <;> rfl
  | .integer m, b => by
    cases b with
    | integer n => exact Bool.beq_comm
    | _ => rfl
  | .long m, b => by
    cases b with
    | long n => exact Bool.beq_comm
    | _ => rfl
  | .boolean c, b => by
    cases b with
    | boolean d => exact Bool.beq_comm
    | _ => rfl
  | .float x, b => by
    cases b with
    | float y => exact sameRanks_comm _ _
    | _ => rfl
  | .double x, b => by
    cases b with
    | double y => exact sameRanks_comm _ _
    | _ => rfl
  | .string s, b => by
    cases b with
    | string t => exact Bool.beq_comm
    | _ => rfl
  | .dateTime m, b => by
    cases b with
    | dateTime n => exact Bool.beq_comm
    | _ => rfl
  | .timeSpan s, b => by
    cases b with
    | timeSpan t => exact Bool.beq_comm
    | _ => rfl
  | .object i, b => by
    cases b with
    | object j => exact i.same_comm j
    | _ => rfl
  | .array items, b => by
    cases b with
    | array others => exact sameItems_comm items others
    | _ => rfl

theorem sameItems_comm : (as bs : List Value) → sameItems as bs = sameItems bs as
  | [], bs => by cases bs <;> rfl
  | a :: as, bs => by
    cases bs with
    | nil => rfl
    | cons b bs => rw [sameItems, sameItems, same_comm a b, sameItems_comm as bs]

end

theorem compare?_swap (a b : Value) :
    b.compare? a = (a.compare? b).map (Option.map Ordering.swap) := by
  have hswap {α : Type} [Ord α] [Std.OrientedOrd α] (x y : α) : some (some (Ord.compare y x)) =
      (some (some (Ord.compare x y))).map (Option.map Ordering.swap) :=
    congrArg (fun o => some (some o)) Std.OrientedOrd.eq_swap
  cases a <;> cases b <;> try rfl
  case integer.integer m n => exact hswap m.toInt n.toInt
  case long.long m n => exact hswap m.toInt n.toInt
  case boolean.boolean c d => exact hswap c.toNat d.toNat
  case float.float x y => exact congrArg some (compareRanks?_swap _ _)
  case double.double x y => exact congrArg some (compareRanks?_swap _ _)
  case string.string s t => exact hswap s t
  case dateTime.dateTime m n => exact congrArg (fun o => some (some o)) (m.compare_swap n)
  case timeSpan.timeSpan s t => exact hswap s.nanos t.nanos

/-- What is no number, though its kind is one of numbers. -/
def isNaN : Value → Bool
  | .float x => readSingle x == .nan
  | .double x => readDouble x == .nan
  | _ => false

variable {a b : Value} {o : Option Ordering} (h : a.compare? b = some o)
include h

/-- Two values of an ordered kind are the same where neither comes before the other. -/
theorem same_of_compare? : a.same b = (o == some .eq) := by
  have hsame {α : Type} [Ord α] [Std.LawfulEqOrd α] [DecidableEq α] (x y : α) :
      (x == y) = (some (Ord.compare x y) == some .eq) := by
    rw [Bool.eq_iff_iff, beq_iff_eq, beq_iff_eq, Option.some_inj, Std.compare_eq_iff_eq]
  cases a <;> cases b <;> cases h
  case integer.integer m n =>
    rw [← hsame, same, Bool.eq_iff_iff, beq_iff_eq, beq_iff_eq, Int32.toInt_inj]
  case long.long m n =>
    rw [← hsame, same, Bool.eq_iff_iff, beq_iff_eq, beq_iff_eq, Int64.toInt_inj]
  case boolean.boolean c d => cases c <;> cases d <;> rfl
  case float.float x y => rfl
  case double.double x y => rfl
  case string.string s t => exact hsame s t
  case dateTime.dateTime m n =>
    rw [same, Bool.eq_iff_iff, beq_iff_eq, beq_iff_eq, Option.some_inj, Moment.compare_eq_eq_iff]
  case timeSpan.timeSpan s t =>
    rw [← hsame, same, Bool.eq_iff_iff, beq_iff_eq, beq_iff_eq]
    cases s
    cases t
    simp

theorem isNaN_iff_of_compare? : (a.isNaN || b.isNaN) = true ↔ o = none := by
  have hsingle (x : Float32) : readSingle x = .nan ↔ rankSingle? x = none :=
    (binary32.rank?_eq_none_iff (by decide) _).symm
  have hdouble (x : Float) : readDouble x = .nan ↔ rankDouble? x = none :=
    (binary64.rank?_eq_none_iff (by decide) _).symm
  cases a <;> cases b <;> cases h
  case float.float x y => simp [isNaN, hsingle, compareRanks?_eq_none_iff]
  case double.double x y => simp [isNaN, hdouble, compareRanks?_eq_none_iff]
  all_goals simp [isNaN]

end Value

end Formula
