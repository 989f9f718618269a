import Formula.Number.Binary

/-!
# JSON values

Numbers are integers of at most 64 bits, with or without a sign, or finite doubles. The
members of an object are kept in the order of their names, and a name has one member, the
last one given to it.
-/

namespace Formula

def FitsJson (n : Int) : Prop := -9223372036854775808 ≤ n ∧ n < 18446744073709551616

instance (n : Int) : Decidable (FitsJson n) := inferInstanceAs (Decidable (_ ∧ _))

inductive JsonNumber
  | whole (n : Int) (fits : FitsJson n)
  | real (x : Float) (finite : Number.doubleIsFinite x = true)

namespace JsonNumber

def ofInt? (n : Int) : Option JsonNumber :=
  if h : FitsJson n then some (.whole n h) else none

def ofDouble? (x : Float) : Option JsonNumber :=
  if h : Number.doubleIsFinite x = true then some (.real x h) else none

/-- Integers equal integers and doubles equal doubles, never one the other. -/
def same : JsonNumber → JsonNumber → Bool
  | .whole m _, .whole n _ => m == n
  | .real x _, .real y _ => Number.rankDouble? x == Number.rankDouble? y
  | _, _ => false

end JsonNumber

inductive Json
  | null
  | bool (b : Bool)
  | number (n : JsonNumber)
  | string (s : String)
  | array (items : List Json)
  | object (members : List (String × Json))

namespace Json

instance : Inhabited Json := ⟨.null⟩

/-- Adds a member in the order of names, in place of one with the same name. -/
def insertMember (name : String) (value : Json) : List (String × Json) → List (String × Json)
  | [] => [(name, value)]
  | (other, old) :: rest =>
    if name = other then (name, value) :: rest
    else if name < other then (name, value) :: (other, old) :: rest
    else (other, old) :: insertMember name value rest

/-- The object with members given one after another. -/
def ofMembers (members : List (String × Json)) : Json :=
  .object (members.foldl (fun found (name, value) => insertMember name value found) [])

mutual

def same : Json → Json → Bool
  | .null, .null => true
  | .bool a, .bool b => a == b
  | .number a, .number b => a.same b
  | .string a, .string b => a == b
  | .array a, .array b => sameItems a b
  | .object a, .object b => sameMembers a b
  | _, _ => false

def sameItems : List Json → List Json → Bool
  | [], [] => true
  | a :: as, b :: bs => same a b && sameItems as bs
  | _, _ => false

def sameMembers : List (String × Json) → List (String × Json) → Bool
  | [], [] => true
  | (k, a) :: as, (l, b) :: bs => k == l && same a b && sameMembers as bs
  | _, _ => false

end

end Json

end Formula
