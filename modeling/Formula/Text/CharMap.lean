/-!
# Maps from character codes to optional values

A range of codes is given a value, or none, in one step, and a later step wins over
the earlier ones. Codes below 256 live in a table, which every step updates; above it
the steps are kept as intervals, the latest first, and the first that covers a code
decides. Main statements: `find_assign` says what one step does to every code, and
`find_empty` and `find_clear` that nothing is there at first and once all is cleared.
-/

namespace Formula.Text

/-- A run of codes, both ends included, and what it was given. -/
structure CharRange (α : Type) where
  first : Nat
  last : Nat
  value : Option α
  deriving Repr

namespace CharRange

variable {α : Type}

def Covers (r : CharRange α) (code : Nat) : Prop := r.first ≤ code ∧ code ≤ r.last

instance (r : CharRange α) (code : Nat) : Decidable (r.Covers code) :=
  inferInstanceAs (Decidable (_ ∧ _))

end CharRange

structure CharMap (α : Type) where
  table : Vector (Option α) 256
  ranges : List (CharRange α)

namespace CharMap

variable {α : Type}

def empty : CharMap α := ⟨Vector.replicate 256 none, []⟩

instance : Inhabited (CharMap α) := ⟨empty⟩

def find (m : CharMap α) (code : Nat) : Option α :=
  if h : code < 256 then m.table[code]
  else (m.ranges.find? fun r => decide (r.Covers code)).bind (·.value)

def lookup (m : CharMap α) (c : Char) : Option α := m.find c.toNat

/-- Gives `value` to every code of the range; an empty range changes nothing. -/
def assign (m : CharMap α) (r : CharRange α) : CharMap α :=
  if r.first ≤ r.last then
    { table :=
        if r.first < 256 then
          Vector.ofFn fun code : Fin 256 => if r.Covers code then r.value else m.table[code]
        else m.table
      ranges := if 256 ≤ r.last then r :: m.ranges else m.ranges }
  else m

def set (m : CharMap α) (first last : Nat) (value : α) : CharMap α :=
  m.assign ⟨first, last, some value⟩

def erase (m : CharMap α) (first last : Nat) : CharMap α :=
  m.assign ⟨first, last, none⟩

def setChar (m : CharMap α) (c : Char) (value : α) : CharMap α :=
  m.set c.toNat c.toNat value

def clear (m : CharMap α) : CharMap α where
  table := m.table.map fun _ => none
  ranges := []

@[simp] theorem find_empty (code : Nat) : (empty : CharMap α).find code = none := by
  simp [find, empty]

@[simp] theorem find_clear (m : CharMap α) (code : Nat) : m.clear.find code = none := by
  simp [find, clear]

theorem find_assign (m : CharMap α) (r : CharRange α) (code : Nat) :
    (m.assign r).find code = if r.Covers code then r.value else m.find code := by
  unfold assign
  split
  · by_cases hc : code < 256
    · by_cases hf : r.first < 256
      · simp [find, hc, hf]
      · have : ¬ r.Covers code := fun h => by have := h.1; omega
        simp [find, hc, hf, this]
    · by_cases hl : 256 ≤ r.last
      · by_cases hr : r.Covers code <;> simp [find, hc, hl, hr]
      · have : ¬ r.Covers code := fun h => by have := h.2; omega
        simp [find, hc, hl, this]
  · have : ¬ r.Covers code := fun h => by have := h.1; have := h.2; omega
    simp [this]

theorem lookup_assign (m : CharMap α) (r : CharRange α) (c : Char) :
    (m.assign r).lookup c = if r.Covers c.toNat then r.value else m.lookup c :=
  find_assign m r c.toNat

end CharMap

end Formula.Text
