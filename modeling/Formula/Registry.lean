import Formula.Operations.Strategy
import Formula.Text.Characters

/-!
# Variables and functions by name

Both registries keep their entries in the order in which names first came, and names that
differ only in ASCII case are one name. A variable keeps the spelling it came with; a
function that takes the place of another brings its own.
-/

namespace Formula

namespace Named

variable {α : Type} (nameOf : α → String)

def IsNamed (name : String) (x : α) : Prop := Text.AsciiCase.Same (nameOf x) name

instance (name : String) (x : α) : Decidable (IsNamed nameOf name x) :=
  inferInstanceAs (Decidable (Text.AsciiCase.Same _ _))

def find? (name : String) (xs : List α) : Option α :=
  xs.find? fun x => decide (IsNamed nameOf name x)

/-- Changes the entry of that name, or adds a new one at the end. -/
def put (name : String) (change : α → α) (fresh : α) : List α → List α
  | [] => [fresh]
  | x :: xs =>
    if IsNamed nameOf name x then change x :: xs else x :: put name change fresh xs

/-- Changes the entry of that name, if there is one. -/
def modify (name : String) (change : α → α) : List α → List α
  | [] => []
  | x :: xs => if IsNamed nameOf name x then change x :: xs else x :: modify name change xs

def remove (name : String) (xs : List α) : List α :=
  xs.eraseP fun x => decide (IsNamed nameOf name x)

/-- No two entries share a name. -/
def Distinct (xs : List α) : Prop :=
  xs.Pairwise fun x y => ¬ IsNamed nameOf (nameOf y) x

end Named

structure Variable where
  name : String
  value : Value

structure Variables where
  entries : List Variable := []

namespace Variables

def find? (vs : Variables) (name : String) : Option Variable :=
  Named.find? Variable.name name vs.entries

def value? (vs : Variables) (name : String) : Option Value :=
  (vs.find? name).map Variable.value

/-- Gives a variable a value; a new one goes to the end. -/
def set (vs : Variables) (name : String) (v : Value) : Variables :=
  ⟨Named.put Variable.name name (fun old => { old with value := v }) ⟨name, v⟩ vs.entries⟩

/-- Gives a variable a value if it is there. -/
def update (vs : Variables) (name : String) (v : Value) : Variables :=
  ⟨Named.modify Variable.name name (fun old => { old with value := v }) vs.entries⟩

def remove (vs : Variables) (name : String) : Variables :=
  ⟨Named.remove Variable.name name vs.entries⟩

def clearValues (vs : Variables) : Variables :=
  ⟨vs.entries.map fun v => { v with value := .null }⟩

/-- Adds a null for a name that is not there yet. -/
def ensure (vs : Variables) (name : String) : Variables :=
  if (vs.find? name).isSome then vs else vs.set name .null

def ensureAll (vs : Variables) (names : List String) : Variables :=
  names.foldl ensure vs

def setAll (vs : Variables) (values : List (String × Value)) : Variables :=
  values.foldl (fun vs (name, v) => vs.set name v) vs

end Variables

/-- A function gets its evaluated arguments in order and the strategy in force. -/
structure Function where
  name : String
  apply : Strategy → List Value → Result

structure Functions where
  entries : List Function := []

namespace Functions

def find? (fs : Functions) (name : String) : Option Function :=
  Named.find? Function.name name fs.entries

/-- Adds a function, in the place of one with the same name. -/
def add (fs : Functions) (f : Function) : Functions :=
  ⟨Named.put Function.name f.name (fun _ => f) f fs.entries⟩

def remove (fs : Functions) (name : String) : Functions :=
  ⟨Named.remove Function.name name fs.entries⟩

def names (fs : Functions) : List String := fs.entries.map Function.name

def addAll (fs : Functions) (more : List Function) : Functions := more.foldl add fs

end Functions

end Formula
