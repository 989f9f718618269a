import Formula.Operations.Strategy

/-!
# Logic

Integers are combined bit by bit and truth values as such; everything else is read as a
truth value first. Integers of either width are combined as 64 bits. With null the result is
null.
-/

namespace Formula

/-- The two ways to compute one connective. -/
structure LogicRule where
  operation : Operation
  boolean : Bool → Bool → Bool
  bits : Int64 → Int64 → Int64

namespace LogicRule

def and : LogicRule where
  operation := .and
  boolean a b := a && b
  bits a b := a &&& b

def or : LogicRule where
  operation := .or
  boolean a b := a || b
  bits a b := a ||| b

def xor : LogicRule where
  operation := .xor
  boolean a b := a ^^ b
  bits a b := a ^^^ b

def apply (r : LogicRule) (a b : Value) : Result :=
  match a, b with
  | .boolean x, .boolean y => .ok (.boolean (r.boolean x y))
  | .integer x, .integer y => .ok (.integer (r.bits x.toInt64 y.toInt64).toInt32)
  | .long x, .long y => .ok (.long (r.bits x y))
  | a, _ => .error (.unsupported r.operation a.kind)

/-- The kind that two operands are combined in. -/
def commonKind (left right : Kind) : Kind :=
  match Kind.common .comparison left right with
  | .integer => .integer
  | .long => .long
  | _ => .boolean

end LogicRule

namespace Strategy

variable (s : Strategy)

def connect (r : LogicRule) (a b : Value) : Result :=
  if a.isNull || b.isNull then .ok .null
  else
    let target := LogicRule.commonKind a.kind b.kind
    match s.convert a target with
    | .error e => .error e
    | .ok x =>
      match s.convert b target with
      | .error e => .error e
      | .ok y => r.apply x y

def and (a b : Value) : Result := s.connect .and a b

def or (a b : Value) : Result := s.connect .or a b

def xor (a b : Value) : Result := s.connect .xor a b

def not (v : Value) : Result :=
  match v with
  | .null => .ok .null
  | .boolean b => .ok (.boolean (!b))
  | .integer n => .ok (.integer (~~~n))
  | .long n => .ok (.long (~~~n))
  | v =>
    match s.convert v .boolean with
    | .ok (.boolean b) => .ok (.boolean (!b))
    | .ok _ => .error (.unsupported .not v.kind)
    | .error e => .error e

end Strategy

end Formula
