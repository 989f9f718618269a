import Formula.Operations.Strategy
import Formula.Text.Regex

/-!
# Comparison, membership and patterns

Null equals null and nothing else; in any other comparison null makes the result null.
Values are compared after coercion to their common kind. What is no number is neither
before nor after anything, so every comparison of order with it is false.
-/

namespace Formula

open Number

namespace Value

/-- The order of two values of one ordered kind; `some none` if they have none, and `none`
if their kinds do not agree or have no order. -/
def compare? (a b : Value) : Option (Option Ordering) :=
  match a, b with
  | .integer x, .integer y => some (some (compare x.toInt y.toInt))
  | .long x, .long y => some (some (compare x.toInt y.toInt))
  | .float x, .float y => some (compareRanks? (rankSingle? x) (rankSingle? y))
  | .double x, .double y => some (compareRanks? (rankDouble? x) (rankDouble? y))
  | .boolean x, .boolean y => some (some (compare x.toNat y.toNat))
  | .string x, .string y => some (some (compareOfLessAndEq x y))
  | .dateTime x, .dateTime y => some (some (Time.Moment.compare x y))
  | .timeSpan x, .timeSpan y => some (some (compare x.nanos y.nanos))
  | _, _ => none

end Value

namespace Strategy

variable (s : Strategy)

/-- Null, or whether the order of the operands is accepted. -/
def ordering (operation : Operation) (accept : Ordering → Bool) (a b : Value) : Result :=
  if a.isNull || b.isNull then .ok .null
  else
    match s.coercePair .comparison a b with
    | .error e => .error e
    | .ok (x, y) =>
      match x.compare? y with
      | some order => .ok (.boolean (order.any accept))
      | none => .error (.unsupported operation x.kind)

def more (a b : Value) : Result := s.ordering .more Ordering.isGT a b

def less (a b : Value) : Result := s.ordering .less Ordering.isLT a b

def moreEqual (a b : Value) : Result := s.ordering .moreEqual Ordering.isGE a b

def lessEqual (a b : Value) : Result := s.ordering .lessEqual Ordering.isLE a b

def equal (a b : Value) : Result :=
  if a.isNull || b.isNull then .ok (.boolean (a.isNull && b.isNull))
  else
    match s.coercePair .comparison a b with
    | .error e => .error e
    | .ok (x, y) => .ok (.boolean (x.same y))

def opposite : Value → Value
  | .boolean b => .boolean (!b)
  | v => v

def notEqual (a b : Value) : Result := (s.equal a b).map opposite

/-- The values are equal, as far as they can be compared at all. -/
def matchesItem (a b : Value) : Bool :=
  match s.equal a b with
  | .ok (.boolean b) => b
  | _ => false

def isIn (v collection : Value) : Result :=
  match collection with
  | .array items => .ok (.boolean (items.any fun item => s.matchesItem v item))
  | c => .error (.unsupported .isIn c.kind)

def notIn (v collection : Value) : Result := (s.isIn v collection).map opposite

/-- Texts are matched with wildcards in the pattern, in either case. -/
def like (v pattern : Value) : Result :=
  if v.isNull || pattern.isNull then .ok .null
  else
    match s.convert v .string with
    | .error e => .error e
    | .ok text =>
      match s.convert pattern .string with
      | .error e => .error e
      | .ok pattern =>
        match text, pattern with
        | .string t, .string p =>
          match Text.Wildcard.regex? p.toList with
          | some r => .ok (.boolean (r.isMatch t.toList))
          | none => .error (.invalidArgument (.unreadablePattern p))
        | _, _ => .error (.unsupported .like v.kind)

def notLike (v pattern : Value) : Result := (s.like v pattern).map opposite

def toIndex (index : Value) : Except EvalError Int :=
  match index with
  | .integer n => .ok n.toInt
  | .long n => .ok n.toInt
  | v =>
    match s.convert v .long with
    | .ok (.long n) => .ok n.toInt
    | .ok _ => .error (.unsupported .element v.kind)
    | .error e => .error e

/-- The item of an array or the character of a string at a place, counted from zero. -/
def element (collection index : Value) : Result :=
  if collection.isNull then .ok .null
  else
    match s.toIndex index with
    | .error e => .error e
    | .ok i =>
      let outside : EvalError := .indexOutOfRange i collection.length
      if i < 0 then .error outside
      else
        match collection with
        | .array items =>
          match items[i.toNat]? with
          | some v => .ok v
          | none => .error outside
        | .string text =>
          match text.toList[i.toNat]? with
          | some c => .ok (.string (String.ofList [c]))
          | none => .error outside
        | v => .error (.unsupported .element v.kind)

end Strategy

end Formula
