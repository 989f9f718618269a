import Formula.Text.Quoted
import Formula.Text.Reader
import Formula.Value.Basic

/-!
# Operators and items

The operators of formulas, by where they stand. Each has a level, and the higher level
binds tighter. Operators of one level group to the left, except for the power, which groups
to the right like the operators in front of their operand.

A formula is a row of items: operands, operators, brackets and commas, each at a position.
A function name is an item of its own and is followed by its opening parenthesis.
-/

namespace Formula

inductive InfixOp
  | plus | minus | star | slash | percent | power | shiftLeft | shiftRight
  | equal | notEqual | more | less | moreEqual | lessEqual
  | and | or | xor | isIn | notIn | like | notLike
  deriving DecidableEq, Repr

inductive PrefixOp
  | negate | not
  deriving DecidableEq, Repr

inductive SuffixOp
  | isNull | isNotNull
  deriving DecidableEq, Repr

/-- An operator as it is applied; `element` takes a collection and a place in brackets. -/
inductive Operator
  | infixOp (op : InfixOp)
  | prefixOp (op : PrefixOp)
  | suffixOp (op : SuffixOp)
  | element
  deriving DecidableEq, Repr

namespace Operator

def level : Operator → Nat
  | infixOp .or => 1
  | infixOp .xor => 1
  | infixOp .and => 2
  | prefixOp .not => 3
  | infixOp .equal => 4
  | infixOp .notEqual => 4
  | infixOp .more => 4
  | infixOp .less => 4
  | infixOp .moreEqual => 4
  | infixOp .lessEqual => 4
  | suffixOp _ => 4
  | infixOp .isIn => 5
  | infixOp .notIn => 5
  | infixOp .like => 5
  | infixOp .notLike => 5
  | infixOp .shiftLeft => 6
  | infixOp .shiftRight => 6
  | infixOp .plus => 7
  | infixOp .minus => 7
  | infixOp .star => 8
  | infixOp .slash => 8
  | infixOp .percent => 8
  | infixOp .power => 9
  | prefixOp .negate => 10
  | element => 11

def groupsRight : Operator → Bool
  | infixOp .power => true
  | prefixOp _ => true
  | _ => false

/-- How many operands the operator takes. -/
def arity : Operator → Nat
  | infixOp _ => 2
  | element => 2
  | prefixOp _ => 1
  | suffixOp _ => 1

/-- An operator `held` back takes its operands before `incoming` is read on: it binds
tighter, or as tightly when the level groups to the left. -/
def Yields (held incoming : Operator) : Prop :=
  incoming.level < held.level ∨ (held.level = incoming.level ∧ incoming.groupsRight = false)

instance (held incoming : Operator) : Decidable (held.Yields incoming) :=
  inferInstanceAs (Decidable (_ ∨ _))

end Operator

/-- Something with the position it stands at. -/
structure Located (α : Type) where
  value : α
  position : Text.Position

inductive Item
  | constant (v : Value)
  | variable (name : String)
  | function (name : String)
  | openParen
  | closeParen
  | openBracket
  | closeBracket
  | comma
  | infixOp (op : InfixOp)
  | prefixOp (op : PrefixOp)
  | suffixOp (op : SuffixOp)

/-- One step of a program: it puts a value on a stack or works on the values on top. -/
inductive Instr
  | push (v : Value)
  | load (name : String)
  | call (name : String) (arguments : Nat)
  | apply (op : Operator)

/-- The sorts of items and steps. The first one and the words `is` and `null` on their own
name what no finished formula holds. -/
inductive ItemKind
  | unknown
  | openParen
  | closeParen
  | openBracket
  | closeBracket
  | comma
  | operator (op : Operator)
  | is
  | null
  | function
  | variable
  | constant
  deriving DecidableEq, Repr

namespace InfixOp

def kind (op : InfixOp) : ItemKind := .operator (.infixOp op)

def name : InfixOp → String
  | plus => "Plus"
  | minus => "Minus"
  | star => "Star"
  | slash => "Slash"
  | percent => "Procent"
  | power => "Power"
  | shiftLeft => "ShiftLeft"
  | shiftRight => "ShiftRight"
  | equal => "Equal"
  | notEqual => "NotEqual"
  | more => "More"
  | less => "Less"
  | moreEqual => "EqualMore"
  | lessEqual => "EqualLess"
  | and => "And"
  | or => "Or"
  | xor => "Xor"
  | isIn => "In"
  | notIn => "NotIn"
  | like => "Like"
  | notLike => "NotLike"

end InfixOp

def PrefixOp.kind (op : PrefixOp) : ItemKind := .operator (.prefixOp op)

def SuffixOp.kind (op : SuffixOp) : ItemKind := .operator (.suffixOp op)

def Operator.name : Operator → String
  | .infixOp op => op.name
  | .prefixOp .negate => "Unary"
  | .prefixOp .not => "Not"
  | .suffixOp .isNull => "IsNull"
  | .suffixOp .isNotNull => "IsNotNull"
  | .element => "Element"

namespace ItemKind

def all : List ItemKind :=
  [unknown, openParen, closeParen, openBracket, closeBracket, comma,
    InfixOp.plus.kind, InfixOp.minus.kind, InfixOp.star.kind, InfixOp.slash.kind,
    InfixOp.percent.kind, InfixOp.power.kind, PrefixOp.negate.kind,
    InfixOp.shiftLeft.kind, InfixOp.shiftRight.kind,
    InfixOp.equal.kind, InfixOp.notEqual.kind, InfixOp.more.kind, InfixOp.less.kind,
    InfixOp.moreEqual.kind, InfixOp.lessEqual.kind,
    InfixOp.and.kind, InfixOp.or.kind, InfixOp.xor.kind, PrefixOp.not.kind,
    is, InfixOp.isIn.kind, InfixOp.notIn.kind, InfixOp.like.kind, InfixOp.notLike.kind,
    SuffixOp.isNull.kind, SuffixOp.isNotNull.kind, null, operator .element,
    .function, .variable, .constant]

def name : ItemKind → String
  | unknown => "Unknown"
  | openParen => "LeftBrace"
  | closeParen => "RightBrace"
  | openBracket => "LeftSquareBrace"
  | closeBracket => "RightSquareBrace"
  | comma => "Comma"
  | operator op => op.name
  | is => "Is"
  | null => "Null"
  | function => "Function"
  | .variable => "Variable"
  | constant => "Constant"

def operator? : ItemKind → Option Operator
  | operator op => some op
  | _ => none

def level? (k : ItemKind) : Option Nat := k.operator?.map Operator.level

def groupsRight (k : ItemKind) : Bool := (k.operator?.map Operator.groupsRight).getD false

def hasArity (k : ItemKind) (n : Nat) : Bool := k.operator?.map Operator.arity == some n

theorem mem_all (k : ItemKind) : k ∈ all := by
  cases k with
  | operator op => cases op with
    | infixOp op => cases op <;> decide
    | prefixOp op => cases op <;> decide
    | suffixOp op => cases op <;> decide
    | element => decide
  | _ => decide

end ItemKind

def Item.kind : Item → ItemKind
  | .constant _ => .constant
  | .variable _ => .variable
  | .function _ => .function
  | .openParen => .openParen
  | .closeParen => .closeParen
  | .openBracket => .openBracket
  | .closeBracket => .closeBracket
  | .comma => .comma
  | .infixOp op => op.kind
  | .prefixOp op => op.kind
  | .suffixOp op => op.kind

def Instr.kind : Instr → ItemKind
  | .push _ => .constant
  | .load _ => .variable
  | .call .. => .function
  | .apply op => .operator op

/-- A constant with its kind, or, for text, escaped between quotes. -/
def constantLine (v : Value) : String :=
  match v with
  | .string s =>
    let text := Text.Escaped.encode s
    s!"Constant {text}"
  | v => s!"Constant {v.text} ({v.kind.name})"

def Item.describe : Item → String
  | .constant v => constantLine v
  | .variable name => s!"Variable {name}"
  | .function name => s!"Function {name}/0"
  | i => i.kind.name

def Instr.describe : Instr → String
  | .push v => constantLine v
  | .load name => s!"Variable {name}"
  | .call name arguments => s!"Function {name}/{arguments}"
  | .apply op => op.name

/-- Items are the same when they mean the same, wherever they stand. -/
def Item.same : Item → Item → Bool
  | .constant v, .constant w => v.same w
  | .variable a, .variable b => a == b
  | .function a, .function b => a == b
  | i, j => i.kind == j.kind && i.kind != .constant && i.kind != .variable && i.kind != .function

def Instr.same : Instr → Instr → Bool
  | .push v, .push w => v.same w
  | .load a, .load b => a == b
  | .call a m, .call b n => a == b && m == n
  | .apply a, .apply b => a == b
  | _, _ => false

end Formula
