import Formula.Proofs.Lexical.Pieces

/-!
# Writing formulas

A term is a formula without positions and without parentheses. It is written with
parentheses round every operand that has an operator of its own; they may stand round other
operands as well. Its steps are those of the program, operands first.
-/

namespace Formula

mutual

inductive Term
  | number (n : Nat) (h : n < 9223372036854775808)
  | text (s : String)
  | truth (b : Bool)
  | null
  | variable (name : String)
  | callEmpty (name : String)
  | call (name : String) (args : TermArgs)
  | prefixOp (op : PrefixOp) (e : Term)
  | suffixOp (e : Term) (op : SuffixOp)
  | infixOp (left : Term) (op : InfixOp) (right : Term)
  | element (collection index : Term)

/-- At least one argument; the last one stands apart. -/
inductive TermArgs
  | one (e : Term)
  | more (before : TermArgs) (e : Term)

end

def TermArgs.size : TermArgs → Nat
  | .one _ => 1
  | .more before _ => before.size + 1

mutual

/-- The steps of a term, operands first. A number is an integer of the narrowest kind. -/
def Term.steps : Term → List Instr
  | .number n _ => [.push (Value.ofNat n)]
  | .text s => [.push (.string s)]
  | .truth b => [.push (.boolean b)]
  | .null => [.push .null]
  | .variable name => [.load name]
  | .callEmpty name => [.call name 0]
  | .call name args => args.steps ++ [.call name args.size]
  | .prefixOp op e => e.steps ++ [.apply (.prefixOp op)]
  | .suffixOp e op => e.steps ++ [.apply (.suffixOp op)]
  | .infixOp left op right => left.steps ++ right.steps ++ [.apply (.infixOp op)]
  | .element collection index => collection.steps ++ index.steps ++ [.apply .element]

def TermArgs.steps : TermArgs → List Instr
  | .one e => e.steps
  | .more before e => before.steps ++ e.steps

end

mutual

def Term.names : Term → List String
  | .number _ _ => []
  | .text _ => []
  | .truth _ => []
  | .null => []
  | .variable name => [name]
  | .callEmpty _ => []
  | .call _ args => args.names
  | .prefixOp _ e => e.names
  | .suffixOp e _ => e.names
  | .infixOp left _ right => left.names ++ right.names
  | .element collection index => collection.names ++ index.names

def TermArgs.names : TermArgs → List String
  | .one e => e.names
  | .more before e => before.names ++ e.names

end

def PrefixOp.piece : PrefixOp → Piece
  | .negate => .mark "-"
  | .not => .reserved "NOT"

def SuffixOp.pieces : SuffixOp → List Piece
  | .isNull => [.reserved "IS", .reserved "NULL"]
  | .isNotNull => [.reserved "IS", .reserved "NOT", .reserved "NULL"]

def InfixOp.pieces : InfixOp → List Piece
  | .plus => [.mark "+"]
  | .minus => [.mark "-"]
  | .star => [.mark "*"]
  | .slash => [.mark "/"]
  | .percent => [.mark "%"]
  | .power => [.mark "^"]
  | .shiftLeft => [.mark "<<"]
  | .shiftRight => [.mark ">>"]
  | .equal => [.mark "="]
  | .notEqual => [.mark "<>"]
  | .more => [.mark ">"]
  | .less => [.mark "<"]
  | .moreEqual => [.mark ">="]
  | .lessEqual => [.mark "<="]
  | .and => [.reserved "AND"]
  | .or => [.reserved "OR"]
  | .xor => [.reserved "XOR"]
  | .isIn => [.reserved "IN"]
  | .notIn => [.reserved "NOT", .reserved "IN"]
  | .like => [.reserved "LIKE"]
  | .notLike => [.reserved "NOT", .reserved "LIKE"]

namespace Piece

def enclose (wrapped : Bool) (ps : List Piece) : List Piece :=
  if wrapped then .mark "(" :: (ps ++ [.mark ")"]) else ps

end Piece

mutual

/-- The pieces of a term, where `wrap` says which operands stand in parentheses. -/
def Term.pieces (wrap : Term → Bool) : Term → List Piece
  | .number n _ => [.number n]
  | .text s => [.text s]
  | .truth true => [.reserved "TRUE"]
  | .truth false => [.reserved "FALSE"]
  | .null => [.reserved "NULL"]
  | .variable name => [.name name]
  | .callEmpty name => [.name name, .mark "(", .mark ")"]
  | .call name args => .name name :: .mark "(" :: (args.pieces wrap ++ [.mark ")"])
  | .prefixOp op e => op.piece :: Piece.enclose (wrap e) (e.pieces wrap)
  | .suffixOp e op => Piece.enclose (wrap e) (e.pieces wrap) ++ op.pieces
  | .infixOp left op right =>
    Piece.enclose (wrap left) (left.pieces wrap) ++
      (op.pieces ++ Piece.enclose (wrap right) (right.pieces wrap))
  | .element collection index =>
    Piece.enclose (wrap collection) (collection.pieces wrap) ++
      .mark "[" :: (Piece.enclose (wrap index) (index.pieces wrap) ++ [.mark "]"])

def TermArgs.pieces (wrap : Term → Bool) : TermArgs → List Piece
  | .one e => Piece.enclose (wrap e) (e.pieces wrap)
  | .more before e =>
    before.pieces wrap ++ .mark "," :: Piece.enclose (wrap e) (e.pieces wrap)

end

def Term.hasOperator : Term → Bool
  | .prefixOp _ _ => true
  | .suffixOp _ _ => true
  | .infixOp _ _ _ => true
  | .element _ _ => true
  | _ => false

end Formula
