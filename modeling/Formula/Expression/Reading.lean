import Formula.Expression.Item
import Formula.Lexical.Token
import Formula.Number.Numeral
import Formula.SyntaxError
import Formula.Text.Characters

/-!
# From tokens to items

Tokens become items from left to right. Symbols and reserved words become operators, where
a plus or a minus is taken as a sign when an operand is due; two or three reserved words
that belong together become one item; a word before an opening parenthesis is a function.
Layout is passed over. A plus sign leaves no item, but an operand has to follow it.
-/

namespace Formula

open Number

/-- A real number is of single precision unless only double precision holds it. -/
def realLiteral? (cs : List Char) : Option Value :=
  (double? cs).map fun x =>
    let y := narrow x
    if singleIsFinite y ∧ (rankDouble? x = some 0 ∨ rankSingle? y ≠ some 0) then .float y
    else .double x

/-- An integer is of the narrowest kind that holds it; beyond 64 bits it is a real number. -/
def integerLiteral? (cs : List Char) : Option Value :=
  match (integer? cs).bind int32? with
  | some n => some (.integer n)
  | none =>
    match (integer? cs).bind int64? with
    | some n => some (.long n)
    | none => realLiteral? cs

/-- What one token stands for, with the count of further tokens that belong to it. -/
inductive TokenMeaning
  | item (i : Item) (more : Nat)
  /-- A plus sign, which leaves no item. -/
  | plusSign
  | layout

namespace TokenMeaning

/-- An operand is due at the start and after every item that does not end one. -/
def operandDue : Option Item → Bool
  | none => true
  | some (.constant _) => false
  | some (.variable _) => false
  | some .closeParen => false
  | some .closeBracket => false
  | some (.suffixOp _) => false
  | some _ => true

def ofSymbol (due : Bool) (text : String) : Except SyntaxFault TokenMeaning :=
  let one (i : Item) : Except SyntaxFault TokenMeaning := .ok (.item i 0)
  match text with
  | "(" => one .openParen
  | ")" => one .closeParen
  | "[" => one .openBracket
  | "]" => one .closeBracket
  | "," => one .comma
  | "+" => if due then .ok .plusSign else one (.infixOp .plus)
  | "-" => if due then one (.prefixOp .negate) else one (.infixOp .minus)
  | "*" => one (.infixOp .star)
  | "/" => one (.infixOp .slash)
  | "%" => one (.infixOp .percent)
  | "^" => one (.infixOp .power)
  | "=" => one (.infixOp .equal)
  | "<>" => one (.infixOp .notEqual)
  | "!=" => one (.infixOp .notEqual)
  | ">" => one (.infixOp .more)
  | "<" => one (.infixOp .less)
  | ">=" => one (.infixOp .moreEqual)
  | "<=" => one (.infixOp .lessEqual)
  | "<<" => one (.infixOp .shiftLeft)
  | ">>" => one (.infixOp .shiftRight)
  | other => .error (.unknownSymbol other)

def isWordAt (rest : List Token) (place : Nat) (word : String) : Bool :=
  match rest[place]? with
  | some t => t.kind = .keyword && decide (Text.AsciiCase.Same t.text word)
  | none => false

def startsCall (rest : List Token) : Bool :=
  match rest with
  | t :: _ => t.kind = .symbol && t.text = "("
  | [] => false

def ofKeyword (text : String) (rest : List Token) : Except SyntaxFault TokenMeaning :=
  let one (i : Item) : Except SyntaxFault TokenMeaning := .ok (.item i 0)
  match String.ofList (text.toList.map Char.toUpper) with
  | "AND" => one (.infixOp .and)
  | "OR" => one (.infixOp .or)
  | "XOR" => one (.infixOp .xor)
  | "IN" => one (.infixOp .isIn)
  | "LIKE" => one (.infixOp .like)
  | "NOT" =>
    if isWordAt rest 0 "IN" then .ok (.item (.infixOp .notIn) 1)
    else if isWordAt rest 0 "LIKE" then .ok (.item (.infixOp .notLike) 1)
    else one (.prefixOp .not)
  | "IS" =>
    if isWordAt rest 0 "NULL" then .ok (.item (.suffixOp .isNull) 1)
    else if isWordAt rest 0 "NOT" && isWordAt rest 1 "NULL" then
      .ok (.item (.suffixOp .isNotNull) 2)
    else .error (.danglingIs rest.isEmpty)
  | "NULL" => if startsCall rest then one (.function text) else one (.constant .null)
  | "TRUE" => one (.constant (.boolean true))
  | "FALSE" => one (.constant (.boolean false))
  | _ => .error (.unknownKeyword text)

def ofLiteral (value : Option Value) (text : String) : Except SyntaxFault TokenMeaning :=
  match value with
  | some v => .ok (.item (.constant v) 0)
  | none => .error (.invalidNumber text)

/-- The meaning of a token before the tokens `rest`. -/
def ofToken (due : Bool) (t : Token) (rest : List Token) : Except SyntaxFault TokenMeaning :=
  match t.kind with
  | .symbol => ofSymbol due t.text
  | .keyword => ofKeyword t.text rest
  | .integer => ofLiteral (integerLiteral? t.text.toList) t.text
  | .float => ofLiteral (realLiteral? t.text.toList) t.text
  | .number => ofLiteral (realLiteral? t.text.toList) t.text
  | .quoted => .ok (.item (.constant (.string t.text)) 0)
  | .word =>
    .ok (.item (if startsCall rest then .function t.text else .variable t.text) 0)
  | .whitespace => .ok .layout
  | .comment => .ok .layout
  | .eof => .ok .layout
  | .unknown => .error (.unknownCharacter t.text)
  | .special => .error (.unknownCharacter t.text)

end TokenMeaning

namespace Item

/-- Items that cannot come after a plus sign, since no operand starts with them. -/
def closesOperand : Item → Bool
  | .infixOp _ => true
  | .closeParen => true
  | .closeBracket => true
  | .comma => true
  | _ => false

/-- The items of the tokens after `last`, with the position of a plus sign that still waits
for its operand. -/
def ofTokensAfter (last : Option Item) (sign : Option Text.Position) :
    List Token → Except SyntaxError (List (Located Item))
  | [] =>
    match sign with
    | some p => .error ⟨.danglingPlus, p⟩
    | none => .ok []
  | t :: rest =>
    match TokenMeaning.ofToken (TokenMeaning.operandDue last) t rest with
    | .error fault => .error ⟨fault, t.position⟩
    | .ok .layout => ofTokensAfter last sign rest
    | .ok .plusSign => ofTokensAfter last (some t.position) rest
    | .ok (.item i more) =>
      match sign with
      | some p =>
        if i.closesOperand then .error ⟨.missingOperand, p⟩
        else
          match ofTokensAfter (some i) none (rest.drop more) with
          | .ok items => .ok (⟨i, t.position⟩ :: items)
          | .error e => .error e
      | none =>
        match ofTokensAfter (some i) none (rest.drop more) with
        | .ok items => .ok (⟨i, t.position⟩ :: items)
        | .error e => .error e
termination_by tokens => tokens.length
decreasing_by all_goals (simp only [List.length_cons, List.length_drop]; omega)

def ofTokens (tokens : List Token) : Except SyntaxError (List (Located Item)) :=
  ofTokensAfter none none tokens

/-- The names of variables in order of appearance, each in its first spelling. -/
def variableNames (items : List (Located Item)) : List String :=
  items.foldl
    (fun names i =>
      match i.value with
      | .variable name =>
        if names.any fun known => decide (Text.AsciiCase.Same known name) then names
        else names ++ [name]
      | _ => names)
    []

end Item

end Formula
