import Formula.Text.Characters

/-!
# Quoted and escaped text

A quote character inside quoted text is written twice. Encoding wraps a text in the quote and doubles the
quotes inside it; decoding undoes both and leaves text that is not wrapped as it is. The scanner finds where
quoted text ends. Escaped text stands between double quotes and lets a reader tell all characters apart:
backslash and double quote are escaped, four controls have names, and every other character without a visible
form is written as its hexadecimal code.
-/

namespace Formula.Text.Quoted

/-- Every quote `q` of the text written twice. -/
def double (q : Char) (cs : List Char) : List Char :=
  cs.flatMap fun c => if c = q then [q, q] else [c]

/-- Pairs of quotes, taken from the left, written once. -/
def halve (q : Char) : List Char → List Char
  | [] => []
  | [c] => [c]
  | c :: d :: cs =>
    if c = q ∧ d = q then q :: halve q cs else c :: halve q (d :: cs)

def encode (q : Char) (cs : List Char) : List Char :=
  q :: double q cs ++ [q]

/-- What stands between the two outer quotes, if the text is wrapped in them. -/
def inner? (q : Char) : List Char → Option (List Char)
  | [] => none
  | c :: cs => if c = q ∧ cs.getLast? = some q then some cs.dropLast else none

def decode (q : Char) (cs : List Char) : List Char :=
  match inner? q cs with
  | some inside => halve q inside
  | none => cs

/-- The rest of a quoted text whose opening quote is gone, up to and with its closing
quote, and what follows; none if no quote closes it. -/
def scan? (q : Char) : List Char → Option (List Char × List Char)
  | [] => none
  | [c] => if c = q then some ([c], []) else none
  | c :: d :: cs =>
    if c = q then
      if d = q then (scan? q cs).map fun (body, rest) => (c :: d :: body, rest)
      else some ([c], d :: cs)
    else (scan? q (d :: cs)).map fun (body, rest) => (c :: body, rest)

theorem scan?_append {q : Char} {cs body rest : List Char}
    (h : scan? q cs = some (body, rest)) : cs = body ++ rest := by
  fun_induction scan? q cs generalizing body rest with
  | case1 => simp at h
  | case2 => simp_all
  | case3 => simp at h
  | case4 cs ih =>
    obtain ⟨⟨b, r⟩, hs, he⟩ := Option.map_eq_some_iff.1 h
    cases he
    simp [ih hs]
  | case5 =>
    obtain ⟨rfl, rfl⟩ := Prod.mk.inj (Option.some.inj h)
    simp_all
  | case6 c d cs _ ih =>
    obtain ⟨⟨b, r⟩, hs, he⟩ := Option.map_eq_some_iff.1 h
    cases he
    simp [← ih hs]

end Formula.Text.Quoted

namespace Formula.Text.Escaped

def hexDigits (n : Nat) : List Char := Nat.toDigits 16 n

def escapeChar (c : Char) : List Char :=
  match c with
  | '\x00' => ['\\', '0']
  | '\t' => ['\\', 't']
  | '\n' => ['\\', 'n']
  | '\r' => ['\\', 'r']
  | '"' => ['\\', '"']
  | '\\' => ['\\', '\\']
  | c => if Invisible.isInvisible c then ['\\', 'u', '\x7b'] ++ hexDigits c.toNat ++ ['\x7d'] else [c]

def encode (text : String) : String :=
  String.ofList ('"' :: text.toList.flatMap escapeChar ++ ['"'])

end Formula.Text.Escaped
