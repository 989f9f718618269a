import Formula.Text.Characters

/-!
# Regular expressions

The part of the language of regular expressions that wildcard patterns are turned into. An expression
is a row of characters, each a letter or the point for any character; behind a star one may stand any
number of times. A backslash makes a letter of a character that has a meaning of its own. An expression
is looked for anywhere in a text, and only its anchors hold it to the beginning and the end. The search
works through the expression from its end and keeps, for every place in the text, whether the rest of
the expression matches there, so its work is the product of the two lengths.

In a wildcard pattern the percent sign stands for any run of characters, the underscore for one character,
and every other character for itself in either case; its expression has anchors at both ends.
-/

namespace Formula.Text

namespace Regex

/-- The characters that have a meaning of their own. -/
def metaCharacters : List Char :=
  ['\\', '.', '+', '*', '?', '(', ')', '|', '[', ']', '{', '}', '^', '$', '#', '&', '-', '~']

/-- The expression of one character as a letter. -/
def escape (c : Char) : List Char := if c ∈ metaCharacters then ['\\', c] else [c]

/-- What takes one character of the text. -/
inductive Single
  | any
  | letter (c : Char)
  deriving DecidableEq, Repr

inductive Symbol
  | single (x : Single)
  | start
  | stop
  | star
  deriving DecidableEq, Repr

/-- A character that no backslash stands before; groups, choices and other ways to repeat are not
part of the language. -/
def symbol? (c : Char) : Option Symbol :=
  if c = '.' then some (.single .any)
  else if c = '^' then some .start
  else if c = '$' then some .stop
  else if c = '*' then some .star
  else if c ∈ metaCharacters then none
  else some (.single (.letter c))

def symbols? : List Char → Option (List Symbol)
  | [] => some []
  | '\\' :: c :: cs =>
    if c ∈ metaCharacters then (symbols? cs).map (.single (.letter c) :: ·) else none
  | c :: cs =>
    match symbol? c with
    | some x => (symbols? cs).map (x :: ·)
    | none => none

inductive Atom
  | start
  | stop
  | one (x : Single)
  | many (x : Single)
  deriving DecidableEq, Repr

def atoms? : List Symbol → Option (List Atom)
  | [] => some []
  | .start :: rest => (atoms? rest).map (.start :: ·)
  | .stop :: rest => (atoms? rest).map (.stop :: ·)
  | .star :: _ => none
  | .single x :: .star :: rest => (atoms? rest).map (.many x :: ·)
  | .single x :: rest => (atoms? rest).map (.one x :: ·)

/-- How letters and the point are to be taken. -/
structure Options where
  ignoreCase : Bool := false
  pointTakesLineFeed : Bool := false

end Regex

/-- An expression that was read. -/
structure Regex where
  options : Regex.Options
  atoms : List Regex.Atom

namespace Regex

def ofChars? (o : Options) (source : List Char) : Option Regex :=
  ((symbols? source).bind atoms?).map fun atoms => ⟨o, atoms⟩

def Single.takes (o : Options) (x : Single) (c : Char) : Bool :=
  match x with
  | .any => o.pointTakesLineFeed || c != '\n'
  | .letter d => if o.ignoreCase then decide (CaseFolding.Same c d) else c == d

/-- Verdicts are kept for the beginning of the text only. -/
def startRow : List Bool → List Bool
  | [] => []
  | r :: rs => r :: rs.map fun _ => false

/-- Verdicts are kept for the end of the text only. -/
def stopRow : List Bool → List Bool
  | [] => []
  | [r] => [r]
  | _ :: rs => false :: stopRow rs

/-- A character that is taken leads to the verdict on the next place. -/
def oneRow (takes : Char → Bool) : List Char → List Bool → List Bool
  | c :: cs, _ :: rs => (takes c && rs.headD false) :: oneRow takes cs rs
  | _, rs => rs.map fun _ => false

def manyRow (takes : Char → Bool) : List Char → List Bool → List Bool
  | c :: cs, r :: rs =>
    let later := manyRow takes cs rs
    (r || takes c && later.headD false) :: later
  | _, rs => rs

/-- One atom before the verdicts on all places of the text, the beginning first and the end last. -/
def Atom.row (o : Options) (a : Atom) (text : List Char) (verdicts : List Bool) : List Bool :=
  match a with
  | .start => startRow verdicts
  | .stop => stopRow verdicts
  | .one x => oneRow (x.takes o) text verdicts
  | .many x => manyRow (x.takes o) text verdicts

/-- With nothing more to match every place will do. -/
def everywhere (text : List Char) : List Bool := List.replicate (text.length + 1) true

def verdicts (o : Options) (text : List Char) (atoms : List Atom) : List Bool :=
  atoms.foldr (fun a row => a.row o text row) (everywhere text)

def isMatch (r : Regex) (text : List Char) : Bool := (verdicts r.options text r.atoms).any id

end Regex

end Formula.Text

namespace Formula.Text.Wildcard

def charExpression (c : Char) : List Char :=
  if c = '%' then ['.', '*'] else if c = '_' then ['.'] else Regex.escape c

def expression (pattern : List Char) : List Char :=
  '^' :: (pattern.flatMap charExpression ++ ['$'])

/-- Case does not count, and wildcards go across the ends of lines. -/
def options : Regex.Options where
  ignoreCase := true
  pointTakesLineFeed := true

def regex? (pattern : List Char) : Option Regex := Regex.ofChars? options (expression pattern)

end Formula.Text.Wildcard
