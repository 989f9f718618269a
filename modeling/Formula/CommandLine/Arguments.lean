/-!
# Arguments of the command line

A command line names one of three commands. An argument that begins with a minus is an
option, unless it is the minus alone or comes after two minuses alone. A long option takes
its value after an equals sign or from the next argument, a short one also directly. An
option may be given once, and a value may not look like an option itself. Arguments are
taken in order, and the first that is out of place, or asks for help or for the version,
decides.
-/

namespace Formula.CommandLine

/-- Which form of a formula is listed. -/
inductive Stage
  | original
  | initial
  | final
  deriving DecidableEq, Repr

namespace Stage

def name : Stage → String
  | .original => "Original"
  | .initial => "Initial"
  | .final => "Postfix"

/-- The stage that a word names in any case. -/
def ofString? (word : String) : Option Stage :=
  let word := String.ofList (word.toList.map Char.toLower)
  if word = "original" ∨ word = "raw" then some .original
  else if word = "initial" ∨ word = "typed" then some .initial
  else if word = "postfix" ∨ word = "result" ∨ word = "rpn" then some .final
  else none

end Stage

structure EvalOptions where
  expression : String
  bindings : Option String := none
  strict : Bool := false
  pretty : Bool := false
  deriving DecidableEq, Repr

inductive Command
  | evaluate (options : EvalOptions)
  | tokens (expression : String) (stage : Stage)
  | functions
  | version
  | help
  deriving DecidableEq, Repr

/-- Why a command line has no meaning. -/
inductive UsageError
  | missingCommand
  | unknownCommand (name : String)
  | unexpected (argument : String)
  | missingValue (option : String)
  | repeated (option : String)
  | missingExpression
  | unknownStage (word : String)
  deriving DecidableEq, Repr

def UsageError.message : UsageError → String
  | .missingCommand => "a command is required: eval, tokens or functions"
  | .unknownCommand name => s!"unknown command '{name}'"
  | .unexpected argument => s!"unexpected argument '{argument}'"
  | .missingValue option => s!"a value is required for '{option}'"
  | .repeated option => s!"'{option}' cannot be used multiple times"
  | .missingExpression => "an expression is required"
  | .unknownStage word => s!"unknown token stage '{word}'"

/-- An option of a command: its long name, its letter, and whether it takes a value. -/
structure OptionForm where
  long : String
  short : Option Char
  takesValue : Bool
  deriving DecidableEq, Repr

/-- One thing that the arguments say. -/
inductive Word
  | positional (text : String)
  | given (option : String) (value : String)
  | help
  | bad (error : UsageError)
  deriving DecidableEq, Repr

def looksLikeOption (argument : String) : Bool :=
  match argument.toList with
  | '-' :: _ :: _ => true
  | _ => false

/-- An option that takes a value, with the value or without, before the other arguments. -/
def valueOf (option : String) (attached : Option (List Char)) (rest : List String) :
    Word × List String :=
  match attached with
  | some value => (.given option (String.ofList value), rest)
  | none =>
    match rest with
    | value :: rest =>
      if looksLikeOption value then (.bad (.missingValue option), rest)
      else (.given option value, rest)
    | [] => (.bad (.missingValue option), [])

/-- What follows an equals sign, if one comes first. -/
def afterEquals : List Char → Option (List Char)
  | '=' :: cs => some cs
  | _ => none

def longOption (forms : List OptionForm) (body : List Char) (rest : List String) :
    Word × List String :=
  let name := String.ofList (body.takeWhile (· != '='))
  let attached := afterEquals (body.dropWhile (· != '='))
  if name = "help" ∧ attached = none then (.help, rest)
  else
    match forms.find? fun f => f.long = name with
    | none => (.bad (.unexpected (String.ofList ('-' :: '-' :: body))), rest)
    | some f =>
      if f.takesValue then valueOf f.long attached rest
      else if attached = none then (.given f.long "", rest)
      else (.bad (.unexpected (String.ofList ('-' :: '-' :: body))), rest)

/-- The letters of an argument with one minus. -/
def shortOptions (forms : List OptionForm) (rest : List String) : List Char → List Word × List String
  | [] => ([], rest)
  | c :: cs =>
    if c = 'h' then ([.help], rest)
    else
      match forms.find? fun f => f.short = some c with
      | none => ([.bad (.unexpected (String.ofList ['-', c]))], rest)
      | some f =>
        if f.takesValue then
          let attached := if cs = [] then none else some ((afterEquals cs).getD cs)
          let (word, rest) := valueOf f.long attached rest
          ([word], rest)
        else
          let (words, rest) := shortOptions forms rest cs
          (.given f.long "" :: words, rest)

theorem length_valueOf_le (option : String) (attached : Option (List Char)) (rest : List String) :
    (valueOf option attached rest).2.length ≤ rest.length := by
  unfold valueOf
  split
  · simp
  · split
    · split <;> simp
    · simp

theorem length_longOption_le (forms : List OptionForm) (body : List Char) (rest : List String) :
    (longOption forms body rest).2.length ≤ rest.length := by
  unfold longOption
  simp only
  split
  · simp
  · split
    · simp
    · split
      · exact length_valueOf_le ..
      · split <;> simp

theorem length_shortOptions_le (forms : List OptionForm) (rest : List String) (cs : List Char) :
    (shortOptions forms rest cs).2.length ≤ rest.length := by
  induction cs with
  | nil => simp [shortOptions]
  | cons c cs ih =>
    unfold shortOptions
    split
    · simp
    · split
      · simp
      · split
        · exact length_valueOf_le ..
        · exact ih

def words (forms : List OptionForm) : List String → List Word
  | [] => []
  | argument :: rest =>
    match argument.toList with
    | ['-', '-'] => rest.map .positional
    | '-' :: '-' :: body =>
      have := length_longOption_le forms body rest
      (longOption forms body rest).1 :: words forms (longOption forms body rest).2
    | '-' :: c :: cs =>
      have := length_shortOptions_le forms rest (c :: cs)
      (shortOptions forms rest (c :: cs)).1 ++ words forms (shortOptions forms rest (c :: cs)).2
    | _ => .positional argument :: words forms rest
termination_by arguments => arguments.length
decreasing_by all_goals (simp only [List.length_cons]; omega)

/-- Arguments sorted into the expression and the options. -/
structure Sorted where
  expression : Option String := none
  options : List (String × String) := []

/-- What a command takes: its options, a condition on their values, and whether it takes an
expression. -/
structure CommandForm where
  options : List OptionForm := []
  check : String → String → Option UsageError := fun _ _ => none
  takesExpression : Bool := true

inductive Sorting
  | sorted (s : Sorted)
  | help
  | failed (e : UsageError)

/-- Sorts words into what the command takes, each at most once. -/
def sort (form : CommandForm) (s : Sorted) : List Word → Sorting
  | [] => .sorted s
  | .help :: _ => .help
  | .bad e :: _ => .failed e
  | .positional text :: rest =>
    if form.takesExpression && s.expression.isNone then
      sort form { s with expression := some text } rest
    else .failed (.unexpected text)
  | .given option value :: rest =>
    if (s.options.lookup option).isSome then .failed (.repeated option)
    else
      match form.check option value with
      | some e => .failed e
      | none => sort form { s with options := (option, value) :: s.options } rest

def evalForm : CommandForm where
  options := [⟨"vars", none, true⟩, ⟨"strict", none, false⟩, ⟨"pretty", some 'p', false⟩]

def checkStage (option value : String) : Option UsageError :=
  if option = "stage" ∧ Stage.ofString? value = none then some (.unknownStage value) else none

def tokensForm : CommandForm where
  options := [⟨"stage", some 's', true⟩]
  check := checkStage

def functionsForm : CommandForm where
  takesExpression := false

def evalCommand (s : Sorted) : Except UsageError Command :=
  match s.expression with
  | none => .error .missingExpression
  | some expression =>
    .ok (.evaluate
      { expression
        bindings := s.options.lookup "vars"
        strict := (s.options.lookup "strict").isSome
        pretty := (s.options.lookup "pretty").isSome })

def tokensCommand (s : Sorted) : Except UsageError Command :=
  match s.expression with
  | none => .error .missingExpression
  | some expression =>
    .ok (.tokens expression (((s.options.lookup "stage").bind Stage.ofString?).getD .final))

/-- The command made of the arguments after its name. -/
def commandOf (form : CommandForm) (make : Sorted → Except UsageError Command)
    (arguments : List String) : Except UsageError Command :=
  match sort form {} (words form.options arguments) with
  | .sorted s => make s
  | .help => .ok .help
  | .failed e => .error e

def commandNames : List String := ["eval", "tokens", "functions", "help"]

/-- Help on a command, or on the whole. No command has commands of its own. -/
def helpOn : List String → Except UsageError Command
  | [] => .ok .help
  | name :: rest =>
    if name ∈ commandNames then
      match rest with
      | [] => .ok .help
      | other :: _ => .error (.unknownCommand other)
    else .error (.unknownCommand name)

/-- An argument in the place of a command's name. Of several letters the first decides. -/
def withoutCommand (argument : String) : Except UsageError Command :=
  match argument.toList with
  | '-' :: '-' :: name =>
    if name = "version".toList then .ok .version
    else if name = "help".toList then .ok .help
    else .error (.unexpected argument)
  | '-' :: 'V' :: _ => .ok .version
  | '-' :: 'h' :: _ => .ok .help
  | '-' :: _ :: _ => .error (.unexpected argument)
  | _ => .error (.unknownCommand argument)

def parse (arguments : List String) : Except UsageError Command :=
  match arguments with
  | [] => .error .missingCommand
  | name :: rest =>
    if name = "eval" then commandOf evalForm evalCommand rest
    else if name = "tokens" then commandOf tokensForm tokensCommand rest
    else if name = "functions" then commandOf functionsForm (fun _ => .ok .functions) rest
    else if name = "help" then helpOn rest
    else withoutCommand name

end Formula.CommandLine
