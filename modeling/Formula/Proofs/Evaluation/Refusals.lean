import Formula.Proofs.Evaluation.Histories
import Formula.Proofs.Lexical.Formulas

/-!
# Drafts that are refused

A draft is what a calculator is given to read, a text or tokens. One that cannot be read is refused
when the text is cut into tokens, when the tokens are taken for items, or when the items are
arranged into a program. Wherever that is, the draft leaves its text behind and nothing else: no
part of the formula before it and no part of its own. What the calculator holds beside the formula
stays, and the next draft is read as by a calculator that has read nothing.
-/

namespace Formula

/-- What a formula is read from. -/
inductive Draft
  | text (content : String)
  | tokens (content : List Token)

namespace Draft

def expression : Draft → String
  | .text content => content
  | .tokens content => Parsed.compose content

def cut : Draft → Except SyntaxError (List Token)
  | .text content => Parsed.tokensOf content
  | .tokens content => .ok content

/-- The three places where a draft is refused. -/
inductive Refused (d : Draft) (e : SyntaxError) : Prop
  | cut (h : d.cut = .error e)
  | items {tokens : List Token} (hcut : d.cut = .ok tokens)
      (h : Item.ofTokens tokens = .error e)
  | program {tokens : List Token} {items : List (Located Item)} (hcut : d.cut = .ok tokens)
      (hitems : Item.ofTokens tokens = .ok items) (h : Program.ofItems items = .error e)

end Draft

namespace Parsed

/-- What comes of a draft that is read in place of a formula. -/
def read (p : Parsed) : Draft → Parsed × Option SyntaxError
  | .text content => p.setText content
  | .tokens content => p.setTokens content

variable (p : Parsed) {d : Draft} {e : SyntaxError} {tokens : List Token}

theorem read_of_cut_error (h : d.cut = .error e) :
    p.read d = ({ p.clear with expression := d.expression }, some e) := by
  cases d with
  | text content =>
    have htokens : tokensOf content = .error e := h
    rw [read, setText, htokens]
    rfl
  | tokens content => cases h

theorem read_of_cut_ok (h : d.cut = .ok tokens) :
    p.read d = { p.clear with expression := d.expression }.parseTokens tokens := by
  cases d with
  | text content =>
    have htokens : tokensOf content = .ok tokens := h
    rw [read, setText, htokens]
    rfl
  | tokens content =>
    cases h
    rfl

/-- Wherever a draft is refused, its text is left and nothing of the formula before it. -/
theorem read_of_refused (h : d.Refused e) : p.read d = ({ expression := d.expression }, some e) := by
  cases h with
  | cut h =>
    rw [p.read_of_cut_error h]
    rfl
  | items hcut h =>
    rw [p.read_of_cut_ok hcut, parseTokens, h]
    rfl
  | program hcut hitems h =>
    rw [p.read_of_cut_ok hcut, parseTokens, hitems]
    dsimp only
    rw [h]
    rfl

theorem refused_of_read (h : (p.read d).2 = some e) : d.Refused e := by
  cases hcut : d.cut with
  | error fault =>
    rw [p.read_of_cut_error hcut] at h
    cases h
    exact .cut hcut
  | ok tokens =>
    rw [p.read_of_cut_ok hcut, parseTokens] at h
    cases hitems : Item.ofTokens tokens with
    | error fault =>
      rw [hitems] at h
      cases h
      exact .items hcut hitems
    | ok items =>
      rw [hitems] at h
      dsimp only at h
      cases hprogram : Program.ofItems items with
      | error fault =>
        rw [hprogram] at h
        cases h
        exact .program hcut hitems hprogram
      | ok program =>
        rw [hprogram] at h
        cases h

theorem read_eq_fresh (d : Draft) : p.read d = ({} : Parsed).read d := by
  cases d with
  | text content => rw [read, read, setText_eq, setText_eq]
  | tokens content => rw [read, read, setTokens_eq, setTokens_eq]

end Parsed

namespace Calculator

/-- The calculator after a draft, and the error if the draft was refused. -/
def read (c : Calculator) : Draft → Calculator × Option SyntaxError
  | .text content => c.setText content
  | .tokens content => c.setTokens content

theorem read_eq_take (c : Calculator) (d : Draft) : c.read d = c.take (c.parsed.read d) := by
  cases d <;> rfl

theorem parsed_read (c : Calculator) (d : Draft) :
    ((c.read d).1.parsed, (c.read d).2) = c.parsed.read d := by
  obtain ⟨vs, h⟩ := c.exists_take_eq (c.parsed.read d)
  rw [read_eq_take, h]

theorem error_read (c : Calculator) (d : Draft) : (c.read d).2 = (c.parsed.read d).2 :=
  congrArg Prod.snd (c.parsed_read d)

theorem read_of_refused {c : Calculator} {d : Draft} {e : SyntaxError} (h : d.Refused e) :
    c.read d = ({ c with parsed := { expression := d.expression } }, some e) := by
  rw [read_eq_take, c.parsed.read_of_refused h]
  rfl

/-- The draft that the formula is from after an action, when it was from `last` before. -/
def Action.draftAfter (last : Option Draft) : Action → Option Draft
  | .setText content => some (.text content)
  | .setTokens content => some (.tokens content)
  | .clear => none
  | _ => last

/-- What a draft leaves where nothing was read before, if there is a draft. -/
def formulaOf : Option Draft → Parsed
  | some d => (({} : Parsed).read d).1
  | none => {}

theorem parsed_perform {c : Calculator} {last : Option Draft} (h : c.parsed = formulaOf last)
    (action : Action) : (c.perform action).parsed = formulaOf (action.draftAfter last) := by
  have hread (d : Draft) : (c.read d).1.parsed = formulaOf (some d) := by
    rw [formulaOf, ← c.parsed.read_eq_fresh, ← c.parsed_read]
  cases action with
  | setText content => exact hread (.text content)
  | setTokens content => exact hread (.tokens content)
  | clear => rfl
  | _ => exact h

/-- The formula is always the whole formula of the last draft since the calculator was cleared. -/
theorem parsed_performAll {c : Calculator} {last : Option Draft} (h : c.parsed = formulaOf last)
    (actions : List Action) :
    (c.performAll actions).parsed = formulaOf (actions.foldl Action.draftAfter last) := by
  induction actions generalizing c last with
  | nil => exact h
  | cons action actions ih => exact ih (parsed_perform h action)

/-- Whatever was done before, a draft that is refused, at any of the three places, changes nothing
but the formula, of which its text alone is left, so that no evaluation gives a value. Whatever is
done then, the formula is that of the last draft, and the next draft leaves what it leaves where
nothing was read before. -/
theorem performAll_read_refused (c : Calculator) (actions : List Action) {d : Draft}
    {e : SyntaxError} (h : ((c.performAll actions).read d).2 = some e) :
    let before := c.performAll actions
    let after := (before.read d).1
    d.Refused e ∧ after = { before with parsed := { expression := d.expression } } ∧
      (∀ vs functions, after.evaluateWith vs functions = .error .emptyExpression) ∧
      ∀ later : List Action,
        (after.performAll later).parsed = formulaOf (later.foldl Action.draftAfter (some d)) ∧
        ∀ next : Draft,
          (((after.performAll later).read next).1.parsed, ((after.performAll later).read next).2) =
            ({} : Parsed).read next := by
  intro before after
  have hrefused : d.Refused e := before.parsed.refused_of_read (before.error_read d ▸ h)
  have hafter : after = { before with parsed := { expression := d.expression } } :=
    congrArg Prod.fst (read_of_refused hrefused)
  refine ⟨hrefused, hafter, fun vs functions => ?_, fun later => ⟨?_, fun next => ?_⟩⟩
  · rw [evaluateWith, hafter]
    rfl
  · refine parsed_performAll ?_ later
    rw [hafter, formulaOf, Parsed.read_of_refused _ hrefused]
  · rw [parsed_read, Parsed.read_eq_fresh]

/-- An unfinished sum after a formula with a variable. -/
theorem performAll_read_refused_sum :
    let c : Calculator := { functions := {} }
    let before := c.performAll [.setText "a", .setVariable "a" (.integer 7)]
    let after := (before.read (.text "1 +")).1
    (before.read (.text "1 +")).2 = some ⟨.unexpectedEnd, ⟨1, 3⟩⟩ ∧
      after = { before with parsed := { expression := "1 +" } } ∧
      after.evaluate = .error .emptyExpression := by
  intro c before after
  have htokens : Parsed.tokensOf "1 +" =
      .ok [⟨.integer, "1", ⟨1, 1⟩⟩, ⟨.symbol, "+", ⟨1, 3⟩⟩] := eq_ok_of_toOption <| by
    rw [Parsed.tokensOf, Lexicon.formulas_eq_ofRanges]
    decide +kernel
  have hfails : (before.read (.text "1 +")).2 = some ⟨.unexpectedEnd, ⟨1, 3⟩⟩ := by
    rw [error_read, Parsed.read_eq_fresh, Parsed.read, Parsed.setText, htokens]
    decide +kernel
  obtain ⟨-, hafter, hevaluate, -⟩ := performAll_read_refused c _ hfails
  exact ⟨hfails, hafter, hevaluate _ _⟩

end Calculator

end Formula
