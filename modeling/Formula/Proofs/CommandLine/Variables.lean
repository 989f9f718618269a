import Formula.CommandLine.Commands
import Formula.Proofs.Evaluation.Histories
import Formula.Proofs.Json.Nesting
import Formula.Proofs.Lexical.Formulas
import Formula.Proofs.Number.Nearest
import Formula.Proofs.Value.Json

/-!
# Variables of a command

The formula of one name gives the member of that name in the JSON object of variables: as it was,
unless an integer in it is beyond 64 signed bits, which comes back as the nearest double. The
object is read from a text, which must not be nested too deep.
-/

namespace Formula

theorem Parsed.exists_ofTokensNamed_word (text name : String) (position : Text.Position) :
    ∃ p, ofTokensNamed text [⟨.word, name, position⟩] = .ok p ∧
      p.program = [⟨.load name, position⟩] := by
  have hreads : Reads none none [⟨.word, name, position⟩] [⟨.variable name, position⟩] :=
    .item rfl nofun (.done _)
  have hprogram : Program.ofItems [⟨.variable name, position⟩] = .ok [⟨.load name, position⟩] := rfl
  exact ⟨_, ofTokensNamed_eq_ok hreads hprogram text, rfl⟩

theorem Parsed.exists_ofText_x :
    ∃ p, ofText "x" = .ok p ∧ p.program = [⟨.load "x", ⟨1, 1⟩⟩] := by
  have htokens : tokensOf "x" = .ok [⟨.word, "x", ⟨1, 1⟩⟩] := eq_ok_of_toOption <| by
    rw [tokensOf, Lexicon.formulas_eq_ofRanges]
    decide +kernel
  rw [ofText, htokens]
  exact exists_ofTokensNamed_word "x" "x" ⟨1, 1⟩

theorem Calculator.evaluate_load {c : Calculator} {name : String} {position : Text.Position}
    {v : Value} (hprogram : c.parsed.program = [⟨.load name, position⟩])
    (hvalue : c.bindings.value? name = some v) : c.evaluate = .ok v := by
  rw [evaluate, evaluateWith, hprogram]
  simp [Environment.evaluate, Environment.run, Environment.step, Environment.load,
    Environment.pushResult, hvalue, ValueStack.push]

namespace CommandLine

open Number

section Members

variable {around : Surroundings} {options : EvalOptions} {text name : String} {j : Json}

theorem variablesOf_member (h : Json.parse? text = some (.object [(name, j)])) :
    variablesOf text = .ok [(name, j.toValue)] := by
  simp [variablesOf, h]

theorem variablesOf_invalid (h : Json.parse? text = none) :
    variablesOf text = .error .invalidJson := by
  rw [variablesOf, h]

theorem evaluate_member {p : Parsed} {position : Text.Position}
    (hformula : Parsed.ofText options.expression = .ok p)
    (hprogram : p.program = [⟨.load name, position⟩]) (hbindings : options.bindings = some text)
    (h : Json.parse? text = some (.object [(name, j)])) :
    evaluate around options = .ok j.toValue := by
  have hvalue (vs : Variables) : (vs.setAll [(name, j.toValue)]).value? name = some j.toValue := by
    rw [Variables.setAll, List.foldl_cons, List.foldl_nil, Variables.value?_set]
    exact if_pos rfl
  rw [evaluate, Calculator.setText, Parsed.setText_eq, hformula, Calculator.take_ok rfl]
  simp only [hbindings, variablesOf_member h, bind, Except.bind]
  rw [Calculator.evaluate_load hprogram (hvalue _)]

/-- Variables that cannot be read stop an evaluation of any formula. -/
theorem evaluate_of_unreadable {p : Parsed} {e : CommandError}
    (hformula : Parsed.ofText options.expression = .ok p) (hbindings : options.bindings = some text)
    (h : variablesOf text = .error e) : evaluate around options = .error e := by
  rw [evaluate, Calculator.setText, Parsed.setText_eq, hformula, Calculator.take_ok rfl]
  simp only [hbindings, h, bind, Except.bind]

theorem runEval_of_ok {v : Value} (hbindings : options.bindings = some text)
    (h : evaluate around options = .ok v) (input : String) :
    runEval around options input =
      { code := 0
        out := (if options.pretty then v.toJson.indented else v.toJson.compact) ++ "\n" } := by
  have hinput : withInput options input = options := by rw [withInput, hbindings]
  rw [runEval, hinput, h]

theorem runEval_of_error {e : CommandError} (hbindings : options.bindings = some text)
    (h : evaluate around options = .error e) (input : String) :
    runEval around options input = .failed e := by
  have hinput : withInput options input = options := by rw [withInput, hbindings]
  rw [runEval, hinput, h]

end Members

/-- JSON that was a value comes back with doubles for the integers outside of its objects that are
beyond 64 signed bits, and so the same if there are none; the double of an integer is the nearest
one. What the formula `x` gives for a text that is read as an object with the member `x` is that
member as a value, printed as it comes back. A text that would be read if values might nest deeper
than they may fails as no JSON. -/
theorem evaluate_x_gives_member (around : Surroundings) (strict pretty : Bool) :
    (∀ j : Json, j.toValue.toJson = j.withDoubles ∧ (j.toValue.toJson = j ↔ j.Signed)) ∧
      (∀ n : Int, FitsJson n → NearestDouble (doubleOfInt n) n) ∧
      ∀ text : String,
        let options : EvalOptions := ⟨"x", some text, strict, pretty⟩
        let printed (j : Json) : String := (if pretty then j.indented else j.compact) ++ "\n"
        (∀ j : Json, Json.parse? text = some (.object [("x", j)]) →
          evaluate around options = .ok j.toValue ∧
          (∀ input, runEval around options input = { code := 0, out := printed j.withDoubles }) ∧
          (j.Signed → ∀ input, runEval around options input = { code := 0, out := printed j })) ∧
        ∀ (levels : Nat) (j : Json), Json.parseWithin? levels text = some j →
          Json.mostNested < j.nesting → evaluate around options = .error .invalidJson ∧
            ∀ input, runEval around options input = .failed .invalidJson := by
  have hback (j : Json) : j.toValue.toJson = j ↔ j.Signed := by
    rw [j.toJson_toValue]
    exact j.withDoubles_eq_iff
  refine ⟨fun j => ⟨j.toJson_toValue, hback j⟩, fun n h => nearestDouble_doubleOfInt h.log2_lt,
    fun text => ?_⟩
  intro options printed
  obtain ⟨p, hp, hprogram⟩ := Parsed.exists_ofText_x
  constructor
  · intro j htext
    have hvalue : evaluate around options = .ok j.toValue := evaluate_member hp hprogram rfl htext
    have hrun := runEval_of_ok rfl hvalue
    refine ⟨hvalue, fun input => ?_, fun hsigned input => ?_⟩
    · rw [hrun, j.toJson_toValue]
    · rw [hrun, (hback j).mpr hsigned]
  · intro levels j htext hdeep
    have hfails : evaluate around options = .error .invalidJson :=
      evaluate_of_unreadable hp rfl (variablesOf_invalid (Json.parse?_of_nesting htext hdeep))
    exact ⟨hfails, runEval_of_error rfl hfails⟩

/-- The start of 1970, when all random numbers are zero. -/
def atEpoch : Surroundings := ⟨⟨0, 0, by decide, by decide, by decide⟩, 0⟩

/-- Integers of three widths, the widest of them in an object. -/
theorem evaluate_x_gives_member_widths :
    let text := "\x7b\"x\": [1, -5000000000, \x7b\"k\": 18446744073709551615\x7d]\x7d"
    ∃ j, Json.parse? text = some (.object [("x", j)]) ∧ j.Signed ∧
      evaluate atEpoch ⟨"x", some text, false, false⟩ = .ok j.toValue ∧ j.toValue.toJson = j := by
  have htext : Json.parse? "\x7b\"x\": [1, -5000000000, \x7b\"k\": 18446744073709551615\x7d]\x7d" =
      some (.object [("x", .array [.number (.whole 1 (by decide)),
        .number (.whole (-5000000000) (by decide)),
        .object [("k", .number (.whole 18446744073709551615 (by decide)))]])]) := by cbv
  have hsigned : Json.Signed (.array [.number (.whole 1 (by decide)),
      .number (.whole (-5000000000) (by decide)),
      .object [("k", .number (.whole 18446744073709551615 (by decide)))]]) := by
    simp only [Json.Signed, Json.AllSigned]
    decide
  obtain ⟨hback, -, hevaluate⟩ := evaluate_x_gives_member atEpoch false false
  exact ⟨_, htext, hsigned, ((hevaluate _).1 _ htext).1, (hback _).2.mpr hsigned⟩

/-- The greatest integer of 64 bits without sign comes back as a double, and a member that is
nested in 127 arrays is not read at all. -/
theorem evaluate_x_changes_member :
    (∃ j, Json.parse? "\x7b\"x\": 18446744073709551615\x7d" = some (.object [("x", j)]) ∧
      ∃ v, evaluate atEpoch ⟨"x", some "\x7b\"x\": 18446744073709551615\x7d", false, false⟩ = .ok v ∧
        v.toJson ≠ j) ∧
      evaluate atEpoch ⟨"x", some (String.ofList ("\x7b\"x\":".toList ++
        (List.replicate 127 '[' ++ (List.replicate 127 ']' ++ ['\x7d'])))), false, false⟩ =
          .error .invalidJson := by
  obtain ⟨p, hp, hprogram⟩ := Parsed.exists_ofText_x
  constructor
  · have htext : Json.parse? "\x7b\"x\": 18446744073709551615\x7d" =
        some (.object [("x", .number (.whole 18446744073709551615 (by decide)))]) := by cbv
    refine ⟨_, htext, _, evaluate_member hp hprogram rfl htext, fun hsame => ?_⟩
    rw [Json.toJson_toValue] at hsame
    have hsigned := (Json.withDoubles_eq_iff _).mp hsame
    rw [Json.Signed] at hsigned
    exact absurd hsigned (by decide)
  · exact evaluate_of_unreadable hp rfl (variablesOf_invalid (Json.parse?_of_nested _))

end CommandLine

end Formula
