import Formula.Evaluation.Calculator
import Formula.Proofs.Evaluation.Histories
import Formula.Proofs.Evaluation.Trees
import Formula.Proofs.Expression.NameLists
import Formula.Proofs.Functions.Strictness

/-!
# Sums of many variables

A chain of additions is grouped from the left, and the function for sums adds its arguments up from the
left as well, with the same addition. The two give the same value for any values of the variables, and an
error of an addition is that of the chain and the cause of the failed call.
-/

namespace Formula

open Text Lexicon

/-- The left operand of one more addition. -/
def plusJoin (e : Expr) (p : Position) (f : Expr) : Expr := .infixOp e .plus p f

/-- `x₁ + x₂ + …`, grouped from the left. -/
def sumTree (first : String) (p : Position) (links : List Link) : Expr :=
  joinAll plusJoin (.variable first p) links

/-- `x₁, x₂, …` -/
def argsTree (first : String) (p : Position) (links : List Link) : Args :=
  joinAll Args.more (.one (.variable first p)) links

theorem grouped_joinAll_plus {e : Expr} (he : e.Grouped)
    (hleft : (Operator.infixOp .plus).TakesLeft e) (links : List Link) :
    (joinAll plusJoin e links).Grouped := by
  induction links generalizing e with
  | nil => exact he
  | cons l links ih =>
    have hleaf : (Operator.infixOp .plus).TakesRight (.variable l.name l.position) := nofun
    have hjoined : (plusJoin e l.separator (.variable l.name l.position)).Grouped :=
      ⟨he, trivial, hleft, hleaf⟩
    refine ih hjoined ?_
    intro held hheld
    cases List.mem_singleton.mp hheld
    decide

theorem grouped_joinAll_more {args : Args} (h : args.Grouped) (links : List Link) :
    (joinAll Args.more args links).Grouped := by
  induction links generalizing args with
  | nil => exact h
  | cons l links ih => exact ih ⟨h, trivial⟩

section

variable {env : Environment} {links : List Link} {values : List Value}

def Environment.Gives (env : Environment) (links : List Link) (values : List Value) : Prop :=
  List.Forall₂ (fun l v => env.valueOf l.name = some v) links values

def Environment.valuesOf (env : Environment) (names : List String) : List Value :=
  names.map fun name => (env.valueOf name).getD .null

theorem Environment.gives_valuesOf {names : List String} (hnames : links.map Link.name = names)
    (h : ∀ name ∈ names, (env.valueOf name).isSome) : env.Gives links (env.valuesOf names) := by
  subst hnames
  rw [Gives, valuesOf, List.map_map, List.forall₂_map_right_iff, List.forall₂_same]
  intro l hl
  obtain ⟨v, hv⟩ := Option.isSome_iff_exists.mp (h l.name (List.mem_map_of_mem hl))
  rw [Function.comp_apply, hv, Option.getD_some]

theorem eval_joinAll_plus_error {e : Expr} {fault : EvalError} (he : e.eval env = .error fault)
    (links : List Link) : (joinAll plusJoin e links).eval env = .error fault := by
  induction links generalizing e with
  | nil => exact he
  | cons l links ih =>
    have hjoined : (plusJoin e l.separator (.variable l.name l.position)).eval env = .error fault := by
      rw [plusJoin, Expr.eval, he]
      rfl
    exact ih hjoined

theorem eval_joinAll_plus {e : Expr} {total : Value} (he : e.eval env = .ok total)
    (h : env.Gives links values) :
    (joinAll plusJoin e links).eval env = Functions.sumFrom env.strategy total values := by
  induction h generalizing e total with
  | nil => exact he
  | @cons l v links values hv h ih =>
    have hjoined : (plusJoin e l.separator (.variable l.name l.position)).eval env =
        env.strategy.add total v := by
      rw [plusJoin, Expr.eval, he, Expr.eval, Environment.load, hv]
      rfl
    rw [Functions.sumFrom]
    cases hsum : env.strategy.add total v with
    | error fault => exact eval_joinAll_plus_error (hjoined.trans hsum) links
    | ok total => exact ih (hjoined.trans hsum)

theorem eval_joinAll_more {args : Args} {before : List Value} (hargs : args.eval env = .ok before)
    (h : env.Gives links values) :
    (joinAll Args.more args links).eval env = .ok (before ++ values) := by
  induction h generalizing args before with
  | nil => rwa [List.append_nil]
  | @cons l v links values hv h ih =>
    have hmore : (Args.more args l.separator (.variable l.name l.position)).eval env =
        .ok (before ++ [v]) := by
      rw [Args.eval, hargs, Expr.eval, Environment.load, hv]
      rfl
    rw [List.append_cons]
    exact ih hmore

theorem Environment.load_of_valueOf {name : String} {v : Value} (h : env.valueOf name = some v)
    (p : Position) : env.load name p = .ok v := by
  rw [load, h]

theorem eval_sumTree {first : String} {v : Value} (hfirst : env.valueOf first = some v)
    (h : env.Gives links values) (p : Position) :
    (sumTree first p links).eval env = Functions.sumFrom env.strategy v values :=
  eval_joinAll_plus (e := .variable first p) (env.load_of_valueOf hfirst p) h

theorem eval_call_sum {first : String} {v : Value} (hfirst : env.valueOf first = some v)
    (h : env.Gives links values) (hne : values ≠ [])
    (hsum : env.functions "Sum" = some ⟨"Sum", Functions.sum⟩) (p q opened closed : Position) :
    (Expr.call "Sum" p opened (argsTree first q links) closed).eval env =
      match Functions.sumFrom env.strategy v values with
      | .ok total => .ok total
      | .error e => .error (.functionFailed "Sum" p e) := by
  have hleaf : (Args.one (.variable first q)).eval env = .ok [v] := by
    rw [Args.eval, Expr.eval, env.load_of_valueOf hfirst]
    rfl
  have hargs : (argsTree first q links).eval env = .ok (v :: values) := eval_joinAll_more hleaf h
  obtain ⟨u, rest, rfl⟩ := List.exists_cons_of_ne_nil hne
  rw [Expr.eval, hargs]
  change env.invoke "Sum" (v :: u :: rest) p = _
  rw [Environment.invoke, hsum]
  rfl

end

theorem comma_mem_marks : "," ∈ marks := by decide

theorem plus_mem_marks : "+" ∈ marks := by decide

theorem ReadsAs.exists_sumTree {first : String} {names : List String} {ts : List Token}
    (h : Tokens (.name first :: separated "+" plus_mem_marks names) ts) :
    ∃ (p : Position) (links : List Link), links.map Link.name = names ∧
      ReadsAs ts (sumTree first p links).items := by
  obtain _ | ⟨⟨p, rfl⟩, hts⟩ := h
  have hjoin {us vs : List Token} {e f : Expr} (q : Position) (he : ReadsAs us e.items)
      (hf : ReadsAs vs f.items) : ∃ p,
      ReadsAs (us ++ (Piece.mark "+" plus_mem_marks).token q :: vs) (plusJoin e p f).items := by
    obtain ⟨p, hop⟩ := InfixOp.plus.exists_itemTokens (.cons ⟨q, rfl⟩ .nil)
    exact ⟨p, he.infixOp hop hf⟩
  obtain ⟨links, hnames, hreads⟩ := ReadsAs.exists_joinAll plus_mem_marks hjoin (.name first p) hts
  exact ⟨p, links, hnames, hreads⟩

theorem ReadsAs.exists_argsTree {first : String} {names : List String} {ts : List Token}
    (h : Tokens (.name first :: separated "," comma_mem_marks names) ts) :
    ∃ (p : Position) (links : List Link), links.map Link.name = names ∧
      ReadsAs ts (argsTree first p links).items := by
  obtain _ | ⟨⟨p, rfl⟩, hts⟩ := h
  have hjoin {us vs : List Token} {a : Args} {e : Expr} (q : Position) (ha : ReadsAs us a.items)
      (he : ReadsAs vs e.items) : ∃ p,
      ReadsAs (us ++ (Piece.mark "," comma_mem_marks).token q :: vs) (Args.more a p e).items :=
    ⟨q, ha.comma he q⟩
  have hone : ReadsAs [(Piece.name first).token p] (Args.one (.variable first p)).items :=
    .name first p
  obtain ⟨links, hnames, hreads⟩ := ReadsAs.exists_joinAll comma_mem_marks hjoin hone hts
  exact ⟨p, links, hnames, hreads⟩

/-- Tokens that are read as a grouped tree make the formula with its program. -/
theorem Parsed.exists_ofText_of_reads {text : String} {ts : List Token} {e : Expr}
    (hts : tokensOf text = .ok ts) (h : ReadsAs ts e.items) (hgrouped : e.Grouped) :
    ∃ p, ofText text = .ok p ∧ p.program = e.program := by
  have hreads : Reads none none (ts ++ []) (e.items ++ []) := h rfl rfl (.done _)
  rw [List.append_nil, List.append_nil] at hreads
  have hprogram := Program.ofItems_items hgrouped hreads.callsOpen
  refine ⟨⟨text, ts, e.items, e.program, Item.variableNames e.items⟩, ?_, rfl⟩
  rw [ofText, hts]
  exact ofTokensNamed_eq_ok hreads hprogram _

section

variable {first w : String} {names spelled : List String} (hfirst : Written first w)
  (hspelled : List.Forall₂ Written names spelled)
include hfirst hspelled

theorem Parsed.exists_ofText_chain : ∃ (p : Parsed) (q : Position) (links : List Link),
    ofText (" + ".intercalate (w :: spelled)) = .ok p ∧ links.map Link.name = names ∧
      p.program = (sumTree first q links).program := by
  have hblank : ∀ c ∈ [' '], c.toNat ≤ 32 := by simp
  have hempty : LexedAs [] [] := .nil
  have hsep : " + ".toList = [' '] ++ ("+".toList ++ [' ']) := rfl
  have hlexed := hempty.append_intercalate plus_mem_marks hblank (by decide) hblank hsep hfirst
    hspelled endsName_nil
  rw [List.append_nil, List.append_nil] at hlexed
  obtain ⟨ts, hts, hmatches⟩ := hlexed.exists_tokensOf
  obtain ⟨q, links, hnames, hreads⟩ := ReadsAs.exists_sumTree hmatches
  have hgrouped : (sumTree first q links).Grouped :=
    grouped_joinAll_plus (e := .variable first q) trivial nofun links
  obtain ⟨p, hp, hprogram⟩ := exists_ofText_of_reads hts hreads hgrouped
  exact ⟨p, q, links, hp, hnames, hprogram⟩

theorem Parsed.exists_ofText_call {function : String} (hfunction : Written function function) :
    ∃ (p : Parsed) (q : Position) (links : List Link) (q' opened closed : Position),
      ofText (function ++ "(" ++ ", ".intercalate (w :: spelled) ++ ")") = .ok p ∧
        links.map Link.name = names ∧
        p.program = (Expr.call function q' opened (argsTree first q links) closed).program := by
  have hnone : ∀ c ∈ ([] : List Char), c.toNat ≤ 32 := nofun
  have hblank : ∀ c ∈ [' '], c.toNat ≤ 32 := by simp
  have hempty : LexedAs [] [] := .nil
  have hclose := hempty.cons_mark (m := ")") (by decide) (by decide)
  have hsep : ", ".toList = [] ++ (",".toList ++ [' ']) := rfl
  have hlist := hclose.append_intercalate comma_mem_marks hnone (by decide) hblank hsep hfirst
    hspelled (endsName_mark ")" (by decide) [])
  have hopen := hlist.cons_mark (m := "(") (by decide) (by decide)
  have hlexed := hopen.cons_name hfunction (endsName_mark "(" (by decide) _)
  have htext : function.toList ++ ("(".toList ++ ((", ".intercalate (w :: spelled)).toList ++
      (")".toList ++ []))) = (function ++ "(" ++ ", ".intercalate (w :: spelled) ++ ")").toList := by
    simp
  rw [htext] at hlexed
  obtain ⟨ts, hts, hmatches⟩ := hlexed.exists_tokensOf
  obtain _ | ⟨⟨q', rfl⟩, _ | ⟨⟨opened, rfl⟩, hmatches⟩⟩ := hmatches
  obtain ⟨us, vs, rfl, hus, hvs⟩ := Tokens.exists_append hmatches
  obtain _ | ⟨⟨closed, rfl⟩, _ | _⟩ := hvs
  obtain ⟨q, links, hnames, hreads⟩ := ReadsAs.exists_argsTree hus
  have hleaf : (Args.one (.variable first q)).Grouped := trivial
  have hgrouped : (Expr.call function q' opened (argsTree first q links) closed).Grouped :=
    grouped_joinAll_more hleaf links
  have hcall := (hreads.enclosed opened closed).call function q'
  obtain ⟨p, hp, hprogram⟩ := exists_ofText_of_reads
    (e := .call function q' opened (argsTree first q links) closed) hts hcall hgrouped
  exact ⟨p, q, links, q', opened, closed, hp, hnames, hprogram⟩

end

theorem Functions.find?_sum (around : Surroundings) :
    (library around).find? "Sum" = some ⟨"Sum", sum⟩ := by
  rw [library_eq]
  simp [find?, Named.find?, libraryList, Named.IsNamed, AsciiCase.Same, AsciiCase.key]

namespace Calculator

variable (c : Calculator) {fs : Functions} {vs : Variables} {text : String} {p : Parsed}

theorem evaluateWith_setText (h : Parsed.ofText text = .ok p) (vs : Variables) (fs : Functions) :
    (c.setText text).2 = none ∧ (c.setText text).1.evaluateWith vs fs =
      Environment.evaluate ⟨vs.value?, fs.find?, c.strategy⟩ p.program := by
  obtain ⟨bindings, htake⟩ := c.exists_take_eq (c.parsed.setText text)
  rw [setText, htake, Parsed.setText_eq, h]
  exact ⟨rfl, rfl⟩

section

variable {first w : String} {names spelled : List String} {v : Value}

/-- The chain has the values of its variables added up from the left. -/
theorem evaluateWith_chain (hfirst : Written first w) (hspelled : List.Forall₂ Written names spelled)
    (hv : vs.value? first = some v) (hothers : ∀ name ∈ names, (vs.value? name).isSome)
    (functions : Functions) :
    let chain := c.setText (" + ".intercalate (w :: spelled))
    let env : Environment := ⟨vs.value?, functions.find?, c.strategy⟩
    chain.2 = none ∧
      chain.1.evaluateWith vs functions = Functions.sumFrom c.strategy v (env.valuesOf names) := by
  intro chain env
  obtain ⟨p, q, links, htext, hlinks, hprogram⟩ := Parsed.exists_ofText_chain hfirst hspelled
  obtain ⟨htaken, hvalue⟩ := c.evaluateWith_setText htext vs functions
  rw [hprogram, env.evaluate_program,
    eval_sumTree hv (env.gives_valuesOf hlinks hothers)] at hvalue
  exact ⟨htaken, hvalue⟩

end

/-- The sum of at least two variables that are there is that of the chain of additions, whatever they are
and however their names are written: both have the same value, or the chain has an error and the call
fails with that error as its cause. -/
theorem sum_eq_chain {names spelled : List String}
    (hsum : fs.find? "Sum" = some ⟨"Sum", Functions.sum⟩)
    (hspelled : List.Forall₂ Written names spelled) (hlength : 2 ≤ names.length)
    (hpresent : ∀ name ∈ names, (vs.value? name).isSome) :
    let call := c.setText ("Sum(" ++ ", ".intercalate spelled ++ ")")
    let chain := c.setText (" + ".intercalate spelled)
    call.2 = none ∧ chain.2 = none ∧
      ((∃ v, call.1.evaluateWith vs fs = .ok v ∧ chain.1.evaluateWith vs fs = .ok v) ∨
        ∃ e p, chain.1.evaluateWith vs fs = .error e ∧
          call.1.evaluateWith vs fs = .error (.functionFailed "Sum" p e)) := by
  intro call chain
  obtain _ | @⟨first, w, names, spelled, hfirst, hspelled⟩ := hspelled
  · cases hlength
  have hrun : IsRun "Sum".toList := ⟨⟨'S', rfl, by simp [lookup_routes]⟩, by simp [lookup_letters]⟩
  have hword : Written "Sum" "Sum" := .plain hrun (by decide)
  obtain ⟨v, hv⟩ := Option.isSome_iff_exists.mp (hpresent first (.head _))
  have hothers (name : String) (h : name ∈ names) : (vs.value? name).isSome :=
    hpresent name (.tail first h)
  obtain ⟨hchainTaken, hchainValue⟩ :=
    c.evaluateWith_chain hfirst hspelled hv hothers fs
  obtain ⟨p, q, links, place, opened, closed, hcall, hlinks, hprogram⟩ :=
    Parsed.exists_ofText_call hfirst hspelled hword
  obtain ⟨hcallTaken, hcallValue⟩ := c.evaluateWith_setText hcall vs fs
  refine ⟨hcallTaken, hchainTaken, ?_⟩
  let env : Environment := ⟨vs.value?, fs.find?, c.strategy⟩
  have hne : env.valuesOf names ≠ [] := by
    intro hnil
    rw [List.map_eq_nil_iff.mp hnil] at hlength
    cases Nat.le_of_succ_le_succ hlength
  rw [hprogram, env.evaluate_program,
    eval_call_sum hv (env.gives_valuesOf hlinks hothers) hne hsum] at hcallValue
  cases hresult : Functions.sumFrom env.strategy v (env.valuesOf names) with
  | ok total =>
    rw [hresult] at hchainValue hcallValue
    exact .inl ⟨total, hcallValue, hchainValue⟩
  | error e =>
    rw [hresult] at hchainValue hcallValue
    exact .inr ⟨e, place, hchainValue, hcallValue⟩

/-- A text, a number and the text again; the name of the number has a blank in it. -/
theorem sum_eq_chain_three :
    let c : Calculator := .new ⟨⟨0, 0, by decide, by decide, by decide⟩, 0.5⟩
    let vs : Variables := ⟨[⟨"a", .string "x"⟩, ⟨"b c", .integer 2⟩]⟩
    (c.setText "Sum(a, \"b c\", a)").2 = none ∧ (c.setText "a + \"b c\" + a").2 = none ∧
      (c.setText "Sum(a, \"b c\", a)").1.evaluateWith vs c.functions = .ok (.string "x2x") ∧
      (c.setText "a + \"b c\" + a").1.evaluateWith vs c.functions = .ok (.string "x2x") := by
  intro c vs
  have hsum : c.functions.find? "Sum" = some ⟨"Sum", Functions.sum⟩ := Functions.find?_sum _
  have hrun : IsRun "a".toList := ⟨⟨'a', rfl, by simp [lookup_routes]⟩, by simp [lookup_letters]⟩
  have hplain : Written "a" "a" := .plain hrun (by decide)
  have hothers : List.Forall₂ Written ["b c", "a"] ["\"b c\"", "a"] :=
    .cons .quoted (.cons hplain .nil)
  have hcall : "Sum(" ++ ", ".intercalate ["a", "\"b c\"", "a"] ++ ")" = "Sum(a, \"b c\", a)" := by
    simp
  have hchain : " + ".intercalate ["a", "\"b c\"", "a"] = "a + \"b c\" + a" := by
    simp
  have hpresent : ∀ name ∈ ["a", "b c", "a"], (vs.value? name).isSome := by
    decide
  have hfirst : vs.value? "a" = some (.string "x") := rfl
  have hvalues : Environment.valuesOf ⟨vs.value?, c.functions.find?, c.strategy⟩ ["b c", "a"] =
      [.integer 2, .string "x"] := rfl
  have hadded : Functions.sumFrom c.strategy (.string "x") [.integer 2, .string "x"] =
      .ok (.string "x2x") := rfl
  obtain ⟨-, hvalue⟩ := c.evaluateWith_chain hplain hothers hfirst
    (fun name h => hpresent name (.tail "a" h)) c.functions
  rw [hchain, hvalues, hadded] at hvalue
  obtain ⟨hcallTaken, hchainTaken, hagree⟩ :=
    c.sum_eq_chain hsum (.cons hplain hothers) (by decide) hpresent
  rw [hcall] at hcallTaken hagree
  rw [hchain] at hchainTaken hagree
  obtain ⟨v, hcallValue, hchainValue⟩ | ⟨e, p, hchainValue, -⟩ := hagree
  · rw [hvalue, Except.ok.injEq] at hchainValue
    subst hchainValue
    exact ⟨hcallTaken, hchainTaken, hcallValue, hvalue⟩
  · rw [hvalue] at hchainValue
    cases hchainValue

end Calculator

end Formula
