import Castellano.Proofs.Tasks

/-!
# Sessions

Sources run one after the other, each in the scope that those before it have left. Whatever they
are, nothing but diagnostics comes of their faults: parsing always gives a program, and a run stops
before its end only in a loop that goes on. All values that a session makes are 64-bit integers,
truth values, and functions of the programs given so far.

* `Cursor.forall_mem_tokens`, `Grammar.forms_diagnostic`: what the tokens and the diagnostic of a
  text can be.
* `Evaluation.evaluateProgram_keeps`, `runIn_regular`, `runSession_regular`: runs of programs, of
  sources and of sessions that start in regular states.
* `session_stops_only_in_loops`: how parsing and running end, for every session.
* `session_values_known`: the values of every session, also inside calls.
-/

namespace Castellano

open Evaluation

/-! ## Parsing -/

/-- What holds of every token that a cursor can read holds of all tokens of a text. -/
theorem Cursor.forall_mem_tokens {P : Token → Prop} (h : ∀ c : Cursor, P c.readToken.1)
    (c : Cursor) : ∀ t ∈ c.tokens.1, P t := by
  induction c using tokens.induct with
  | case1 c next =>
    rename_i hend
    rw [tokens_end hend]
    exact List.forall_mem_singleton.2 (h c.skipSpacing)
  | case2 c next hend =>
    rename_i ih
    rw [tokens_next hend]
    exact List.forall_mem_cons.2 ⟨h c.skipSpacing, ih⟩

/-- A token that stands for a number has digits only, and at least one. -/
def Token.IsNumeral (t : Token) : Prop :=
  t.kind = .integer → t.literal ≠ "" ∧ t.literal.toList.all Token.isDigit

theorem Token.isNumeral_of_kind {t : Token} (h : t.kind ≠ .integer) : t.IsNumeral :=
  fun h' => absurd h' h

theorem Cursor.isNumeral_readToken (c : Cursor) : c.readToken.1.IsNumeral := by
  cases hc : c.rest with
  | nil =>
    rw [readToken_end hc]
    exact Token.isNumeral_of_kind (by simp [Token.atEnd])
  | cons ch cs =>
    obtain hd | ⟨hd, hl⟩ | ⟨rfl, cs', rfl⟩ | ⟨hd, hl, ha⟩ := start_cases ch cs
    · rw [(readToken_number hc hd).1]
      exact fun _ => ⟨by simp, by simp [hd]⟩
    · rw [(readToken_word hc hd hl).1]
      apply Token.isNumeral_of_kind
      have hkeywords : ∀ entry ∈ TokenKind.keywords, entry.2 ≠ .integer := by decide
      obtain hkey | ⟨-, hfree⟩ := ofWord_cases (String.ofList (ch :: cs.takeWhile Token.isWordChar))
      · exact hkeywords _ hkey
      · rw [hfree]
        simp
    · rw [(readToken_assign hc).1]
      exact Token.isNumeral_of_kind (by simp)
    · rw [(readToken_sign hc hd hl ha).1]
      apply Token.isNumeral_of_kind
      simp only [TokenKind.ofSign]
      split <;> simp

/-- Every failure of parsing is reported as one of the text or one of the grammar. -/
theorem Grammar.forms_diagnostic {σ : Type} [TokenView σ] (sub : Nested σ) (s : σ) :
    ∀ d ∈ (forms sub s).2.1, d.fault.label = "lexical" ∨ d.fault.label = "syntactic" := by
  fun_induction forms sub s with
  | case1 s start hend => simp
  | case2 s start hend e s' hrun =>
    rintro d ⟨⟩
    rw [ParseError.diagnostic, ParseError.cause]
    split
    · exact .inl rfl
    · exact .inr rfl
  | case3 s start hend s' hrun =>
    rintro d ⟨⟩
    exact .inr rfl
  | case4 s start hend f s' hrun hlt fs diagnostic s'' hrest ih =>
    rw [hrest] at ih
    exact ih
  | case5 s start hend f s' hrun hlt => simp

/-! ## Programs -/

variable {N : Node → Prop}

/-- A program that nests too deeply reports it at its start. -/
theorem Evaluation.run_evaluateProgram_of_tooDeep {limits : Limits} {program : Program}
    {s t : State}
    (h : (runSequence (evaluate limits) none program.forms).run s = .error .tooDeep t) :
    (evaluateProgram limits program).run s =
      .ok none (t.record program.position .callsTooDeep) := by
  simp only [evaluateProgram, h]
  rfl

/-- Every other program comes to what its forms come to. -/
theorem Evaluation.run_evaluateProgram {limits : Limits} {program : Program} {s : State}
    (h : ∀ t, (runSequence (evaluate limits) none program.forms).run s ≠ .error .tooDeep t) :
    (evaluateProgram limits program).run s =
      (runSequence (evaluate limits) none program.forms).run s := by
  rw [evaluateProgram]
  cases hr : (runSequence (evaluate limits) none program.forms).run s with
  | ok v t => simp only [hr]
  | error halt t =>
    cases halt with
    | tooDeep => exact absurd hr (h t)
    | unfinished | unhandled _ | missingValue | zeroDivisor => simp only [hr]

/-- A program of nodes of the collection keeps the state regular. Too deep nesting is reported, so
    that it stops before its end only for a loop. -/
theorem Evaluation.evaluateProgram_keeps (hN : Node.Stock N) (limits : Limits) {program : Program}
    (hforms : ∀ f ∈ program.forms, N f) :
    Keeps (State.Regular N) (· = .unfinished) (evaluateProgram limits program) (ResultKnown N) := by
  have hrun : KeepsRegular N (runSequence (evaluate limits) none program.forms) :=
    .runSequence (fun f hf => evaluateAt_keeps hN _ _ (hforms f hf)) resultKnown_none
  refine ⟨?_, ?_⟩
  · intro s s' v hs h
    by_cases hdeep : ∃ t, (runSequence (evaluate limits) none program.forms).run s =
        .error .tooDeep t
    · obtain ⟨t, ht⟩ := hdeep
      rw [run_evaluateProgram_of_tooDeep ht] at h
      cases h
      exact ⟨resultKnown_none, (hrun.error hs ht).2.record _ trivial⟩
    · rw [run_evaluateProgram (not_exists.1 hdeep)] at h
      exact hrun.ok hs h
  · intro s s' halt hs h
    by_cases hdeep : ∃ t, (runSequence (evaluate limits) none program.forms).run s =
        .error .tooDeep t
    · obtain ⟨t, ht⟩ := hdeep
      rw [run_evaluateProgram_of_tooDeep ht] at h
      cases h
    · rw [run_evaluateProgram (not_exists.1 hdeep)] at h
      obtain ⟨hhalt, hs'⟩ := hrun.error hs h
      cases halt with
      | tooDeep => exact absurd ⟨s', h⟩ hdeep
      | unfinished => exact ⟨rfl, hs'⟩
      | unhandled _ | missingValue | zeroDivisor => exact hhalt.elim

/-- A run with a known result, a scope of known values and regular diagnostics, which comes to its
    end unless one of its loops goes on. -/
structure Run.Regular (N : Node → Prop) (run : Run) : Prop where
  value : ResultKnown N run.value
  env : run.env.Holds (Value.Known N)
  diagnostics : ∀ d ∈ run.runDiagnostics, d.Regular
  halt : run.halt = none ∨ run.halt = some .unfinished

theorem Run.regular_ofEvaluation {evaluation : Evaluation (Option Value)} {env : Environment}
    (henv : env.Holds (Value.Known N))
    (h : Keeps (State.Regular N) (· = .unfinished) evaluation (ResultKnown N)) :
    (ofEvaluation env evaluation).Regular N := by
  have hstart : State.Regular N { env } := ⟨henv, by simp⟩
  rw [ofEvaluation]
  cases hr : evaluation.run { env } with
  | ok v s =>
    obtain ⟨hv, hs⟩ := h.ok hstart hr
    exact ⟨hv, hs.env, hs.diagnostics, .inl rfl⟩
  | error halt s =>
    obtain ⟨rfl, hs⟩ := h.error hstart hr
    exact ⟨resultKnown_none, hs.env, hs.diagnostics, .inr rfl⟩

/-! ## Sources -/

/-- The programs of sources. -/
def programsOf (limits : Limits) (sources : List String) : List Program :=
  sources.map fun source => (parseSource limits source).1

/-- The scope that a session leaves behind. -/
def scopeAfter (limits : Limits) (env : Environment) (sources : List String) : Environment :=
  sources.foldl (fun env source => (runIn limits env source).env) env

/-- The nodes of the programs of a session. -/
def Occurs (limits : Limits) (sources : List String) (n : Node) : Prop :=
  ∃ p ∈ programsOf limits sources, p.Contains n

theorem stock_occurs (limits : Limits) (sources : List String) :
    Node.Stock (Occurs limits sources) := by
  refine Node.stock_contains fun p hp => ?_
  obtain ⟨source, -, rfl⟩ := List.mem_map.1 hp
  exact parseSource_shaped limits source

/-- The forms of each source are nodes of the session. -/
theorem occurs_form {limits : Limits} {sources : List String} {source : String}
    (h : source ∈ sources) : ∀ f ∈ (parseSource limits source).1.forms, Occurs limits sources f :=
  fun _ hf => ⟨_, List.mem_map_of_mem h, .form, .child (List.mem_map_of_mem hf)⟩

theorem runSession_append (limits : Limits) (env : Environment) (sources more : List String) :
    runSession limits env (sources ++ more) =
      runSession limits env sources ++ runSession limits (scopeAfter limits env sources) more := by
  induction sources generalizing env with
  | nil => rfl
  | cons source sources ih => exact congrArg (_ :: ·) (ih _)

section

variable {limits : Limits} {sources : List String} (hN : Node.Stock N)

include hN

theorem runIn_regular {env : Environment} (henv : env.Holds (Value.Known N)) {source : String}
    (h : ∀ f ∈ (parseSource limits source).1.forms, N f) : (runIn limits env source).Regular N := by
  obtain ⟨value, env, diagnostics, halt⟩ :=
    Run.regular_ofEvaluation henv (evaluateProgram_keeps hN limits h)
  exact ⟨value, env, diagnostics, halt⟩

/-- Every run of a session is regular, and the scope it leaves holds known values. -/
theorem runSession_regular {env : Environment} (henv : env.Holds (Value.Known N))
    (h : ∀ source ∈ sources, ∀ f ∈ (parseSource limits source).1.forms, N f) :
    (∀ run ∈ runSession limits env sources, run.Regular N) ∧
      (scopeAfter limits env sources).Holds (Value.Known N) := by
  induction sources generalizing env with
  | nil => exact ⟨by simp [runSession], henv⟩
  | cons source sources ih =>
    obtain ⟨hsource, hsources⟩ := List.forall_mem_cons.1 h
    have hrun := runIn_regular hN henv hsource
    obtain ⟨hruns, hscope⟩ := ih hrun.env hsources
    exact ⟨List.forall_mem_cons.2 ⟨hrun, hruns⟩, hscope⟩

end

/-! ## Whole sessions -/

/-- Parsing and running never stop for a fault. Parsing gives a program for every text, with
    diagnostics of the text and of the grammar only, and every number of the text can be read. In
    every session, each run comes to its end unless a loop goes on for all rounds that are allowed:
    it stops at no node that cannot be evaluated, asks for nothing that is not there, and divides
    nothing by zero. All that it reports are faults of meaning, and none of them is an unsupported
    operator. -/
theorem session_stops_only_in_loops (limits : Limits) (sources : List String) :
    (∀ source ∈ sources,
      (Parser.perform limits (.ofSource source) .program).1 =
        .ok (.node (parseSource limits source).1.toNode) ∧
      (∀ d ∈ (parseSource limits source).2,
        d.fault.label = "lexical" ∨ d.fault.label = "syntactic") ∧
      ∀ t ∈ tokenize source, t.IsNumeral) ∧
    ∀ run ∈ runSession limits {} sources,
      (run.halt = none ∨ run.halt = some .unfinished) ∧
      ∀ d ∈ run.runDiagnostics, d.fault.label = "semantic" ∧
        ∀ operator, d.fault ≠ .meaning (.unsupported operator) := by
  refine ⟨fun source _ => ⟨rfl, fun d hd => ?_, ?_⟩, fun run hrun => ?_⟩
  · exact Grammar.forms_diagnostic _ (Window.ofSource source) d (Option.mem_toList.1 hd)
  · exact Cursor.forall_mem_tokens Cursor.isNumeral_readToken _
  · obtain ⟨hruns, -⟩ := runSession_regular (stock_occurs limits sources)
      Environment.holds_empty fun _ => occurs_form
    refine ⟨(hruns run hrun).halt, fun d hd => ?_⟩
    obtain ⟨fault, hfault, hregular⟩ := (hruns run hrun).diagnostics d hd
    rw [hfault]
    refine ⟨rfl, ?_⟩
    rintro operator ⟨⟩
    exact hregular

/-- At a source that is cut short, divides by zero inside a call, and goes on with what has no
    value: as an operand, as a condition and as a function. -/
theorem session_stops_only_in_loops_faults :
    let first := "f := función(n) \x7b 1 / n \x7d"
    let second := "g := -(f(0)). si g + 1 \x7b 1 \x7d g(). 1 +"
    let run := runIn ⟨9, 3⟩ (scopeAfter ⟨9, 3⟩ {} [first]) second
    run ∈ runSession ⟨9, 3⟩ {} [first, second] ∧
      run.diagnostics.map Diagnostic.fault =
        [.grammar .unexpectedEnd, .meaning .divisionByZero, .meaning (.notFunction "g" none)] ∧
      (run.halt = none ∨ run.halt = some .unfinished) ∧
      (Parser.perform ⟨9, 3⟩ (.ofSource second) .program).1 =
        .ok (.node (parseSource ⟨9, 3⟩ second).1.toNode) := by
  intro first second run
  have hrun : run ∈ runSession ⟨9, 3⟩ {} [first, second] := .tail _ (.head _)
  obtain ⟨hparse, hruns⟩ := session_stops_only_in_loops ⟨9, 3⟩ [first, second]
  exact ⟨hrun, by decide +kernel, (hruns run hrun).1, (hparse _ (.tail _ (.head _))).1⟩

/-- What is known of the values of a session, at any moment. When `sources` have been run and
    `source` is run behind them, the result and all values that are bound afterwards are integers of
    64 bits, truth values, and functions whose literals occur in the programs given so far. The same
    holds of every evaluation made on the way: of the scope in which it starts, which is that of the
    call if it is part of one, of the scope that it leaves, and of its result. By
    `layer_congr_of_inner` no evaluations are left out. -/
theorem session_values_known (limits : Limits) (sources : List String) (source : String) :
    let env := scopeAfter limits {} sources
    let run := runIn limits env source
    let known := Value.Known (Occurs limits (sources ++ [source]))
    runSession limits {} (sources ++ [source]) = runSession limits {} sources ++ [run] ∧
    (∀ v, run.value = some v → known v) ∧
    run.env.Holds known ∧
    ∀ task, (parseSource limits source).1.Makes limits { env } task →
      task.state.env.Holds known ∧
      (task.result limits.rounds).state.env.Holds known ∧
      ∀ v s, task.result limits.rounds = .ok (some v) s → known v := by
  intro env run known
  -- the sources before are run with the nodes of all sources given so far, which are more
  have hN := stock_occurs limits (sources ++ [source])
  have hforms : ∀ f ∈ (parseSource limits source).1.forms, Occurs limits (sources ++ [source]) f :=
    occurs_form (by simp)
  have hbefore : ∀ s ∈ sources, ∀ f ∈ (parseSource limits s).1.forms,
      Occurs limits (sources ++ [source]) f :=
    fun s hs => occurs_form (List.mem_append_left [source] hs)
  obtain ⟨-, henv⟩ := runSession_regular hN Environment.holds_empty hbefore
  have hrun : run.Regular _ := runIn_regular hN henv hforms
  refine ⟨runSession_append limits {} sources [source], hrun.value, hrun.env, fun task htask => ?_⟩
  have hregular := htask.regular hN hforms ⟨henv, by simp⟩
  refine ⟨hregular.state.env, (hregular.keeps hN limits.rounds).env, fun v s h => ?_⟩
  exact ((evaluateAt_keeps hN limits.rounds _ hregular.node).ok hregular.state h).1 v rfl

/-- At the body of a call, whose scope binds a number that has been wrapped. -/
theorem session_values_known_call :
    let first := "f := función() \x7b n := 9223372036854775807 + 1 \x7d"
    let env := scopeAfter ⟨9, 3⟩ {} [first]
    ∃ task, (parseSource ⟨9, 3⟩ "f()").1.Makes ⟨9, 3⟩ { env } task ∧
      ((task.result 3).state.env.find? "n").map render = some "-9223372036854775808" ∧
      (task.result 3).state.env.Holds (Value.Known (Occurs ⟨9, 3⟩ [first, "f()"])) := by
  intro first env
  -- the only form of the source is a call of `f` without arguments
  have hshape : ((parseSource ⟨9, 3⟩ "f()").1.forms.map fun f =>
      (f.kind, f.name?, f.children.length)) = [(.call, some "f", 0)] := by decide +kernel
  obtain ⟨form, hform, hkind⟩ := List.map_eq_singleton_iff.1 hshape
  obtain ⟨p, rfl⟩ : ∃ p, form = .call p "f" [] := by
    cases form with
    | call p name arguments => simpa [Node.kind, Node.name?, Node.children] using hkind
    | _ => simp [Node.kind, Node.name?] at hkind
  have hcallee : ((callee env "f" 0).toOption.map fun function =>
      (((Task.mk 9 (.block function.2) {}).result 3).state.env.find? "n").map render) =
        some (some "-9223372036854775808") := by decide +kernel
  obtain ⟨⟨parameters, body⟩, hfunction, hn⟩ := Option.map_eq_some_iff.1 hcallee
  have hfound : callee env "f" 0 = .ok (parameters, body) := by
    cases h : callee env "f" 0 with
    | error fault => simp [h, Except.toOption] at hfunction
    | ok function => simpa [h, Except.toOption] using hfunction
  have hbody : Inner 3 ⟨9, .call p "f" [], { env }⟩ ⟨9, .block body, {}⟩ := by
    have hvalues : (valuesOf (evaluateAt 3 8) []).run { env } = .ok [] { env } := rfl
    have hinner := Inner.body (p := p) hfound hvalues
    rw [List.zip_nil_right] at hinner
    exact hinner
  have hmakes : (parseSource ⟨9, 3⟩ "f()").1.Makes ⟨9, 3⟩ { env } ⟨9, .block body, {}⟩ := by
    refine ⟨.call p "f" [], { env }, ?_, .single hbody⟩
    rw [hform]
    exact .head
  obtain ⟨-, -, -, htasks⟩ := session_values_known ⟨9, 3⟩ [first] "f()"
  exact ⟨_, hmakes, hn, (htasks _ hmakes).2.1⟩

end Castellano
