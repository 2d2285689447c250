import Castellano.Proofs.Depth
import Castellano.Proofs.Sessions

/-!
# Larger limits change nothing in what did not reach them

A run that does not stop at its depth limit is the same under every larger one: nothing below a
program takes notice of the limit, and what stops there stops all that it is part of. In the same
way a run whose loops end is not changed by more rounds. Parsing behaves alike (`Depth`).

* `Evaluation.Refines`: a run agrees with another wherever it does not stop for a given reason;
  closed under sequencing, scopes, lists of nodes and loops.
* `evaluate_refines`: evaluating a node under small limits refines evaluating it under larger ones.
* `evaluateProgram_run_eq`: the same for programs, which report that they nest too deeply.
* `larger_depth_same_results`: parsing and running under two depth limits.
-/

namespace Castellano

namespace Evaluation

/-! ## Runs under two limits -/

/-- Wherever `x` does not stop for a reason that has `E`, it does what `y` does. -/
def Refines (E : Halt → Prop) {α : Type} (x y : Evaluation α) : Prop :=
  ∀ s, (∃ halt s', E halt ∧ x.run s = .error halt s') ∨ x.run s = y.run s

namespace Refines

variable {E : Halt → Prop} {α β : Type}

theorem refl (x : Evaluation α) : Refines E x x := fun _ => .inr rfl

theorem fail {halt : Halt} (h : E halt) (y : Evaluation α) : Refines E (Attempt.fail halt) y :=
  fun s => .inl ⟨halt, s, h, rfl⟩

theorem bind {x y : Evaluation α} {f g : α → Evaluation β} (hx : Refines E x y)
    (hf : ∀ a, Refines E (f a) (g a)) : Refines E (x >>= f) (y >>= g) := by
  intro s
  rw [Attempt.run_bind, Attempt.run_bind]
  obtain ⟨halt, s', hhalt, hrun⟩ | hrun := hx s
  · rw [hrun]
    exact .inl ⟨halt, s', hhalt, rfl⟩
  · rw [← hrun]
    cases x.run s with
    | ok a s' => exact hf a s'
    | error halt s' => exact .inr rfl

/-- A step that only looks at what came before agrees with itself. -/
theorem after {x : Evaluation α} {f g : α → Evaluation β} (hf : ∀ a, Refines E (f a) (g a)) :
    Refines E (x >>= f) (x >>= g) :=
  (refl x).bind hf

theorem inScope {x y : Evaluation α} (h : Refines E x y) (scope : Environment) :
    Refines E (inScope scope x) (inScope scope y) := by
  intro s
  simp only [Evaluation.inScope]
  obtain ⟨halt, s', hhalt, hrun⟩ | hrun := h { s with env := scope }
  · rw [hrun]
    exact .inl ⟨halt, { s' with env := s.env }, hhalt, rfl⟩
  · rw [hrun]
    exact .inr rfl

/-! ### Lists of nodes and loops -/

section

variable {eval eval' : Node → Evaluation (Option Value)} (h : ∀ n, Refines E (eval n) (eval' n))

include h

theorem valuesOf (nodes : List Node) :
    Refines E (valuesOf eval nodes) (valuesOf eval' nodes) := by
  induction nodes with
  | nil => exact .refl _
  | cons n nodes ih => exact .bind (h n) fun _ => .bind ih fun _ => .refl _

theorem runForms (forms : List Node) (result : Option Value) :
    Refines E (runForms eval result forms) (runForms eval' result forms) := by
  induction forms generalizing result with
  | nil => exact .refl _
  | cons f forms ih => exact .bind (h f) fun _ => ih _

theorem runBlock (b : Block Node) : Refines E (runBlock eval b) (runBlock eval' b) :=
  runForms h b.forms none

theorem runSequence (forms : List Node) (result : Option Value) :
    Refines E (runSequence eval result forms) (runSequence eval' result forms) := by
  induction forms generalizing result with
  | nil => exact .refl _
  | cons f forms ih => exact .bind (h f) fun _ => ih _

theorem test (n : Node) : Refines E (test eval n) (test eval' n) := .bind (h n) fun _ => .refl _

end

/-- A loop that may make more rounds: one that used up the rounds of the first loop has to be
    excused, unless they are as many. -/
theorem repeatWhile {check check' : Evaluation (Option Bool)}
    {body body' : Evaluation (Option Value)} (hcheck : Refines E check check')
    (hbody : Refines E body body') {rounds rounds' : Nat} (hrounds : rounds ≤ rounds')
    (hmore : rounds = rounds' ∨ E .unfinished) (result : Option Value) :
    Refines E (repeatWhile check body rounds result) (repeatWhile check' body' rounds' result) := by
  induction rounds generalizing rounds' result with
  | zero =>
    obtain rfl | hunfinished := hmore
    · exact .refl _
    · exact .fail hunfinished _
  | succ rounds ih =>
    obtain ⟨more, rfl⟩ : ∃ more, rounds' = more + 1 := ⟨rounds' - 1, by omega⟩
    refine .bind hcheck fun b => ?_
    cases b with
    | none => exact .refl _
    | some b =>
      cases b with
      | false => exact .refl _
      | true => exact .bind hbody fun v => ih (by omega) (hmore.imp_left (by omega)) v

end Refines

/-! ## Nodes -/

section Layer

variable {E : Halt → Prop} {eval eval' : Node → Evaluation (Option Value)}
  (h : ∀ n, Refines E (eval n) (eval' n)) {rounds rounds' : Nat} (hrounds : rounds ≤ rounds')
  (hmore : rounds = rounds' ∨ E .unfinished)

include h hrounds hmore

theorem layer_refines (n : Node) : Refines E (layer rounds eval n) (layer rounds' eval' n) := by
  cases n with
  | integer | boolean | identifier | function | program | bare => exact .refl _
  | binary p operator left right =>
    exact .bind (h left) fun _ => .bind (h right) fun _ => .refl _
  | minus p operand => exact .bind (h operand) fun _ => .refl _
  | not p operand => exact .bind (h operand) fun _ => .refl _
  | call p name arguments =>
    refine .after fun s => ?_
    cases callee s.env name arguments.length with
    | error fault => exact .refl _
    | ok function =>
      exact .bind (.valuesOf h arguments) fun _ => .inScope (.runBlock h function.2) _
  | assignment p name value => exact .bind (h value) fun _ => .refl _
  | conditional p condition consequence alternative =>
    refine .bind (.test h condition) fun b => ?_
    cases b with
    | none => exact .refl _
    | some b =>
      cases b with
      | true => exact .runBlock h consequence
      | false =>
        cases alternative with
        | none => exact .refl _
        | some b => exact .runBlock h b
  | loop p condition body =>
    exact .repeatWhile (.test h condition) (.runBlock h body) hrounds hmore none
  | block b => exact .runBlock h b

end Layer

section Limits

variable {E : Halt → Prop} (hdeep : E .tooDeep) {limits limits' : Limits}
  (hdepth : limits.depth ≤ limits'.depth) (hrounds : limits.rounds ≤ limits'.rounds)
  (hmore : limits.rounds = limits'.rounds ∨ E .unfinished)

include hdeep hdepth hrounds hmore

/-- Under limits, evaluating a node refines evaluating it under larger ones. -/
theorem evaluate_refines (n : Node) : Refines E (evaluate limits n) (evaluate limits' n) := by
  obtain ⟨depth, rounds⟩ := limits
  obtain ⟨depth', rounds'⟩ := limits'
  show Refines E (evaluateAt rounds depth n) (evaluateAt rounds' depth' n)
  induction depth generalizing depth' n with
  | zero => exact .fail hdeep _
  | succ depth ih =>
    have hpos : 0 < depth' := Nat.lt_of_lt_of_le (Nat.succ_pos depth) hdepth
    obtain ⟨more, rfl⟩ := Nat.exists_eq_add_one.2 hpos
    exact layer_refines (fun m => ih m more (Nat.le_of_succ_le_succ hdepth) hrounds hmore) hrounds
      hmore n

variable (limits limits') in
/-- A program whose forms do not stop at the limits is run alike under larger ones. -/
theorem evaluateProgram_run_eq {program : Program} {s : State}
    (hfree : ∀ halt t, E halt →
      (runSequence (evaluate limits) none program.forms).run s ≠ .error halt t) :
    (evaluateProgram limits program).run s = (evaluateProgram limits' program).run s := by
  obtain ⟨halt, t, hhalt, hrun⟩ | hrun :=
    Refines.runSequence (evaluate_refines hdeep hdepth hrounds hmore) program.forms none s
  · exact absurd hrun (hfree halt t hhalt)
  · simp only [evaluateProgram, hrun]

end Limits

/-- The diagnostics report that a run nested too deeply. -/
def CallsTooDeep (diagnostics : List Diagnostic) : Prop :=
  ∃ d ∈ diagnostics, d.fault = .meaning .callsTooDeep

instance (diagnostics : List Diagnostic) : Decidable (CallsTooDeep diagnostics) :=
  inferInstanceAs (Decidable (∃ d ∈ diagnostics, d.fault = .meaning .callsTooDeep))

theorem ne_tooDeep_of_not_callsTooDeep {limits : Limits} {program : Program} {s : State}
    (h : ¬ CallsTooDeep ((evaluateProgram limits program).run s).state.diagnostics) (t : State) :
    (runSequence (evaluate limits) none program.forms).run s ≠ .error .tooDeep t := by
  intro hdeep
  rw [run_evaluateProgram_of_tooDeep hdeep] at h
  exact h ⟨⟨.meaning .callsTooDeep, program.position⟩,
    List.mem_append_right _ List.mem_cons_self, rfl⟩

end Evaluation

open Evaluation

/-- Results do not depend on the depth limit unless they say so. A source that is not reported as
    nested too deeply parses to the same program with the same diagnostics under every larger limit.
    A program, whatever its tree, that is not reported as too deep when it runs from some scope,
    comes to the same under every larger limit: the same value or the same reason to stop, the same
    scope and the same diagnostics. -/
theorem larger_depth_same_results {depth depth' : Nat} (h : depth ≤ depth') (rounds : Nat) :
    (∀ source, ¬ DepthReached (parseSource ⟨depth, rounds⟩ source).2 →
      parseSource ⟨depth', rounds⟩ source = parseSource ⟨depth, rounds⟩ source) ∧
    ∀ (program : Program) (env : Environment),
      ¬ CallsTooDeep ((evaluateProgram ⟨depth, rounds⟩ program).run { env }).state.diagnostics →
      (evaluateProgram ⟨depth', rounds⟩ program).run { env } =
        (evaluateProgram ⟨depth, rounds⟩ program).run { env } := by
  refine ⟨fun source hsource => ?_, fun program env hrun => ?_⟩
  · exact (parseSource_eq_of_le ⟨depth', rounds⟩ h hsource).symm
  · symm
    refine evaluateProgram_run_eq (E := (· = .tooDeep)) rfl ⟨depth, rounds⟩ ⟨depth', rounds⟩ h
      (Nat.le_refl rounds) (.inl rfl) ?_
    rintro _ t rfl
    exact ne_tooDeep_of_not_callsTooDeep hrun t

/-- A call that divides by zero needs some depth, and is the same with more of it. -/
theorem larger_depth_same_results_call :
    let source := "f := función(n) \x7b n / 0 \x7d f(1)"
    let run := fun depth => (evaluateProgram ⟨depth, 3⟩ (parseSource ⟨9, 3⟩ source).1).run {}
    DepthReached (parseSource ⟨2, 3⟩ source).2 ∧
    CallsTooDeep (run 2).state.diagnostics ∧
    parseSource ⟨1000, 3⟩ source = parseSource ⟨9, 3⟩ source ∧
    run 1000 = run 9 ∧
    (run 9).state.diagnostics.map Diagnostic.fault = [.meaning .divisionByZero] := by
  intro source run
  obtain ⟨hparse, hdeep, hsmall, hrun, hfaults⟩ :
      ¬ DepthReached (parseSource ⟨9, 3⟩ source).2 ∧
      DepthReached (parseSource ⟨2, 3⟩ source).2 ∧
      CallsTooDeep (run 2).state.diagnostics ∧ ¬ CallsTooDeep (run 9).state.diagnostics ∧
      (run 9).state.diagnostics.map Diagnostic.fault = [.meaning .divisionByZero] := by
    decide +kernel
  obtain ⟨hsources, hprograms⟩ := larger_depth_same_results (by decide : 9 ≤ 1000) 3
  exact ⟨hdeep, hsmall, hsources source hparse, hprograms _ {} hrun, hfaults⟩

end Castellano
