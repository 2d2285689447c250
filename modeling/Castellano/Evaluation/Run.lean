import Castellano.Evaluation.Basic
import Castellano.Grammar.Program

/-!
# Runs

A source text parsed and evaluated.

* `runIn` — a source in a given scope, which it may change: a step of a session.
* `runSource` — a source in a scope of its own.
-/

namespace Castellano

/-- The result of running a source. -/
structure Run where
  /-- The value of the last form. -/
  value : Option Value := none
  /-- Why the run stopped before its end, if it did. -/
  halt : Option Halt := none
  /-- What parsing reported. -/
  parseDiagnostics : List Diagnostic := []
  /-- What evaluating reported. -/
  runDiagnostics : List Diagnostic := []
  /-- The scope afterwards. -/
  env : Environment := {}
deriving Inhabited

namespace Run

/-- All diagnostics, in order. -/
def diagnostics (r : Run) : List Diagnostic := r.parseDiagnostics ++ r.runDiagnostics

/-- The lines that a run prints: its diagnostics if they are wanted, and its value if it has one. -/
def report (showErrors : Bool) (r : Run) : List String :=
  let text := render r.value
  (if showErrors then r.diagnostics.map Diagnostic.toText else []) ++
    (if text = "" then [] else [text])

end Run

/-- The result of an evaluation that starts in the given scope. -/
def Run.ofEvaluation (env : Environment) (evaluation : Evaluation (Option Value)) : Run :=
  match evaluation.run { env } with
  | .ok value s => { value, env := s.env, runDiagnostics := s.diagnostics }
  | .error halt s => { halt := some halt, env := s.env, runDiagnostics := s.diagnostics }

/-- Runs a source in the given scope. -/
def runIn (limits : Limits) (env : Environment) (source : String) : Run :=
  let (program, parseDiagnostics) := parseSource limits source
  { Run.ofEvaluation env (Evaluation.evaluateProgram limits program) with parseDiagnostics }

/-- Runs a source in a scope of its own. -/
def runSource (limits : Limits) (source : String) : Run := runIn limits {} source

/-- Runs sources one after the other; each sees the bindings that those before it made. -/
def runSession (limits : Limits) (env : Environment) : List String → List Run
  | [] => []
  | source :: sources =>
    let run := runIn limits env source
    run :: runSession limits run.env sources

end Castellano
