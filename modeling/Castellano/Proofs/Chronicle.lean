import Castellano.Proofs.Sessions

/-!
# The events of a run

What is to hold at every moment of a run, and of all that has happened up to then, is said of a list
of events: the evaluation of each node begins in some state and comes to some result, and in between
lie the events of the evaluations that it makes. The evaluator is written once more so that it keeps
such a list; without the list, it is the same evaluator.

* `Event`, `Chronicle`: events, and runs that list theirs.
* `Chronicle.layer`, `Chronicle.evaluateAt`, `Program.history`: evaluating nodes and programs.
* `Chronicle.forget_evaluateAt`: without its events, a run is the run that it was.
-/

namespace Castellano

namespace Evaluation

/-- What happens in a run: the evaluation of a node begins in a state, or ends. -/
inductive Event where
  | begins (node : Node) (state : State)
  | ends (node : Node) (result : Attempt.Result Halt State (Option Value))

/-- The state right after the event. -/
def Event.state : Event → State
  | begins _ s => s
  | ends _ result => result.state

/-- A run that lists its events, the first one first. -/
structure Chronicle (α : Type) where
  run : State → List Event × Attempt.Result Halt State α

namespace Chronicle

variable {α β : Type}

instance : Monad Chronicle where
  pure a := ⟨fun s => ([], .ok a s)⟩
  bind x f := ⟨fun s =>
    match (x.run s).2 with
    | .ok a t => ((x.run s).1 ++ ((f a).run t).1, ((f a).run t).2)
    | .error halt t => ((x.run s).1, .error halt t)⟩

theorem run_bind_ok {x : Chronicle α} {f : α → Chronicle β} {s t : State} {a : α}
    (h : (x.run s).2 = .ok a t) :
    (x >>= f).run s = ((x.run s).1 ++ ((f a).run t).1, ((f a).run t).2) := by
  show (match (x.run s).2 with
    | .ok a t => ((x.run s).1 ++ ((f a).run t).1, ((f a).run t).2)
    | .error halt t => ((x.run s).1, .error halt t)) = _
  rw [h]

theorem run_bind_error {x : Chronicle α} {f : α → Chronicle β} {s t : State} {halt : Halt}
    (h : (x.run s).2 = .error halt t) : (x >>= f).run s = ((x.run s).1, .error halt t) := by
  show (match (x.run s).2 with
    | .ok a t => ((x.run s).1 ++ ((f a).run t).1, ((f a).run t).2)
    | .error halt t => ((x.run s).1, .error halt t)) = _
  rw [h]

/-- The run without the list. -/
def forget (x : Chronicle α) : Evaluation α := ⟨fun s => (x.run s).2⟩

/-- A run without events. -/
def quietly (x : Evaluation α) : Chronicle α := ⟨fun s => ([], x.run s)⟩

/-- The events of a run that evaluates the node. -/
def noting (node : Node) (x : Chronicle (Option Value)) : Chronicle (Option Value) := ⟨fun s =>
  (.begins node s :: ((x.run s).1 ++ [.ends node (x.run s).2]), (x.run s).2)⟩

/-- Runs something in a scope of its own. -/
def inScope (scope : Environment) (body : Chronicle α) : Chronicle α := ⟨fun s =>
  ((body.run { s with env := scope }).1, (Evaluation.inScope scope body.forget).run s)⟩

/-! ## The evaluator -/

section Steps

variable (eval : Node → Chronicle (Option Value))

/-- The values of nodes, from left to right. -/
def valuesOf : List Node → Chronicle (List (Option Value))
  | [] => return []
  | node :: nodes => do
    let value ← eval node
    return value :: (← valuesOf nodes)

/-- Runs forms in order; the result is the last value that one of them had, or the given one. -/
def runForms (result : Option Value) : List Node → Chronicle (Option Value)
  | [] => return result
  | form :: forms => do runForms ((← eval form).or result) forms

/-- Runs a block: the last value that one of its forms had. -/
def runBlock (b : Block Node) : Chronicle (Option Value) := runForms eval none b.forms

/-- The truth value of a condition. -/
def test (node : Node) : Chronicle (Option Bool) := do
  match ← eval node with
  | none => return none
  | some (.boolean b) => return some b
  | some value => quietly (report node.position (.conditionNotBoolean value.kind))

/-- Runs a body while a check holds. -/
def repeatWhile (check : Chronicle (Option Bool)) (body : Chronicle (Option Value)) :
    (rounds : Nat) → (result : Option Value) → Chronicle (Option Value)
  | 0, _ => quietly (Attempt.fail .unfinished)
  | rounds + 1, result => do
    match ← check with
    | none => return none
    | some false => return result
    | some true => do repeatWhile check body rounds (← body)

/-- Runs forms in order; the result is the value of the last one, or the given one. -/
def runSequence (result : Option Value) : List Node → Chronicle (Option Value)
  | [] => return result
  | form :: forms => do runSequence (← eval form) forms

/-- The value of a node, from those of the nodes below it. -/
def layer (rounds : Nat) : Node → Chronicle (Option Value)
  | .assignment _ name value => do
    let value ← eval value
    quietly (assign name value)
    return none
  | .binary position operator left right => do
    let left ← eval left
    let right ← eval right
    match left, right with
    | some left, some right => quietly (settle position (combine operator left right))
    | _, _ => return none
  | .minus position operand => do
    match ← eval operand with
    | some value => quietly (settle position (negate value))
    | none => return none
  | .not position operand => do
    match ← eval operand with
    | some value => quietly (settle position (invert value))
    | none => return none
  | .conditional _ condition consequence alternative => do
    match ← test eval condition with
    | none => return none
    | some true => runBlock eval consequence
    | some false =>
      match alternative with
      | some b => runBlock eval b
      | none => return none
  | .loop _ condition body => repeatWhile (test eval condition) (runBlock eval body) rounds none
  | .call position name arguments => do
    match callee (← quietly Attempt.state).env name arguments.length with
    | .error setback => quietly (concede position setback)
    | .ok (parameters, body) => do
      let values ← valuesOf eval arguments
      let scope := Environment.ofList ((parameters.map Parameter.name).zip values)
      inScope scope (runBlock eval body)
  | .block b => runBlock eval b
  -- nothing is evaluated below the nodes that are left
  | node => quietly (Evaluation.layer rounds (fun _ => Attempt.fail .tooDeep) node)

end Steps

/-- The value of a tree with at most `depth` nodes under evaluation inside each other. -/
def evaluateAt (rounds : Nat) : (depth : Nat) → Node → Chronicle (Option Value)
  | 0, node => noting node (quietly (Attempt.fail .tooDeep))
  | depth + 1, node => noting node (layer (evaluateAt rounds depth) rounds node)

/-! ## The same runs -/

theorem forget_bind {x : Chronicle α} {f : α → Chronicle β} {y : Evaluation α}
    {g : α → Evaluation β} (hx : x.forget = y) (hf : ∀ a, (f a).forget = g a) :
    (x >>= f).forget = y >>= g := by
  subst hx
  refine congrArg Attempt.mk (funext fun s => ?_)
  cases hx : (x.run s).2 with
  | ok a t =>
    have hforget : x.forget.run s = .ok a t := hx
    rw [run_bind_ok hx, hforget]
    exact congrArg (fun y => y.run t) (hf a)
  | error halt t =>
    have hforget : x.forget.run s = .error halt t := hx
    rw [run_bind_error hx, hforget]

section Steps

variable {eval : Node → Chronicle (Option Value)} {eval' : Node → Evaluation (Option Value)}
  (h : ∀ n, (eval n).forget = eval' n)

include h

theorem forget_valuesOf (nodes : List Node) :
    (valuesOf eval nodes).forget = Evaluation.valuesOf eval' nodes := by
  induction nodes with
  | nil => rfl
  | cons n nodes ih => exact forget_bind (h n) fun _ => forget_bind ih fun _ => rfl

theorem forget_runForms (forms : List Node) (result : Option Value) :
    (runForms eval result forms).forget = Evaluation.runForms eval' result forms := by
  induction forms generalizing result with
  | nil => rfl
  | cons f forms ih => exact forget_bind (h f) fun _ => ih _

theorem forget_runBlock (b : Block Node) :
    (runBlock eval b).forget = Evaluation.runBlock eval' b :=
  forget_runForms h b.forms none

theorem forget_runSequence (forms : List Node) (result : Option Value) :
    (runSequence eval result forms).forget = Evaluation.runSequence eval' result forms := by
  induction forms generalizing result with
  | nil => rfl
  | cons f forms ih => exact forget_bind (h f) fun _ => ih _

theorem forget_test (n : Node) : (test eval n).forget = Evaluation.test eval' n := by
  rw [test_eq]
  refine forget_bind (h n) fun v => ?_
  cases v with
  | none => rfl
  | some v => cases v <;> rfl

end Steps

theorem forget_repeatWhile {check : Chronicle (Option Bool)} {check' : Evaluation (Option Bool)}
    {body : Chronicle (Option Value)} {body' : Evaluation (Option Value)}
    (hcheck : check.forget = check') (hbody : body.forget = body') (rounds : Nat)
    (result : Option Value) :
    (repeatWhile check body rounds result).forget =
      Evaluation.repeatWhile check' body' rounds result := by
  induction rounds generalizing result with
  | zero => rfl
  | succ rounds ih =>
    refine forget_bind hcheck fun b => ?_
    cases b with
    | none => rfl
    | some b =>
      cases b with
      | false => rfl
      | true => exact forget_bind hbody fun v => ih v

theorem forget_inScope {body : Chronicle α} {body' : Evaluation α} (h : body.forget = body')
    (scope : Environment) : (inScope scope body).forget = Evaluation.inScope scope body' := by
  rw [← h]
  rfl

theorem forget_layer {eval : Node → Chronicle (Option Value)}
    {eval' : Node → Evaluation (Option Value)} (h : ∀ n, (eval n).forget = eval' n) (rounds : Nat)
    (n : Node) : (layer eval rounds n).forget = Evaluation.layer rounds eval' n := by
  cases n with
  | integer | boolean | identifier | function | program | bare => rfl
  | binary p operator left right =>
    refine forget_bind (h left) fun a => forget_bind (h right) fun b => ?_
    cases a <;> cases b <;> rfl
  | minus p operand =>
    refine forget_bind (h operand) fun v => ?_
    cases v <;> rfl
  | not p operand =>
    refine forget_bind (h operand) fun v => ?_
    cases v <;> rfl
  | call p name arguments =>
    refine forget_bind rfl fun s => ?_
    cases callee s.env name arguments.length with
    | error fault => rfl
    | ok function =>
      exact forget_bind (forget_valuesOf h arguments) fun _ =>
        forget_inScope (forget_runBlock h function.2) _
  | assignment p name value => exact forget_bind (h value) fun _ => forget_bind rfl fun _ => rfl
  | conditional p condition consequence alternative =>
    refine forget_bind (forget_test h condition) fun b => ?_
    cases b with
    | none => rfl
    | some b =>
      cases b with
      | true => exact forget_runBlock h consequence
      | false =>
        cases alternative with
        | none => rfl
        | some b => exact forget_runBlock h b
  | loop p condition body =>
    exact forget_repeatWhile (forget_test h condition) (forget_runBlock h body) rounds none
  | block b => exact forget_runBlock h b

/-- Listing its events does not change a run. -/
theorem forget_evaluateAt (rounds depth : Nat) (n : Node) :
    (evaluateAt rounds depth n).forget = Evaluation.evaluateAt rounds depth n := by
  induction depth generalizing n with
  | zero => rfl
  | succ depth ih => exact forget_layer ih rounds n

end Chronicle

end Evaluation

open Evaluation

/-- The forms of a program, run in order with their events. -/
def Program.chronicle (limits : Limits) (program : Program) : Chronicle (Option Value) :=
  Chronicle.runSequence (Chronicle.evaluateAt limits.rounds limits.depth) none program.forms

/-- The events of a program that is run from the given state on. -/
def Program.history (limits : Limits) (program : Program) (s : State) : List Event :=
  ((program.chronicle limits).run s).1

theorem Program.forget_chronicle (limits : Limits) (program : Program) :
    (program.chronicle limits).forget = runSequence (evaluate limits) none program.forms :=
  Chronicle.forget_runSequence (Chronicle.forget_evaluateAt limits.rounds limits.depth) _ none

end Castellano
