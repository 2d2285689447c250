import Castellano.Proofs.Values
import Mathlib.Logic.Relation

/-!
# The evaluations inside a run

Evaluating a node makes further evaluations: of its operands, of the forms of its blocks, and of the
body of a function that it calls, which runs in a scope of its own. What is to hold at every moment
of a run is said of all of them: each scope of a run, and each change to it, is that of a task.

* `Task`: an evaluation to be made.
* `Reaches`, `Rounds`: how lists of nodes and loops come to their tasks.
* `Inner`: the tasks that a task makes, from one level to the next.
* `Program.Makes`: the tasks of a program.
* `layer_congr_of_inner`: what a task comes to depends on its inner tasks only; there are no others.
* `Task.Regular`: what is known of all tasks in a run of nodes that fit their places.
-/

namespace Castellano

namespace Evaluation

/-- An evaluation to be made: a node, the state in which it starts, and the depth that is left. -/
structure Task where
  depth : Nat
  node : Node
  state : State

/-- What the task comes to. -/
def Task.result (rounds : Nat) (task : Task) : Attempt.Result Halt State (Option Value) :=
  (evaluateAt rounds task.depth task.node).run task.state

/-- When the nodes are evaluated in order, `node` is one of them, and its evaluation starts in the
    second state. -/
inductive Reaches (eval : Node → Evaluation (Option Value)) :
    List Node → State → Node → State → Prop
  | head {node : Node} {nodes : List Node} {s : State} : Reaches eval (node :: nodes) s node s
  | tail {node node' : Node} {nodes : List Node} {value : Option Value} {s s' t : State}
    (h : (eval node).run s = .ok value s') (rest : Reaches eval nodes s' node' t) :
    Reaches eval (node :: nodes) s node' t

/-- The given number of rounds of a loop lead from the first state to the second: in each of them
    the check holds and the body runs to its end. -/
inductive Rounds (check : Evaluation (Option Bool)) (body : Evaluation (Option Value)) :
    Nat → State → State → Prop
  | zero {s : State} : Rounds check body 0 s s
  | succ {count : Nat} {value : Option Value} {s s₁ s₂ t : State}
    (hcheck : check.run s = .ok (some true) s₁) (hbody : body.run s₁ = .ok value s₂)
    (rest : Rounds check body count s₂ t) : Rounds check body (count + 1) s t

/-- The second task is one that the first makes. The block of a branch, of a loop or of a called
    function runs at the depth of the node itself, the forms in it one level deeper. -/
inductive Inner (rounds : Nat) : Task → Task → Prop
  | left {d : Nat} {p : Position} {operator : Token} {left right : Node} {s : State} :
    Inner rounds ⟨d + 1, .binary p operator left right, s⟩ ⟨d, left, s⟩
  | right {d : Nat} {p : Position} {operator : Token} {left right : Node} {s s' : State}
    {value : Option Value} (h : (evaluateAt rounds d left).run s = .ok value s') :
    Inner rounds ⟨d + 1, .binary p operator left right, s⟩ ⟨d, right, s'⟩
  | minus {d : Nat} {p : Position} {operand : Node} {s : State} :
    Inner rounds ⟨d + 1, .minus p operand, s⟩ ⟨d, operand, s⟩
  | not {d : Nat} {p : Position} {operand : Node} {s : State} :
    Inner rounds ⟨d + 1, .not p operand, s⟩ ⟨d, operand, s⟩
  | value {d : Nat} {p : Position} {name : String} {value : Node} {s : State} :
    Inner rounds ⟨d + 1, .assignment p name value, s⟩ ⟨d, value, s⟩
  | condition {d : Nat} {p : Position} {condition : Node} {consequence : Block Node}
    {alternative : Option (Block Node)} {s : State} :
    Inner rounds ⟨d + 1, .conditional p condition consequence alternative, s⟩ ⟨d, condition, s⟩
  | consequence {d : Nat} {p : Position} {condition : Node} {consequence : Block Node}
    {alternative : Option (Block Node)} {s s' : State}
    (h : (test (evaluateAt rounds d) condition).run s = .ok (some true) s') :
    Inner rounds ⟨d + 1, .conditional p condition consequence alternative, s⟩
      ⟨d + 1, .block consequence, s'⟩
  | alternative {d : Nat} {p : Position} {condition : Node} {consequence alternative : Block Node}
    {s s' : State} (h : (test (evaluateAt rounds d) condition).run s = .ok (some false) s') :
    Inner rounds ⟨d + 1, .conditional p condition consequence (some alternative), s⟩
      ⟨d + 1, .block alternative, s'⟩
  | check {d count : Nat} {p : Position} {condition : Node} {body : Block Node} {s s' : State}
    (h : Rounds (test (evaluateAt rounds d) condition) (runBlock (evaluateAt rounds d) body) count
      s s') (hcount : count < rounds) :
    Inner rounds ⟨d + 1, .loop p condition body, s⟩ ⟨d, condition, s'⟩
  | round {d count : Nat} {p : Position} {condition : Node} {body : Block Node} {s s₁ s₂ : State}
    (h : Rounds (test (evaluateAt rounds d) condition) (runBlock (evaluateAt rounds d) body) count
      s s₁) (hcount : count < rounds)
    (hcheck : (test (evaluateAt rounds d) condition).run s₁ = .ok (some true) s₂) :
    Inner rounds ⟨d + 1, .loop p condition body, s⟩ ⟨d + 1, .block body, s₂⟩
  | argument {d : Nat} {p : Position} {name : String} {arguments : List Node} {argument : Node}
    {function : List Parameter × Block Node} {s s' : State}
    (hcallee : callee s.env name arguments.length = .ok function)
    (h : Reaches (evaluateAt rounds d) arguments s argument s') :
    Inner rounds ⟨d + 1, .call p name arguments, s⟩ ⟨d, argument, s'⟩
  | body {d : Nat} {p : Position} {name : String} {arguments : List Node}
    {parameters : List Parameter} {body : Block Node} {values : List (Option Value)} {s s' : State}
    (hcallee : callee s.env name arguments.length = .ok (parameters, body))
    (hvalues : (valuesOf (evaluateAt rounds d) arguments).run s = .ok values s') :
    Inner rounds ⟨d + 1, .call p name arguments, s⟩
      ⟨d + 1, .block body,
        { s' with env := Environment.ofList ((parameters.map Parameter.name).zip values) }⟩
  | form {d : Nat} {b : Block Node} {form : Node} {s s' : State}
    (h : Reaches (evaluateAt rounds d) b.forms s form s') :
    Inner rounds ⟨d + 1, .block b, s⟩ ⟨d, form, s'⟩

end Evaluation

open Evaluation

/-- When the program is run from the given state on, the task is one of those that are made. -/
def Program.Makes (limits : Limits) (program : Program) (s : State) (task : Task) : Prop :=
  ∃ form t, Reaches (evaluate limits) program.forms s form t ∧
    Relation.ReflTransGen (Inner limits.rounds) ⟨limits.depth, form, t⟩ task

namespace Evaluation

/-! ## Nothing else is evaluated -/

section

variable {eval eval' : Node → Evaluation (Option Value)}

theorem valuesOf_congr {nodes : List Node} {s : State}
    (h : ∀ m t, Reaches eval nodes s m t → (eval' m).run t = (eval m).run t) :
    (valuesOf eval' nodes).run s = (valuesOf eval nodes).run s := by
  induction nodes generalizing s with
  | nil => rfl
  | cons n nodes ih =>
    rw [valuesOf, valuesOf, Attempt.run_bind, Attempt.run_bind, h n s .head]
    cases hn : (eval n).run s with
    | error halt s' => rfl
    | ok v s' =>
      simp only [Attempt.run_bind]
      rw [ih fun m t hreaches => h m t (.tail hn hreaches)]

theorem runForms_congr {forms : List Node} {s : State}
    (h : ∀ m t, Reaches eval forms s m t → (eval' m).run t = (eval m).run t)
    (result : Option Value) :
    (runForms eval' result forms).run s = (runForms eval result forms).run s := by
  induction forms generalizing s result with
  | nil => rfl
  | cons f forms ih =>
    rw [runForms, runForms, Attempt.run_bind, Attempt.run_bind, h f s .head]
    cases hf : (eval f).run s with
    | error halt s' => rfl
    | ok v s' => exact ih (fun m t hreaches => h m t (.tail hf hreaches)) _

theorem test_congr {n : Node} {s : State} (h : (eval' n).run s = (eval n).run s) :
    (test eval' n).run s = (test eval n).run s := by
  rw [test, test, Attempt.run_bind, Attempt.run_bind, h]

theorem repeatWhile_congr {check check' : Evaluation (Option Bool)}
    {body body' : Evaluation (Option Value)} {rounds : Nat} {s : State}
    (hcheck : ∀ count t, Rounds check body count s t → count < rounds →
      check'.run t = check.run t)
    (hbody : ∀ count t t', Rounds check body count s t → count < rounds →
      check.run t = .ok (some true) t' → body'.run t' = body.run t')
    (result : Option Value) :
    (repeatWhile check' body' rounds result).run s =
      (repeatWhile check body rounds result).run s := by
  induction rounds generalizing s result with
  | zero => rfl
  | succ rounds ih =>
    rw [repeatWhile, repeatWhile, Attempt.run_bind, Attempt.run_bind,
      hcheck 0 s .zero (Nat.succ_pos _)]
    cases hc : check.run s with
    | error halt t => rfl
    | ok b t =>
      cases b with
      | none => rfl
      | some b =>
        cases b with
        | false => rfl
        | true =>
          simp only [Attempt.run_bind]
          rw [hbody 0 s t .zero (Nat.succ_pos _) hc]
          cases hb : body.run t with
          | error halt t' => rfl
          | ok v t' =>
            refine ih (fun count u hu hcount => ?_) (fun count u u' hu hcount => ?_) v
            · exact hcheck (count + 1) u (.succ hc hb hu) (by omega)
            · exact hbody (count + 1) u u' (.succ hc hb hu) (by omega)

end

/-- An evaluation makes no others than its inner tasks: what another evaluator does elsewhere is of
    no consequence. -/
theorem layer_congr_of_inner {rounds d : Nat} {n : Node} {s : State}
    {eval : Node → Evaluation (Option Value)}
    (h : ∀ m t, Relation.TransGen (Inner rounds) ⟨d + 1, n, s⟩ ⟨d, m, t⟩ →
      (eval m).run t = (evaluateAt rounds d m).run t) :
    (layer rounds eval n).run s = (evaluateAt rounds (d + 1) n).run s := by
  -- a block inside is a task of its own, so that its forms are two steps away
  have hforms : ∀ b t, Relation.ReflTransGen (Inner rounds) ⟨d + 1, n, s⟩ ⟨d + 1, .block b, t⟩ →
      (runBlock eval b).run t = (runBlock (evaluateAt rounds d) b).run t :=
    fun b t hb => runForms_congr (fun m u hu => h m u (.tail' hb (.form hu))) none
  rw [evaluateAt]
  cases n with
  | integer | boolean | identifier | function | program | bare => rfl
  | binary p operator left right =>
    rw [layer, layer, Attempt.run_bind, Attempt.run_bind, h left s (.single .left)]
    cases hl : (evaluateAt rounds d left).run s with
    | error halt t => rfl
    | ok a t =>
      simp only [Attempt.run_bind]
      rw [h right t (.single (.right hl))]
  | minus p operand =>
    rw [layer, layer, Attempt.run_bind, Attempt.run_bind, h operand s (.single .minus)]
  | not p operand =>
    rw [layer, layer, Attempt.run_bind, Attempt.run_bind, h operand s (.single .not)]
  | assignment p name value =>
    rw [layer, layer, Attempt.run_bind, Attempt.run_bind, h value s (.single .value)]
  | conditional p condition consequence alternative =>
    simp only [layer, Attempt.run_bind]
    rw [test_congr (h condition s (.single .condition))]
    cases ht : (test (evaluateAt rounds d) condition).run s with
    | error halt t => rfl
    | ok b t =>
      cases b with
      | none => rfl
      | some b =>
        cases b with
        | true => exact hforms consequence t (.single (.consequence ht))
        | false =>
          cases alternative with
          | none => rfl
          | some b => exact hforms b t (.single (.alternative ht))
  | loop p condition body =>
    refine repeatWhile_congr (fun count t ht hcount => ?_) (fun count t t' ht hcount hc => ?_) none
    · exact test_congr (h condition t (.single (.check ht hcount)))
    · exact hforms body t' (.single (.round ht hcount hc))
  | call p name arguments =>
    rw [layer, layer, Attempt.run_bind, Attempt.run_bind, Attempt.run_state]
    simp only
    cases hcallee : callee s.env name arguments.length with
    | error fault => rfl
    | ok function =>
      simp only [Attempt.run_bind]
      rw [valuesOf_congr fun m t ht => h m t (.single (.argument hcallee ht))]
      cases hvalues : (valuesOf (evaluateAt rounds d) arguments).run s with
      | error halt t => rfl
      | ok values t =>
        simp only [inScope]
        rw [hforms function.2 _ (.single (.body hcallee hvalues))]
  | block b => exact hforms b s .refl

/-! ## Invariants -/

section

variable {I : State → Prop} {R : Halt → Prop} {s t : State}

theorem Reaches.keeps {eval : Node → Evaluation (Option Value)} {nodes : List Node} {node : Node}
    {post : Option Value → Prop} (h : Reaches eval nodes s node t)
    (heval : ∀ n ∈ nodes, Keeps I R (eval n) post) (hs : I s) : node ∈ nodes ∧ I t := by
  induction h with
  | head => exact ⟨List.mem_cons_self, hs⟩
  | tail hrun _ ih =>
    obtain ⟨hnode, hnodes⟩ := List.forall_mem_cons.1 heval
    obtain ⟨hmem, ht⟩ := ih hnodes (hnode.ok hs hrun).2
    exact ⟨List.mem_cons_of_mem _ hmem, ht⟩

theorem Rounds.keeps {check : Evaluation (Option Bool)} {body : Evaluation (Option Value)}
    {count : Nat} {post : Option Bool → Prop} {post' : Option Value → Prop}
    (h : Rounds check body count s t) (hcheck : Keeps I R check post)
    (hbody : Keeps I R body post') (hs : I s) : I t := by
  induction h with
  | zero => exact hs
  | succ hc hb _ ih => exact ih (hbody.ok (hcheck.ok hs hc).2 hb).2

end

/-! ## Nodes that fit their places -/

variable {N : Node → Prop}

/-- A task whose node belongs to the collection, in a regular state. -/
structure Task.Regular (N : Node → Prop) (task : Task) : Prop where
  node : N task.node
  state : task.state.Regular N

theorem Task.Regular.keeps (hN : Node.Stock N) (rounds : Nat) {task : Task} (h : task.Regular N) :
    (task.result rounds).state.Regular N :=
  (evaluateAt_keeps hN rounds task.depth h.node).state_run h.state

/-- The tasks that a regular task makes are regular. -/
theorem Inner.regular (hN : Node.Stock N) {rounds : Nat} {task task' : Task}
    (h : Inner rounds task task') (htask : task.Regular N) : task'.Regular N := by
  obtain ⟨hn, hs⟩ := htask
  have heval : ∀ d n, N n → KeepsRegular N (evaluateAt rounds d n) :=
    fun d _ => evaluateAt_keeps hN rounds d
  have htest : ∀ {d n s s' b}, N n → s.Regular N →
      (test (evaluateAt rounds d) n).run s = .ok b s' → s'.Regular N :=
    fun hn hs h => ((test_keeps (heval _) hn).ok hs h).2
  cases h with
  | left => exact ⟨(hN.binary hn).1, hs⟩
  | right h => exact ⟨(hN.binary hn).2, ((heval _ _ (hN.binary hn).1).ok hs h).2⟩
  | minus => exact ⟨hN.minus hn, hs⟩
  | not => exact ⟨hN.not hn, hs⟩
  | value => exact ⟨hN.assignment hn, hs⟩
  | condition => exact ⟨(hN.conditional hn).1, hs⟩
  | consequence h =>
    obtain ⟨hcondition, hconsequence, -⟩ := hN.conditional hn
    exact ⟨hconsequence, htest hcondition hs h⟩
  | alternative h =>
    obtain ⟨hcondition, -, halternative⟩ := hN.conditional hn
    exact ⟨halternative _ rfl, htest hcondition hs h⟩
  | check h hcount =>
    obtain ⟨hcondition, hbody⟩ := hN.loop hn
    exact ⟨hcondition, h.keeps (test_keeps (heval _) hcondition)
      (runBlock_keeps hN (heval _) hbody) hs⟩
  | round h hcount hcheck =>
    obtain ⟨hcondition, hbody⟩ := hN.loop hn
    have hstart := h.keeps (test_keeps (heval _) hcondition) (runBlock_keeps hN (heval _) hbody) hs
    exact ⟨hbody, htest hcondition hstart hcheck⟩
  | argument hcallee h =>
    obtain ⟨hmem, ht⟩ := h.keeps (fun a ha => heval _ a (hN.call hn a ha)) hs
    exact ⟨hN.call hn _ hmem, ht⟩
  | body hcallee hvalues =>
    obtain ⟨hknown, hs'⟩ :=
      (Keeps.valuesOf fun a ha => heval _ a (hN.call hn a ha)).ok hs hvalues
    obtain ⟨q, parameters, body, hfind, hfound⟩ | ⟨fault, -, -, hfound⟩ := callee_cases _ _ _
    · have hfunction : N (.function q parameters body) := hs.env.of_find? hfind
      rw [hcallee] at hfound
      cases hfound
      refine ⟨hN.function hfunction, ?_, hs'.diagnostics⟩
      exact Environment.holds_ofList fun b hb => hknown b.2 (List.of_mem_zip hb).2
    · rw [hcallee] at hfound
      cases hfound
  | form h =>
    obtain ⟨hmem, ht⟩ := h.keeps (fun f hf => heval _ f (hN.block hn f hf)) hs
    exact ⟨hN.block hn _ hmem, ht⟩

end Evaluation

/-- All tasks of a program are regular, if it starts in a regular state. -/
theorem Program.Makes.regular {N : Node → Prop} (hN : Node.Stock N) {limits : Limits}
    {program : Program} {s : State} {task : Task} (h : program.Makes limits s task)
    (hforms : ∀ f ∈ program.forms, N f) (hs : s.Regular N) : task.Regular N := by
  obtain ⟨form, t, hreaches, hinner⟩ := h
  obtain ⟨hmem, ht⟩ := hreaches.keeps (fun f hf => evaluateAt_keeps hN _ _ (hforms f hf)) hs
  induction hinner with
  | refl => exact ⟨hforms form hmem, ht⟩
  | tail _ hstep ih => exact hstep.regular hN ih

end Castellano
