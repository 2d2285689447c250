import Castellano.Proofs.Values

/-!
# What a run changes in its scope

A run changes its scope at the names that its node assigns, outside function literals, and nowhere
else; it takes no binding away. This holds of runs that stop before their end too. A call changes
the scope of its caller not at all, whatever its body assigns, so that an expression leaves the
scope as it is.

* `Node.assignedNames`: the names that a node assigns.
* `Environment.Rebound`: a scope after assignments to some names.
* `Evaluation.Confined`: a run assigns the given names at most.
* `evaluateAt_confined`: evaluating a node is confined to the names that it assigns.
* `Shaped.assignedNames_eq_nil`: the expressions that the grammar builds assign nothing.
* `evaluation_rebinds_assigned_only`: the law for the nodes of parsed programs.
-/

namespace Castellano

/-! ## Assigned names -/

mutual

/-- The names that a tree assigns, outside function literals. -/
def Node.assignedNames : Node → List String
  | .assignment _ name value => name :: value.assignedNames
  | .binary _ _ left right => left.assignedNames ++ right.assignedNames
  | .minus _ operand | .not _ operand => operand.assignedNames
  | .call _ _ arguments => Node.assignedNamesAll arguments
  | .conditional _ condition consequence alternative =>
    condition.assignedNames ++
      (Block.assignedNames consequence ++ Block.assignedNamesOption alternative)
  | .loop _ condition body => condition.assignedNames ++ Block.assignedNames body
  | .block b => Block.assignedNames b
  | .program _ forms => Node.assignedNamesAll forms
  | .integer .. | .boolean .. | .identifier .. | .function .. | .bare .. => []

/-- The names that several trees assign. -/
def Node.assignedNamesAll : List Node → List String
  | [] => []
  | node :: nodes => node.assignedNames ++ Node.assignedNamesAll nodes

/-- The names that the forms of a block assign. -/
def Block.assignedNames : Block Node → List String
  | ⟨forms, _⟩ => Node.assignedNamesAll forms

/-- The names that a block, if there is one, assigns. -/
def Block.assignedNamesOption : Option (Block Node) → List String
  | none => []
  | some b => Block.assignedNames b

end

theorem Node.assignedNames_subset_all {node : Node} {nodes : List Node} (h : node ∈ nodes) :
    node.assignedNames ⊆ Node.assignedNamesAll nodes := by
  induction nodes with
  | nil => cases h
  | cons first rest ih =>
    rw [Node.assignedNamesAll]
    obtain rfl | h := List.mem_cons.1 h
    · exact List.subset_append_left _ _
    · exact List.subset_append_of_subset_right _ (ih h)

theorem Node.assignedNamesAll_eq_nil {nodes : List Node} (h : ∀ n ∈ nodes, n.assignedNames = []) :
    Node.assignedNamesAll nodes = [] := by
  induction nodes with
  | nil => rfl
  | cons n nodes ih =>
    obtain ⟨hn, hnodes⟩ := List.forall_mem_cons.1 h
    rw [Node.assignedNamesAll, hn, ih hnodes, List.nil_append]

/-- An expression that the grammar builds assigns nothing: assignments only stand in the bodies of
    its function literals. -/
theorem Shaped.assignedNames_eq_nil {n : Node} (h : Shaped .operand n) : n.assignedNames = [] := by
  generalize hplace : Place.operand = place at h
  induction h with
  | integer _ | boolean | identifier _ | function _ _ _ => rfl
  | binary _ _ _ hleft hright =>
    rw [Node.assignedNames, hleft rfl, hright rfl, List.nil_append]
  | minus _ ih => exact ih rfl
  | not _ ih => exact ih rfl
  | call _ _ ih => exact Node.assignedNamesAll_eq_nil fun a ha => ih a ha rfl
  | assignment _ _ _ | conditional _ _ _ _ _ _ | loop _ _ _ _ => cases hplace

/-! ## Scopes -/

namespace Environment

/-- The second scope is the first one after assignments to some of the names. -/
inductive Rebound (names : List String) (env : Environment) : Environment → Prop
  | refl : Rebound names env env
  | set {env' : Environment} {name : String} (h : Rebound names env env') (hname : name ∈ names)
    (value : Option Value) : Rebound names env (env'.set name value)

namespace Rebound

variable {names names' : List String} {env env' env'' : Environment}

theorem trans (h : Rebound names env env') (h' : Rebound names env' env'') :
    Rebound names env env'' := by
  induction h' with
  | refl => exact h
  | set _ hname value ih => exact .set ih hname value

theorem mono (h : Rebound names env env') (hnames : names ⊆ names') : Rebound names' env env' := by
  induction h with
  | refl => exact .refl
  | set _ hname value ih => exact .set ih (hnames hname) value

theorem contains (h : Rebound names env env') {name : String} (hname : env.contains name) :
    env'.contains name := by
  induction h with
  | refl => exact hname
  | set _ _ value ih =>
    rw [Environment.contains] at ih ⊢
    rw [find?_set]
    split
    · rfl
    · exact ih

theorem find?_eq (h : Rebound names env env') {name : String} (hname : name ∉ names) :
    env'.find? name = env.find? name := by
  induction h with
  | refl => rfl
  | @set _ other _ hother value ih =>
    have hne : name ≠ other := by
      rintro rfl
      exact hname hother
    rw [find?_set, if_neg hne, ih]

theorem eq_of_nil (h : Rebound [] env env') : env' = env := by
  cases h with
  | refl => rfl
  | set _ hname _ => cases hname

end Rebound

end Environment

/-! ## Runs -/

namespace Evaluation

/-- Whatever happens, the run leaves its scope with at most the given names assigned. -/
def Confined (names : List String) {α : Type} (x : Evaluation α) : Prop :=
  ∀ env : Environment,
    Keeps (fun s => env.Rebound names s.env) (fun _ => True) x fun _ => True

/-- Of every run something can be said that is always true. -/
theorem keeps_true {α : Type} (x : Evaluation α) :
    Keeps (fun _ => True) (fun _ => True) x fun _ => True :=
  ⟨fun _ _ => ⟨trivial, trivial⟩, fun _ _ => ⟨trivial, trivial⟩⟩

namespace Confined

variable {names names' : List String} {α β : Type}

theorem state_run {x : Evaluation α} (h : Confined names x) (s : State) :
    s.env.Rebound names (x.run s).state.env :=
  (h s.env).state_run .refl

theorem mono {x : Evaluation α} (h : Confined names x) (hnames : names ⊆ names') :
    Confined names' x := by
  intro env
  refine ⟨?_, ?_⟩
  · intro s t a hs hrun
    have hchange := h.state_run s
    rw [hrun] at hchange
    exact ⟨trivial, hs.trans (hchange.mono hnames)⟩
  · intro s t halt hs hrun
    have hchange := h.state_run s
    rw [hrun] at hchange
    exact ⟨trivial, hs.trans (hchange.mono hnames)⟩

theorem pure (a : α) : Confined names (Pure.pure a : Evaluation α) := fun _ => .pure trivial

theorem fail (halt : Halt) : Confined names (Attempt.fail halt : Evaluation α) :=
  fun _ => .fail trivial

theorem bind {x : Evaluation α} {f : α → Evaluation β} (hx : Confined names x)
    (hf : ∀ a, Confined names (f a)) : Confined names (x >>= f) :=
  fun env => .bind (hx env) fun a _ => hf a env

theorem bind_state {f : State → Evaluation α} (hf : ∀ s, Confined names (f s)) :
    Confined names (Attempt.state >>= f) :=
  fun env => .bind_state fun s _ => hf s env

theorem assign {name : String} (hname : name ∈ names) (value : Option Value) :
    Confined names (assign name value) :=
  fun _ => .update fun _ hs => .set hs hname value

theorem report (position : Position) (fault : MeaningFault) :
    Confined names (report position fault : Evaluation (Option α)) :=
  fun _ => .report (fun _ hs => hs) trivial

theorem concede (position : Position) (setback : Setback) :
    Confined names (concede position setback : Evaluation (Option α)) :=
  fun _ => .concede (fun _ _ _ hs => hs) (fun _ _ => trivial) trivial

theorem settle (position : Position) (result : Outcome Value) :
    Confined names (settle position result) :=
  fun _ => .settle (fun _ _ => trivial) (fun _ _ _ hs => hs) (fun _ _ => trivial) trivial

/-- What a body does in a scope of its own leaves no trace in the current one. -/
theorem inScope (scope : Environment) (body : Evaluation α) :
    Confined names (inScope scope body) :=
  fun _ => .inScope (keeps_true body) (fun _ _ => trivial) fun _ _ hs _ => hs

theorem test {eval : Node → Evaluation (Option Value)} {n : Node} (h : Confined names (eval n)) :
    Confined names (test eval n) :=
  fun env => .test (h env) fun _ _ hs => hs

end Confined

/-! ## Nodes -/

section Layer

variable {eval : Node → Evaluation (Option Value)}
  (heval : ∀ n, Confined n.assignedNames (eval n))

include heval

theorem forall_confined (nodes : List Node) :
    ∀ n ∈ nodes, Confined (Node.assignedNamesAll nodes) (eval n) :=
  fun n hn => (heval n).mono (Node.assignedNames_subset_all hn)

theorem runBlock_confined (b : Block Node) :
    Confined (Block.assignedNames b) (runBlock eval b) := by
  obtain ⟨forms, p⟩ := b
  intro env
  exact .runBlock (fun f hf => forall_confined heval forms f hf env) trivial

theorem layer_confined (rounds : Nat) (n : Node) :
    Confined n.assignedNames (layer rounds eval n) := by
  cases n with
  | integer p value => exact .pure _
  | boolean p value => exact .pure _
  | identifier p name =>
    refine .bind_state fun s => ?_
    cases s.env.find? name with
    | none => exact .report p _
    | some value => exact .pure value
  | binary p operator left right =>
    rw [Node.assignedNames]
    have hleft := (heval left).mono (List.subset_append_left _ right.assignedNames)
    have hright := (heval right).mono (List.subset_append_right left.assignedNames _)
    refine .bind hleft fun a => .bind hright fun b => ?_
    cases a with
    | none => exact .pure none
    | some a =>
      cases b with
      | none => exact .pure none
      | some b => exact .settle p _
  | minus p operand =>
    rw [Node.assignedNames]
    refine .bind (heval operand) fun v => ?_
    cases v with
    | none => exact .pure none
    | some v => exact .settle p _
  | not p operand =>
    rw [Node.assignedNames]
    refine .bind (heval operand) fun v => ?_
    cases v with
    | none => exact .pure none
    | some v => exact .settle p _
  | call p name arguments =>
    rw [Node.assignedNames]
    refine .bind_state fun s => ?_
    cases callee s.env name arguments.length with
    | error setback => exact .concede p setback
    | ok function =>
      -- only the arguments run in the scope of the caller
      have harguments : Confined (Node.assignedNamesAll arguments) (valuesOf eval arguments) := by
        intro env
        have hvalues := Keeps.valuesOf fun a ha => forall_confined heval arguments a ha env
        exact ⟨fun hs h => ⟨trivial, (hvalues.ok hs h).2⟩, hvalues.error⟩
      exact .bind harguments fun values => .inScope _ _
  | function p parameters body => exact .pure _
  | assignment p name value =>
    rw [Node.assignedNames]
    have hvalue := (heval value).mono (List.subset_cons_self name _)
    exact .bind hvalue fun v => .bind (.assign List.mem_cons_self v) fun _ => .pure none
  | conditional p condition consequence alternative =>
    rw [Node.assignedNames]
    have hcondition := (heval condition).mono (List.subset_append_left _
      (Block.assignedNames consequence ++ Block.assignedNamesOption alternative))
    refine .bind (.test hcondition) fun b => ?_
    cases b with
    | none => exact .pure none
    | some b =>
      cases b with
      | true =>
        refine (runBlock_confined heval consequence).mono ?_
        exact List.subset_append_of_subset_right _ (List.subset_append_left _ _)
      | false =>
        cases alternative with
        | none => exact .pure none
        | some b =>
          refine (runBlock_confined heval b).mono ?_
          exact List.subset_append_of_subset_right _ (List.subset_append_right _ _)
  | loop p condition body =>
    rw [Node.assignedNames]
    have hcondition := (heval condition).mono (List.subset_append_left _ (Block.assignedNames body))
    have hbody := (runBlock_confined heval body).mono
      (List.subset_append_right condition.assignedNames _)
    exact fun env =>
      .repeatWhile (Confined.test hcondition env) (hbody env) trivial trivial rounds trivial
  | block b =>
    rw [Node.assignedNames]
    exact runBlock_confined heval b
  | program p forms => exact .fail _
  | bare p kind => exact .fail _

end Layer

/-- Evaluating a node is confined to the names that it assigns, at every depth. -/
theorem evaluateAt_confined (rounds depth : Nat) (n : Node) :
    Confined n.assignedNames (evaluateAt rounds depth n) := by
  induction depth generalizing n with
  | zero => exact .fail .tooDeep
  | succ depth ih => exact layer_confined ih rounds n

end Evaluation

open Evaluation

/-- The node is an expression: neither an assignment nor a conditional, a loop or a block. -/
def Node.IsExpression (n : Node) : Prop :=
  n.kind ∉ [.assignment, .conditional, .loop, .block]

/-- A form that is an expression can also be an operand. -/
theorem Shaped.operand {n : Node} (h : Shaped .form n) (hn : n.IsExpression) :
    Shaped .operand n := by
  cases h with
  | integer h => exact .integer h
  | boolean => exact .boolean
  | identifier h => exact .identifier h
  | binary hoperator hleft hright => exact .binary hoperator hleft hright
  | minus h => exact .minus h
  | not h => exact .not h
  | call hname harguments => exact .call hname harguments
  | function hparameters hbody => exact .function hparameters hbody
  | assignment _ _ | conditional _ _ _ | loop _ _ => simp [Node.IsExpression, Node.kind] at hn

theorem Role.Admits.assignedNames_eq_nil {role : Role} {n : Node} (h : role.Admits n)
    (hn : n.IsExpression) : n.assignedNames = [] := by
  cases role with
  | form => exact (Shaped.operand h hn).assignedNames_eq_nil
  | parameter =>
    obtain ⟨q, rfl, -⟩ := h
    rfl
  | consequence | alternative | body =>
    obtain ⟨b, rfl, -⟩ := h
    simp [Node.IsExpression, Node.kind] at hn
  | _ => exact Shaped.assignedNames_eq_nil h

/-- What evaluating a node of a parsed program does to the scope, in whatever state it starts and
    however it ends: no binding is taken away, the names that the node does not assign are bound as
    before, and an expression leaves the whole scope as it was. -/
theorem evaluation_rebinds_assigned_only (limits : Limits) (source : String) (n : Node)
    (hn : (parseSource limits source).1.Contains n) (rounds depth : Nat) (s : State) :
    let t := ((evaluateAt rounds depth n).run s).state
    (∀ name, s.env.contains name → t.env.contains name) ∧
    (∀ name, name ∉ n.assignedNames → t.env.find? name = s.env.find? name) ∧
    (n.IsExpression → t.env = s.env) := by
  intro t
  have hchange : s.env.Rebound n.assignedNames t.env :=
    (evaluateAt_confined rounds depth n).state_run s
  refine ⟨fun _ => hchange.contains, fun _ => hchange.find?_eq, fun hexpression => ?_⟩
  obtain ⟨role, hbelow⟩ := hn
  have hnone := ((parseSource_shaped limits source).admits hbelow).assignedNames_eq_nil hexpression
  rw [hnone] at hchange
  exact hchange.eq_of_nil

/-- At a call of a function that assigns the `x` of its own scope and calls itself, until it nests
    too deeply. -/
theorem evaluation_rebinds_assigned_only_aborted :
    let definitions := "f := función(g. n) \x7b x := n. g(g. n + 1) \x7d x := 1 "
    let s : State := { env := (runSource ⟨9, 0⟩ definitions).env }
    ∃ n, (parseSource ⟨9, 0⟩ (definitions ++ "f(f. 0)")).1.Contains n ∧ n.IsExpression ∧
      (∃ t, (evaluateAt 0 20 n).run s = .error .tooDeep t ∧ t.env = s.env) ∧
      s.env.contains "x" := by
  intro definitions s
  -- the last form of the program is the call, and its evaluation stops
  obtain ⟨hlast, hbound⟩ :
      ((parseSource ⟨9, 0⟩ (definitions ++ "f(f. 0)")).1.forms.getLast?.map fun n =>
        (n.kind, (Run.ofEvaluation s.env (evaluateAt 0 20 n)).halt)) =
          some (.call, some .tooDeep) ∧ s.env.contains "x" := by decide +kernel
  obtain ⟨n, hform, hn⟩ := Option.map_eq_some_iff.1 hlast
  obtain ⟨hkind, hstops⟩ := Prod.mk.inj hn
  have hcontains : (parseSource ⟨9, 0⟩ (definitions ++ "f(f. 0)")).1.Contains n :=
    ⟨.form, .child (List.mem_map_of_mem (List.mem_of_getLast? hform))⟩
  have hexpression : n.IsExpression := by simp [Node.IsExpression, hkind]
  obtain ⟨-, -, hsame⟩ := evaluation_rebinds_assigned_only ⟨9, 0⟩ _ n hcontains 0 20 s
  refine ⟨n, hcontains, hexpression, ?_, hbound⟩
  rw [Run.ofEvaluation] at hstops
  cases hrun : (evaluateAt 0 20 n).run s with
  | ok v t => simp [s, hrun] at hstops
  | error halt t =>
    rw [hrun] at hsame
    obtain rfl : halt = .tooDeep := by simpa [s, hrun] using hstops
    exact ⟨t, rfl, hsame hexpression⟩

end Castellano
