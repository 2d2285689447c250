import Castellano.Evaluation.Run

/-!
# Evaluation depends on the free names only

The names that a node reads are those of its names and calls outside function literals. Two runs of
a node from scopes that agree on these names do the same: they end alike, report the same faults and
make the same changes. In particular a function sees nothing of the scope of its caller, and what
a call comes to is determined by the function and the values of the arguments.

* `Node.freeNames`: the names that a node reads.
* `Evaluation.SameChanges`, `SameOutcome`: two runs compared with the states they started from.
* `Evaluation.DependsOn`: from scopes that agree on the given names on, the outcomes are the same;
  closed under sequencing, scopes, lists of nodes and loops.
* `evaluateAt_dependsOn`: a node depends on its free names.
* `evaluation_depends_on_freeNames`: the same with the outcome of calls.
-/

namespace Castellano

/-! ## Free names -/

mutual

/-- The names that stand for values or are called in a tree, outside function literals. -/
def Node.freeNames : Node → List String
  | .identifier _ name => [name]
  | .binary _ _ left right => left.freeNames ++ right.freeNames
  | .minus _ operand | .not _ operand => operand.freeNames
  | .call _ name arguments => name :: Node.freeNamesAll arguments
  | .assignment _ _ value => value.freeNames
  | .conditional _ condition consequence alternative =>
    condition.freeNames ++ (Block.freeNames consequence ++ Block.freeNamesOption alternative)
  | .loop _ condition body => condition.freeNames ++ Block.freeNames body
  | .block b => Block.freeNames b
  | .program _ forms => Node.freeNamesAll forms
  | .integer .. | .boolean .. | .function .. | .bare .. => []

/-- The free names of several trees. -/
def Node.freeNamesAll : List Node → List String
  | [] => []
  | node :: nodes => node.freeNames ++ Node.freeNamesAll nodes

/-- The free names of the forms of a block. -/
def Block.freeNames : Block Node → List String
  | ⟨forms, _⟩ => Node.freeNamesAll forms

/-- The free names of a block, if there is one. -/
def Block.freeNamesOption : Option (Block Node) → List String
  | none => []
  | some b => Block.freeNames b

end

theorem Node.freeNames_subset_all {node : Node} {nodes : List Node} (h : node ∈ nodes) :
    node.freeNames ⊆ Node.freeNamesAll nodes := by
  induction nodes with
  | nil => cases h
  | cons first rest ih =>
    rw [Node.freeNamesAll]
    obtain rfl | h := List.mem_cons.1 h
    · exact List.subset_append_left _ _
    · exact List.subset_append_of_subset_right _ (ih h)

namespace Evaluation

/-! ## Two runs -/

/-- The states have the same bindings for the given names. -/
def Agree (names : List String) (s₁ s₂ : State) : Prop :=
  ∀ name ∈ names, s₁.env.find? name = s₂.env.find? name

/-- From `s₁` to `t₁` and from `s₂` to `t₂` the same has happened: the same diagnostics have been
    added, and every name either has the same binding in the end or is bound as in the beginning. -/
structure SameChanges (s₁ s₂ t₁ t₂ : State) : Prop where
  diagnostics : ∃ new, t₁.diagnostics = s₁.diagnostics ++ new ∧
    t₂.diagnostics = s₂.diagnostics ++ new
  env : ∀ name, t₁.env.find? name = t₂.env.find? name ∨
    (t₁.env.find? name = s₁.env.find? name ∧ t₂.env.find? name = s₂.env.find? name)

namespace SameChanges

variable {s₁ s₂ t₁ t₂ u₁ u₂ : State}

theorem refl (s₁ s₂ : State) : SameChanges s₁ s₂ s₁ s₂ :=
  ⟨⟨[], by simp⟩, fun _ => .inr ⟨rfl, rfl⟩⟩

theorem trans (h : SameChanges s₁ s₂ t₁ t₂) (h' : SameChanges t₁ t₂ u₁ u₂) :
    SameChanges s₁ s₂ u₁ u₂ := by
  obtain ⟨⟨new, hnew₁, hnew₂⟩, henv⟩ := h
  obtain ⟨⟨new', hnew₁', hnew₂'⟩, henv'⟩ := h'
  refine ⟨⟨new ++ new', ?_, ?_⟩, fun name => ?_⟩
  · rw [hnew₁', hnew₁, List.append_assoc]
  · rw [hnew₂', hnew₂, List.append_assoc]
  · obtain hsame | ⟨hkept₁, hkept₂⟩ := henv' name
    · exact .inl hsame
    · rw [hkept₁, hkept₂]
      exact henv name

/-- What the states agree on they still agree on. -/
theorem agree {names : List String} (h : SameChanges s₁ s₂ t₁ t₂) (hs : Agree names s₁ s₂) :
    Agree names t₁ t₂ := by
  intro name hname
  obtain hsame | ⟨hkept₁, hkept₂⟩ := h.env name
  · exact hsame
  · rw [hkept₁, hkept₂]
    exact hs name hname

end SameChanges

/-- Two runs that started in `s₁` and `s₂` end with the same value, or stop for the same reason, and
    have made the same changes. -/
inductive SameOutcome {α : Type} (s₁ s₂ : State) :
    Attempt.Result Halt State α → Attempt.Result Halt State α → Prop
  | ok (value : α) {t₁ t₂ : State} (h : SameChanges s₁ s₂ t₁ t₂) :
    SameOutcome s₁ s₂ (.ok value t₁) (.ok value t₂)
  | error (halt : Halt) {t₁ t₂ : State} (h : SameChanges s₁ s₂ t₁ t₂) :
    SameOutcome s₁ s₂ (.error halt t₁) (.error halt t₂)

theorem SameOutcome.after {α : Type} {s₁ s₂ t₁ t₂ : State} {r₁ r₂ : Attempt.Result Halt State α}
    (h : SameChanges s₁ s₂ t₁ t₂) (hr : SameOutcome t₁ t₂ r₁ r₂) : SameOutcome s₁ s₂ r₁ r₂ := by
  cases hr with
  | ok value h' => exact .ok value (h.trans h')
  | error halt h' => exact .error halt (h.trans h')

/-- Whatever two states the run starts in, if they agree on the names, it comes to the same. -/
def DependsOn (names : List String) {α : Type} (x : Evaluation α) : Prop :=
  ∀ s₁ s₂ : State, Agree names s₁ s₂ → SameOutcome s₁ s₂ (x.run s₁) (x.run s₂)

namespace DependsOn

variable {names names' : List String} {α β : Type}

theorem mono {x : Evaluation α} (h : DependsOn names x) (hnames : names ⊆ names') :
    DependsOn names' x :=
  fun s₁ s₂ hs => h s₁ s₂ fun name hname => hs name (hnames hname)

theorem pure (a : α) : DependsOn names (Pure.pure a : Evaluation α) :=
  fun s₁ s₂ _ => .ok a (.refl s₁ s₂)

theorem fail (halt : Halt) : DependsOn names (Attempt.fail halt : Evaluation α) :=
  fun s₁ s₂ _ => .error halt (.refl s₁ s₂)

theorem bind {x : Evaluation α} {f : α → Evaluation β} (hx : DependsOn names x)
    (hf : ∀ a, DependsOn names (f a)) : DependsOn names (x >>= f) := by
  intro s₁ s₂ hs
  have hrun := hx s₁ s₂ hs
  rw [Attempt.run_bind, Attempt.run_bind]
  generalize x.run s₁ = r₁, x.run s₂ = r₂ at hrun
  cases hrun with
  | ok a h => exact .after h (hf a _ _ (h.agree hs))
  | error halt h => exact .error halt h

/-- What looks at the state goes on alike if it finds the same. -/
theorem bind_state {f : State → Evaluation α}
    (hread : ∀ s₁ s₂, Agree names s₁ s₂ → f s₁ = f s₂) (hf : ∀ s, DependsOn names (f s)) :
    DependsOn names (Attempt.state >>= f) := by
  intro s₁ s₂ hs
  rw [Attempt.run_bind, Attempt.run_bind, Attempt.run_state, Attempt.run_state]
  simp only
  rw [hread s₁ s₂ hs]
  exact hf s₂ s₁ s₂ hs

theorem assign (name : String) (value : Option Value) :
    DependsOn names (assign name value) := by
  intro s₁ s₂ _
  refine .ok () ⟨⟨[], by simp⟩, fun other => ?_⟩
  simp only [Environment.find?_set]
  by_cases h : other = name
  · simp [h]
  · simp [h]

theorem report (position : Position) (fault : MeaningFault) :
    DependsOn names (report position fault : Evaluation (Option α)) := by
  intro s₁ s₂ _
  exact .ok none ⟨⟨[⟨.meaning fault, position⟩], rfl, rfl⟩, fun _ => .inr ⟨rfl, rfl⟩⟩

theorem concede (position : Position) (setback : Setback) :
    DependsOn names (concede position setback : Evaluation (Option α)) := by
  cases setback with
  | fault fault => exact .report position fault
  | halt halt => exact .fail halt

theorem settle (position : Position) (result : Outcome Value) :
    DependsOn names (settle position result) := by
  cases result with
  | ok value => exact .pure _
  | error setback => exact .concede position setback

/-- In a scope of its own the body starts alike, whatever the current scope is. -/
theorem inScope {body : Evaluation α} (hbody : DependsOn names' body) (scope : Environment) :
    DependsOn names (inScope scope body) := by
  intro s₁ s₂ _
  have hstart : Agree names' { s₁ with env := scope } { s₂ with env := scope } := fun _ _ => rfl
  have hrun := hbody _ _ hstart
  rw [Evaluation.inScope]
  simp only
  generalize body.run { s₁ with env := scope } = r₁, body.run { s₂ with env := scope } = r₂ at hrun
  cases hrun with
  | ok value h => exact .ok value ⟨h.diagnostics, fun _ => .inr ⟨rfl, rfl⟩⟩
  | error halt h => exact .error halt ⟨h.diagnostics, fun _ => .inr ⟨rfl, rfl⟩⟩

/-! ### Lists of nodes and loops -/

section

variable {eval : Node → Evaluation (Option Value)}

theorem valuesOf {nodes : List Node} (h : ∀ n ∈ nodes, DependsOn names (eval n)) :
    DependsOn names (valuesOf eval nodes) := by
  induction nodes with
  | nil => exact .pure []
  | cons n nodes ih =>
    obtain ⟨hn, hnodes⟩ := List.forall_mem_cons.1 h
    exact .bind hn fun _ => .bind (ih hnodes) fun _ => .pure _

theorem runForms {forms : List Node} (h : ∀ f ∈ forms, DependsOn names (eval f))
    (result : Option Value) : DependsOn names (runForms eval result forms) := by
  induction forms generalizing result with
  | nil => exact .pure result
  | cons f forms ih =>
    obtain ⟨hf, hforms⟩ := List.forall_mem_cons.1 h
    exact .bind hf fun _ => ih hforms _

theorem test {n : Node} (h : DependsOn names (eval n)) : DependsOn names (test eval n) := by
  rw [test_eq]
  refine .bind h fun v => ?_
  cases v with
  | none => exact .pure none
  | some v =>
    cases v with
    | boolean b => exact .pure (some b)
    | integer _ | function _ _ _ => exact .report _ _

theorem repeatWhile {check : Evaluation (Option Bool)} {body : Evaluation (Option Value)}
    (hcheck : DependsOn names check) (hbody : DependsOn names body) (rounds : Nat)
    (result : Option Value) : DependsOn names (repeatWhile check body rounds result) := by
  induction rounds generalizing result with
  | zero => exact .fail .unfinished
  | succ rounds ih =>
    refine .bind hcheck fun b => ?_
    cases b with
    | none => exact .pure none
    | some b =>
      cases b with
      | false => exact .pure result
      | true => exact .bind hbody fun v => ih v

end

end DependsOn

/-! ## Nodes -/

/-- A call finds the same function in scopes that agree on its name. -/
theorem callee_congr {env₁ env₂ : Environment} {name : String}
    (h : env₁.find? name = env₂.find? name) (count : Nat) :
    callee env₁ name count = callee env₂ name count := by
  rw [callee_eq, callee_eq, h]

section Layer

variable {eval : Node → Evaluation (Option Value)}
  (heval : ∀ n, DependsOn n.freeNames (eval n))

include heval

theorem forall_dependsOn (nodes : List Node) :
    ∀ n ∈ nodes, DependsOn (Node.freeNamesAll nodes) (eval n) :=
  fun n hn => (heval n).mono (Node.freeNames_subset_all hn)

theorem runBlock_dependsOn (b : Block Node) : DependsOn (Block.freeNames b) (runBlock eval b) := by
  obtain ⟨forms, p⟩ := b
  rw [Block.freeNames]
  exact .runForms (forall_dependsOn heval forms) none

theorem layer_dependsOn (rounds : Nat) (n : Node) :
    DependsOn n.freeNames (layer rounds eval n) := by
  cases n with
  | integer p value => exact .pure _
  | boolean p value => exact .pure _
  | identifier p name =>
    refine .bind_state (fun s₁ s₂ hs => ?_) fun s => ?_
    · rw [hs name (by simp [Node.freeNames])]
    · cases s.env.find? name with
      | none => exact .report p _
      | some value => exact .pure value
  | binary p operator left right =>
    rw [Node.freeNames]
    have hleft := (heval left).mono (List.subset_append_left _ right.freeNames)
    have hright := (heval right).mono (List.subset_append_right left.freeNames _)
    refine .bind hleft fun a => .bind hright fun b => ?_
    cases a with
    | none => exact .pure none
    | some a =>
      cases b with
      | none => exact .pure none
      | some b => exact .settle p _
  | minus p operand =>
    rw [Node.freeNames]
    refine .bind (heval operand) fun v => ?_
    cases v with
    | none => exact .pure none
    | some v => exact .settle p _
  | not p operand =>
    rw [Node.freeNames]
    refine .bind (heval operand) fun v => ?_
    cases v with
    | none => exact .pure none
    | some v => exact .settle p _
  | call p name arguments =>
    rw [Node.freeNames]
    refine .bind_state (fun s₁ s₂ hs => ?_) fun s => ?_
    · rw [callee_congr (hs name List.mem_cons_self)]
    · cases callee s.env name arguments.length with
      | error setback => exact .concede p setback
      | ok function =>
        have harguments := DependsOn.valuesOf fun a ha =>
          (forall_dependsOn heval arguments a ha).mono (List.subset_cons_self name _)
        -- the free names of the body are not those of the call, but its scope is the same twice
        exact .bind harguments fun values => .inScope (runBlock_dependsOn heval function.2) _
  | function p parameters body => exact .pure _
  | assignment p name value =>
    rw [Node.freeNames]
    exact .bind (heval value) fun v => .bind (.assign name v) fun _ => .pure none
  | conditional p condition consequence alternative =>
    rw [Node.freeNames]
    have hcondition := (heval condition).mono (List.subset_append_left _
      (Block.freeNames consequence ++ Block.freeNamesOption alternative))
    refine .bind (.test hcondition) fun b => ?_
    cases b with
    | none => exact .pure none
    | some b =>
      cases b with
      | true =>
        refine (runBlock_dependsOn heval consequence).mono ?_
        exact List.subset_append_of_subset_right _ (List.subset_append_left _ _)
      | false =>
        cases alternative with
        | none => exact .pure none
        | some b =>
          refine (runBlock_dependsOn heval b).mono ?_
          exact List.subset_append_of_subset_right _ (List.subset_append_right _ _)
  | loop p condition body =>
    rw [Node.freeNames]
    have hcondition := (heval condition).mono (List.subset_append_left _ (Block.freeNames body))
    have hbody := (runBlock_dependsOn heval body).mono
      (List.subset_append_right condition.freeNames _)
    exact .repeatWhile (.test hcondition) hbody rounds none
  | block b =>
    rw [Node.freeNames]
    exact runBlock_dependsOn heval b
  | program p forms => exact .fail _
  | bare p kind => exact .fail _

end Layer

/-- A node depends on its free names only, at every depth. -/
theorem evaluateAt_dependsOn (rounds depth : Nat) (n : Node) :
    DependsOn n.freeNames (evaluateAt rounds depth n) := by
  induction depth generalizing n with
  | zero => exact .fail .tooDeep
  | succ depth ih => exact layer_dependsOn ih rounds n

/-! ## Calls -/

/-- The outcome of something that ran apart, taken over into a state: its diagnostics are added, its
    scope is left behind. -/
def State.take (s : State) {α : Type} :
    Attempt.Result Halt State α → Attempt.Result Halt State α
  | .ok value t => .ok value { s with diagnostics := s.diagnostics ++ t.diagnostics }
  | .error halt t => .error halt { s with diagnostics := s.diagnostics ++ t.diagnostics }

/-- What the body of a function comes to if its parameters have the given values. -/
def bodyOutcome (rounds depth : Nat) (parameters : List Parameter) (body : Block Node)
    (values : List (Option Value)) : Attempt.Result Halt State (Option Value) :=
  (runBlock (evaluateAt rounds depth) body).run
    { env := Environment.ofList ((parameters.map Parameter.name).zip values) }

/-- What runs in a scope of its own does not depend on the diagnostics before it either. -/
theorem DependsOn.run_inScope {names : List String} {α : Type} {body : Evaluation α}
    (h : DependsOn names body) (scope : Environment) (s : State) :
    (Evaluation.inScope scope body).run s = s.take (body.run { env := scope }) := by
  have hrun := h { s with env := scope } { env := scope } fun _ _ => rfl
  rw [Evaluation.inScope]
  simp only
  -- the second run starts without diagnostics, so that what it leaves is what is new in the first
  generalize body.run { s with env := scope } = r₁, body.run { env := scope } = r₂ at hrun
  cases hrun with
  | ok value h =>
    obtain ⟨new, hnew₁, hnew₂⟩ := h.diagnostics
    rw [List.nil_append] at hnew₂
    simp only [State.take, hnew₁, hnew₂]
  | error halt h =>
    obtain ⟨new, hnew₁, hnew₂⟩ := h.diagnostics
    rw [List.nil_append] at hnew₂
    simp only [State.take, hnew₁, hnew₂]

/-- A call comes to what the body of the function comes to. -/
theorem evaluateAt_call {rounds depth : Nat} (p : Position) {name : String}
    {arguments : List Node} {parameters : List Parameter} {body : Block Node}
    {values : List (Option Value)} {s t : State}
    (hcallee : callee s.env name arguments.length = .ok (parameters, body))
    (hvalues : (valuesOf (evaluateAt rounds depth) arguments).run s = .ok values t) :
    (evaluateAt rounds (depth + 1) (.call p name arguments)).run s =
      t.take (bodyOutcome rounds depth parameters body values) := by
  have hbody := runBlock_dependsOn (evaluateAt_dependsOn rounds depth) body
  rw [bodyOutcome, ← hbody.run_inScope, evaluateAt, layer, Attempt.run_bind, Attempt.run_state]
  simp only [hcallee, Attempt.run_bind, hvalues]

end Evaluation

open Evaluation

/-- Two evaluations of a node at the same depth, from scopes that bind its free names alike, come to
    the same: they end with the same value or stop for the same reason, they report the same, and
    every name has the same binding in the end or is bound as in the beginning. In particular, what
    a call comes to is determined by the function and by the values of its arguments. -/
theorem evaluation_depends_on_freeNames (rounds depth : Nat) :
    (∀ (n : Node) (s₁ s₂ : State), Agree n.freeNames s₁ s₂ →
      SameOutcome s₁ s₂ ((evaluateAt rounds depth n).run s₁) ((evaluateAt rounds depth n).run s₂)) ∧
    ∀ (p : Position) (name : String) (arguments : List Node) (parameters : List Parameter)
      (body : Block Node) (values : List (Option Value)) (s t : State),
      callee s.env name arguments.length = .ok (parameters, body) →
      (valuesOf (evaluateAt rounds depth) arguments).run s = .ok values t →
      (evaluateAt rounds (depth + 1) (.call p name arguments)).run s =
        t.take (bodyOutcome rounds depth parameters body values) :=
  ⟨fun n => evaluateAt_dependsOn rounds depth n,
    fun p _ _ _ _ _ _ _ hcallee hvalues => evaluateAt_call p hcallee hvalues⟩

/-- A function that names `w` does not see the `w` of its caller. -/
theorem evaluation_depends_on_freeNames_call :
    let body : Block Node := ⟨[.identifier {} "w"], {}⟩
    let f : Option Value := some (.function {} [⟨"n", {}⟩] body)
    let four : Option Value := some (.integer 4)
    let s₁ : State := { env := .ofList [("x", four), ("f", f)] }
    let s₂ : State := { env := .ofList [("w", some (.integer 1)), ("f", f), ("x", four)] }
    let call : Node := .call {} "f" [.identifier {} "x"]
    (Agree (Node.assignment {} "z" call).freeNames s₁ s₂ ∧
      SameOutcome s₁ s₂ ((evaluateAt 0 4 (.assignment {} "z" call)).run s₁)
        ((evaluateAt 0 4 (.assignment {} "z" call)).run s₂)) ∧
    (evaluateAt 0 5 call).run s₂ = s₂.take (bodyOutcome 0 4 [⟨"n", {}⟩] body [four]) ∧
    ((evaluateAt 0 5 call).run s₂).state.diagnostics = [⟨.meaning (.unbound "w"), {}⟩] := by
  intro body f four s₁ s₂ call
  have hagree : Agree (Node.assignment {} "z" call).freeNames s₁ s₂ := by
    simp [Agree, Node.freeNames, Node.freeNamesAll, call, s₁, s₂, Environment.ofList]
  have hcallee : callee s₂.env "f" 1 = .ok ([⟨"n", {}⟩], body) := by
    simp [callee_eq, s₂, f, Environment.ofList]
  have hvalues : (valuesOf (evaluateAt 0 4) [.identifier {} "x"]).run s₂ = .ok [four] s₂ := by
    simp [valuesOf, evaluateAt, layer, s₂, Environment.ofList]
  obtain ⟨hsame, hcall⟩ := evaluation_depends_on_freeNames 0 4
  exact ⟨⟨hagree, hsame _ s₁ s₂ hagree⟩, hcall _ _ _ _ _ _ s₂ s₂ hcallee hvalues,
    by decide +kernel⟩

end Castellano
