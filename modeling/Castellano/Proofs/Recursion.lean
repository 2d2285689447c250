import Castellano.Proofs.Frame
import Castellano.Proofs.RunLimits

/-!
# Recursion needs a function as argument

A function sees nothing but its parameters. Where no argument of a call can be a function, the
functions that a body gets hold of are those whose literals stand inside it, so that each call leads
to a smaller tree. Without loops, such a program comes to its end at a depth that is known before it
runs.

* `Node.height`: how many nodes of a tree stand inside each other, with those in function literals.
* `NodeKind.data`, `evaluateAt_returnsData`: the nodes whose value is a number or a truth value.
* `Node.FirstOrder`: a collection of nodes without loops, whose calls have such arguments only.
* `Evaluation.State.Within`: a state in which all functions are lower than a given height.
* `evaluateAt_ends`: from such a state on, no evaluation of a node that is as low stops before its
  end, at the depth `depthFor`.
* `recursion_needs_function_argument`: the programs that always come to their end.
-/

namespace Castellano

/-! ## Heights -/

mutual

/-- How many nodes of the tree stand inside each other, the bodies of function literals included. -/
def Node.height : Node → Nat
  | .binary _ _ left right => max left.height right.height + 1
  | .minus _ operand | .not _ operand => operand.height + 1
  | .call _ _ arguments => Node.heightAll arguments + 1
  | .function _ _ body => Block.height body + 1
  | .assignment _ _ value => value.height + 1
  | .conditional _ condition consequence alternative =>
    max condition.height (max (Block.height consequence) (Block.heightOption alternative)) + 1
  | .loop _ condition body => max condition.height (Block.height body) + 1
  | .block b => Block.height b + 1
  | .program _ forms => Node.heightAll forms + 1
  | .integer .. | .boolean .. | .identifier .. | .bare .. => 1

/-- The height of the highest tree. -/
def Node.heightAll : List Node → Nat
  | [] => 0
  | node :: nodes => max node.height (Node.heightAll nodes)

/-- The height of the highest form of a block. -/
def Block.height : Block Node → Nat
  | ⟨forms, _⟩ => Node.heightAll forms

/-- The height of a block, if there is one. -/
def Block.heightOption : Option (Block Node) → Nat
  | none => 0
  | some b => Block.height b

end

theorem Node.height_le_all {n : Node} {nodes : List Node} (h : n ∈ nodes) :
    n.height ≤ Node.heightAll nodes := by
  induction nodes with
  | nil => cases h
  | cons first rest ih =>
    rw [Node.heightAll]
    obtain rfl | h := List.mem_cons.1 h
    · exact Nat.le_max_left _ _
    · exact Nat.le_trans (ih h) (Nat.le_max_right _ _)

theorem Block.height_le_of_mem {f : Node} {b : Block Node} (h : f ∈ b.forms) :
    f.height ≤ Block.height b := by
  obtain ⟨forms, p⟩ := b
  rw [Block.height]
  exact Node.height_le_all h

theorem Node.height_pos (n : Node) : 0 < n.height := by
  cases n <;> simp [Node.height]

/-- The kinds of nodes whose value, if there is one, is a number or a truth value. -/
def NodeKind.data : List NodeKind := [.integer, .boolean, .binary, .minus, .not]

namespace Evaluation

/-! ## Values that are no functions -/

/-- If there is a value, it is a number or a truth value. -/
def IsData (result : Option Value) : Prop := ∀ v, result = some v → v.kind ≠ .function

/-- If the run has a value, that is a number or a truth value. -/
abbrev ReturnsData (x : Evaluation (Option Value)) : Prop :=
  Keeps (fun _ => True) (fun _ => True) x IsData

theorem isData_none : IsData none := by
  rintro v ⟨⟩

theorem isData_some {v : Value} (h : v.kind ≠ .function) : IsData (some v) := by
  rintro _ ⟨⟩
  exact h

theorem settle_returnsData (position : Position) {supported : Prop} {result : Outcome Value}
    (h : Proper supported result) : ReturnsData (settle position result) := by
  cases h with
  | integer n => exact .pure (isData_some ValueKind.noConfusion)
  | boolean b => exact .pure (isData_some ValueKind.noConfusion)
  | fault _ _ => exact .report (fun _ _ => trivial) isData_none

/-- Whatever the nodes below come to, the value of such a node is no function. -/
theorem layer_returnsData (rounds : Nat) (eval : Node → Evaluation (Option Value)) {n : Node}
    (hn : n.kind ∈ NodeKind.data) : ReturnsData (layer rounds eval n) := by
  cases n with
  | integer p value => exact .pure (isData_some ValueKind.noConfusion)
  | boolean p value => exact .pure (isData_some ValueKind.noConfusion)
  | binary p operator left right =>
    refine .bind (keeps_true _) fun a _ => .bind (keeps_true _) fun b _ => ?_
    cases a with
    | none => exact .pure isData_none
    | some a =>
      cases b with
      | none => exact .pure isData_none
      | some b => exact settle_returnsData p (combine_proper operator a b)
  | minus p operand =>
    refine .bind (keeps_true _) fun v _ => ?_
    cases v with
    | none => exact .pure isData_none
    | some v => exact settle_returnsData p (negate_proper v)
  | not p operand =>
    refine .bind (keeps_true _) fun v _ => ?_
    cases v with
    | none => exact .pure isData_none
    | some v => exact settle_returnsData p (invert_proper v)
  | bare p kind => exact .fail trivial
  | _ => simp [Node.kind, NodeKind.data] at hn

theorem evaluateAt_returnsData (rounds depth : Nat) {n : Node} (hn : n.kind ∈ NodeKind.data) :
    ReturnsData (evaluateAt rounds depth n) := by
  cases depth with
  | zero => exact .fail trivial
  | succ depth => exact layer_returnsData rounds _ hn

end Evaluation

/-! ## Functions that stay below a height -/

/-- A collection of nodes without loops, in which no argument of a call can be a function. -/
structure Node.FirstOrder (N : Node → Prop) : Prop extends Node.Stock N where
  loopless : ∀ {n : Node}, N n → n.kind ≠ .loop
  argument : ∀ {p : Position} {name : String} {arguments : List Node},
    N (.call p name arguments) → ∀ a ∈ arguments, a.kind ∈ NodeKind.data

/-- A number, a truth value, or a function whose literal is one of the nodes and at most as high as
    given. -/
def Value.Within (N : Node → Prop) (height : Nat) : Value → Prop
  | function p parameters body =>
    N (.function p parameters body) ∧ (Node.function p parameters body).height ≤ height
  | _ => True

theorem Value.within_of_kind {N : Node → Prop} {v : Value} (h : v.kind ≠ .function)
    (height : Nat) : v.Within N height := by
  cases v with
  | integer _ | boolean _ => trivial
  | function _ _ _ => exact absurd rfl h

theorem Value.Within.mono {N : Node → Prop} {v : Value} {m k : Nat} (h : v.Within N m)
    (hle : m ≤ k) : v.Within N k := by
  cases v with
  | integer _ | boolean _ => trivial
  | function p parameters body => exact ⟨h.1, Nat.le_trans h.2 hle⟩

namespace Evaluation

/-- The scope binds no functions higher than given, and no depth has been reported. -/
structure State.Within (N : Node → Prop) (height : Nat) (s : State) : Prop where
  env : s.env.Holds (Value.Within N height)
  diagnostics : ¬ CallsTooDeep s.diagnostics

/-- If there is a value, it is no function higher than given. -/
def ResultWithin (N : Node → Prop) (height : Nat) (result : Option Value) : Prop :=
  ∀ v, result = some v → v.Within N height

/-- From a state with no functions higher than given on, the run comes to its end, and it leaves
    such a state and such a result. -/
abbrev Ends (N : Node → Prop) (height : Nat) (x : Evaluation (Option Value)) : Prop :=
  Keeps (State.Within N height) (fun _ => False) x (ResultWithin N height)

variable {N : Node → Prop} {height : Nat}

theorem State.Within.record {s : State} (h : s.Within N height) (position : Position)
    {fault : MeaningFault} (hfault : fault ≠ .callsTooDeep) :
    (s.record position fault).Within N height where
  env := h.env
  diagnostics := by
    rintro ⟨d, hd, hdeep⟩
    obtain hd | hd := List.mem_append.1 hd
    · exact h.diagnostics ⟨d, hd, hdeep⟩
    · obtain rfl := List.mem_singleton.1 hd
      cases hdeep
      exact hfault rfl

theorem resultWithin_none : ResultWithin N height none := by
  rintro v ⟨⟩

theorem resultWithin_some {v : Value} (h : v.Within N height) :
    ResultWithin N height (some v) := by
  rintro _ ⟨⟩
  exact h

theorem report_ends (position : Position) {fault : MeaningFault} (h : fault ≠ .callsTooDeep) :
    Ends N height (report position fault) :=
  .report (fun _ hs => hs.record position h) resultWithin_none

theorem settle_ends (position : Position) {supported : Prop} {result : Outcome Value}
    (h : Proper supported result) : Ends N height (settle position result) := by
  cases h with
  | integer n => exact .pure (resultWithin_some trivial)
  | boolean b => exact .pure (resultWithin_some trivial)
  | fault hdepth _ => exact report_ends position hdepth

theorem assign_ends (name : String) {value : Option Value} (h : ResultWithin N height value) :
    Keeps (State.Within N height) (fun _ => False) (assign name value) fun _ => True :=
  .update fun _ hs => ⟨hs.env.set name h, hs.diagnostics⟩

/-- A body of a function runs in a scope without functions, and sees only lower ones. -/
theorem inScope_ends {scope : Environment} (h : scope.Holds (Value.Within N height))
    {body : Evaluation (Option Value)} (hbody : Ends N height body) :
    Ends N (height + 1) (inScope scope body) := by
  have hscope : Keeps (State.Within N (height + 1)) (fun _ => False) (inScope scope body)
      (ResultWithin N height) :=
    .inScope hbody (fun _ hs => ⟨h, hs.diagnostics⟩) fun _ _ hs hs' => ⟨hs.env, hs'.diagnostics⟩
  refine ⟨fun hs hrun => ?_, hscope.error⟩
  obtain ⟨hresult, hs'⟩ := hscope.ok hs hrun
  exact ⟨fun v hv => (hresult v hv).mono (Nat.le_succ height), hs'⟩

/-! ## Nodes -/

/-- The values of arguments that cannot be functions. -/
theorem valuesOf_ends {eval : Node → Evaluation (Option Value)} {arguments : List Node}
    (hreturns : ∀ a ∈ arguments, ReturnsData (eval a))
    (heval : ∀ a ∈ arguments, Ends N height (eval a)) :
    Keeps (State.Within N height) (fun _ => False) (valuesOf eval arguments)
      fun values => ∀ v ∈ values, IsData v := by
  refine .valuesOf fun a ha => ⟨fun hs hrun => ?_, (heval a ha).error⟩
  exact ⟨((hreturns a ha).ok trivial hrun).1, ((heval a ha).ok hs hrun).2⟩

section Layer

variable {eval : Node → Evaluation (Option Value)} (hN : Node.FirstOrder N)

include hN

theorem runBlock_ends {b : Block Node} (hb : N (.block b))
    (heval : ∀ f, N f → f.height ≤ Block.height b → Ends N height (eval f)) :
    Ends N height (runBlock eval b) :=
  .runBlock (fun f hf => heval f (hN.block hb f hf) (Block.height_le_of_mem hf)) resultWithin_none

/-- A node comes to its end if the nodes below it do, and if the forms of lower functions do where
    only lower functions are bound. -/
theorem layer_ends (hreturns : ∀ n, n.kind ∈ NodeKind.data → ReturnsData (eval n))
    (hbody : ∀ f, N f → f.height ≤ height → Ends N height (eval f)) {n : Node} (hn : N n)
    (hheight : n.height ≤ height + 1)
    (heval : ∀ m, N m → m.height < n.height → Ends N (height + 1) (eval m)) (rounds : Nat) :
    Ends N (height + 1) (layer rounds eval n) := by
  have hblock : ∀ {b : Block Node}, N (.block b) → Block.height b < n.height →
      Ends N (height + 1) (runBlock eval b) :=
    fun hb hlt => runBlock_ends hN hb fun f hf hle => heval f hf (Nat.lt_of_le_of_lt hle hlt)
  obtain ⟨role, hfits⟩ := hN.fits hn
  cases n with
  | integer p value => exact .pure (resultWithin_some trivial)
  | boolean p value => exact .pure (resultWithin_some trivial)
  | identifier p name =>
    refine .bind_state fun s hs => ?_
    cases hfind : s.env.find? name with
    | none => exact report_ends p MeaningFault.noConfusion
    | some value =>
      refine .pure ?_
      rintro v rfl
      exact hs.env.of_find? hfind
  | binary p operator left right =>
    rw [Node.height] at heval
    obtain ⟨hleft, hright⟩ := hN.binary hn
    refine .bind (heval left hleft (by omega)) fun a _ =>
      .bind (heval right hright (by omega)) fun b _ => ?_
    cases a with
    | none => exact .pure resultWithin_none
    | some a =>
      cases b with
      | none => exact .pure resultWithin_none
      | some b => exact settle_ends p (combine_proper operator a b)
  | minus p operand =>
    refine .bind (heval operand (hN.minus hn) (Nat.lt_succ_self _)) fun v _ => ?_
    cases v with
    | none => exact .pure resultWithin_none
    | some v => exact settle_ends p (negate_proper v)
  | not p operand =>
    refine .bind (heval operand (hN.not hn) (Nat.lt_succ_self _)) fun v _ => ?_
    cases v with
    | none => exact .pure resultWithin_none
    | some v => exact settle_ends p (invert_proper v)
  | call p name arguments =>
    rw [Node.height] at heval
    refine .bind_state fun s hs => ?_
    obtain ⟨q, parameters, body, hfind, hcallee⟩ | ⟨fault, hfault, -, hcallee⟩ :=
      callee_cases s.env name arguments.length
    · rw [hcallee]
      have hvalues := valuesOf_ends
        (fun a ha => hreturns a (hN.argument hn a ha))
        (fun a ha => heval a (hN.call hn a ha) (Nat.lt_succ_of_le (Node.height_le_all ha)))
      refine .bind hvalues fun values hdata => ?_
      -- no parameter is bound to a function, so that the body is left with those inside it
      have hscope : (Environment.ofList ((parameters.map Parameter.name).zip values)).Holds
          (Value.Within N height) :=
        Environment.holds_ofList fun b hb v hv =>
          Value.within_of_kind (hdata b.2 (List.of_mem_zip hb).2 v hv) height
      obtain ⟨hfunction, hlow⟩ : (Value.function q parameters body).Within N (height + 1) :=
        hs.env.of_find? hfind
      rw [Node.height, Nat.add_le_add_iff_right] at hlow
      refine inScope_ends hscope (runBlock_ends hN (hN.function hfunction) fun f hf hle => ?_)
      exact hbody f hf (Nat.le_trans hle hlow)
    · rw [hcallee]
      exact report_ends p hfault
  | function p parameters body => exact .pure (resultWithin_some ⟨hn, hheight⟩)
  | assignment p name value =>
    exact .bind (heval value (hN.assignment hn) (Nat.lt_succ_self _)) fun v hv =>
      .bind (assign_ends name hv) fun _ _ => .pure resultWithin_none
  | conditional p condition consequence alternative =>
    rw [Node.height] at heval hblock
    obtain ⟨hcondition, hconsequence, halternative⟩ := hN.conditional hn
    have htest : Keeps (State.Within N (height + 1)) (fun _ => False) (test eval condition)
        fun _ => True :=
      .test (heval condition hcondition (by omega)) fun _ _ hs =>
        hs.record _ MeaningFault.noConfusion
    refine .bind htest fun b _ => ?_
    cases b with
    | none => exact .pure resultWithin_none
    | some b =>
      cases b with
      | true => exact hblock hconsequence (by omega)
      | false =>
        cases alternative with
        | none => exact .pure resultWithin_none
        | some b =>
          rw [Block.heightOption] at hblock
          exact hblock (halternative b rfl) (by omega)
  | loop p condition body => exact absurd rfl (hN.loopless hn)
  | block b => exact hblock hn (Nat.lt_succ_self _)
  | program p forms => exact absurd rfl hfits.program
  | bare p kind => exact absurd rfl (hfits.bare p kind)

end Layer

/-- The depth at which every node of the given height comes to its end: that of the functions which
    it may call, and one more for each node on the way to a call. -/
def depthFor : (height : Nat) → Nat
  | 0 => 0
  | height + 1 => depthFor height + (height + 1)

/-- A node comes to its end at its height above the depth that lower nodes need. -/
theorem evaluateAt_ends_of_lower (hN : Node.FirstOrder N) (rounds : Nat)
    (hlower : ∀ depth f, depthFor height ≤ depth → N f → f.height ≤ height →
      Ends N height (evaluateAt rounds depth f))
    {depth : Nat} {n : Node} (hn : N n) (hheight : n.height ≤ height + 1)
    (hdepth : depthFor height + n.height ≤ depth) :
    Ends N (height + 1) (evaluateAt rounds depth n) := by
  induction depth generalizing n with
  | zero =>
    have := n.height_pos
    omega
  | succ depth ih =>
    have hpos := n.height_pos
    refine layer_ends hN (fun _ => evaluateAt_returnsData rounds depth) ?_ hn hheight ?_ rounds
    · exact fun f => hlower depth f (by omega)
    · exact fun m hm hlt => ih hm (by omega) (by omega)

/-- Where no functions are bound that are higher than given, a node that is no higher itself comes
    to its end. -/
theorem evaluateAt_ends (hN : Node.FirstOrder N) (rounds height depth : Nat) (n : Node)
    (hdepth : depthFor height ≤ depth) (hn : N n) (hheight : n.height ≤ height) :
    Ends N height (evaluateAt rounds depth n) := by
  -- on the height of functions: a body can only call functions that are lower than its own
  induction height generalizing depth n with
  | zero =>
    have := n.height_pos
    omega
  | succ height ih =>
    rw [depthFor] at hdepth
    exact evaluateAt_ends_of_lower hN rounds ih hn hheight (by omega)

end Evaluation

open Evaluation

/-! ## Programs -/

/-- The depth at which the program comes to its end, if its functions take no functions. -/
def Program.depthBound (p : Program) : Nat := depthFor (Node.heightAll p.forms)

theorem Program.evaluateProgram_ends {N : Node → Prop} (hN : Node.FirstOrder N) {p : Program}
    (hforms : ∀ f ∈ p.forms, N f) (limits : Limits) (h : p.depthBound ≤ limits.depth) :
    ∃ value s, (runSequence (evaluate limits) none p.forms).run {} = .ok value s ∧
      (evaluateProgram limits p).run {} = .ok value s ∧ ¬ CallsTooDeep s.diagnostics := by
  have hends : Ends N (Node.heightAll p.forms) (runSequence (evaluate limits) none p.forms) :=
    .runSequence (fun f hf => evaluateAt_ends hN _ _ _ f h (hforms f hf) (Node.height_le_all hf))
      resultWithin_none
  have hstart : State.Within N (Node.heightAll p.forms) {} :=
    ⟨Environment.holds_empty, by simp [CallsTooDeep]⟩
  cases hrun : (runSequence (evaluate limits) none p.forms).run {} with
  | ok value s =>
    refine ⟨value, s, rfl, ?_, (hends.ok hstart hrun).2.diagnostics⟩
    rw [run_evaluateProgram (by simp [hrun]), hrun]
  | error halt s => exact (hends.error hstart hrun).1.elim

/-- The nodes of a program without loops, in which no argument can be a function. -/
theorem firstOrder_occurs {limits : Limits} {source : String}
    (hloops : ∀ n, (parseSource limits source).1.Contains n → n.kind ≠ .loop)
    (harguments : ∀ a, (parseSource limits source).1.toNode.Below .argument a →
      a.kind ∈ NodeKind.data) : Node.FirstOrder (Occurs limits [source]) where
  toStock := stock_occurs limits [source]
  loopless := by
    rintro n ⟨p, hp, hn⟩
    obtain rfl := List.mem_singleton.1 hp
    exact hloops n hn
  argument := by
    rintro q name arguments ⟨p, hp, role, hcall⟩ a ha
    obtain rfl := List.mem_singleton.1 hp
    exact harguments a (hcall.deeper (List.mem_map_of_mem ha))

/-- Recursion needs a function as argument. If a parsed program has no loops, and if every argument
    of its calls is a number, a truth value, an operation or a negation, its run from the empty
    scope comes to an end under all limits; and there is one outcome, with no report of too deep
    nesting, that it has under all limits of a depth that depends on the program alone. -/
theorem recursion_needs_function_argument (limits : Limits) (source : String)
    (hloops : ∀ n, (parseSource limits source).1.Contains n → n.kind ≠ .loop)
    (harguments : ∀ a, (parseSource limits source).1.toNode.Below .argument a →
      a.kind ∈ NodeKind.data) :
    let program := (parseSource limits source).1
    (∀ limits', ∃ value s, (evaluateProgram limits' program).run {} = .ok value s) ∧
    ∃ value s, ¬ CallsTooDeep s.diagnostics ∧ ∀ limits', program.depthBound ≤ limits'.depth →
      (evaluateProgram limits' program).run {} = .ok value s := by
  intro program
  have hN := firstOrder_occurs hloops harguments
  have hforms : ∀ f ∈ program.forms, Occurs limits [source] f := occurs_form (by simp)
  refine ⟨fun limits' => ?_, ?_⟩
  · by_cases hdeep : ∃ t, (runSequence (evaluate limits') none program.forms).run {} =
        .error .tooDeep t
    · obtain ⟨t, ht⟩ := hdeep
      exact ⟨_, _, run_evaluateProgram_of_tooDeep ht⟩
    · -- with the same rounds and more depth it would come to the same
      let more : Limits := ⟨max limits'.depth program.depthBound, limits'.rounds⟩
      obtain ⟨value, s, -, hrun, -⟩ :=
        Program.evaluateProgram_ends hN hforms more (Nat.le_max_right _ _)
      refine ⟨value, s, ?_⟩
      rw [← hrun]
      refine evaluateProgram_run_eq (E := (· = .tooDeep)) rfl limits' more (Nat.le_max_left _ _)
        (Nat.le_refl _) (.inl rfl) ?_
      rintro _ t rfl ht
      exact hdeep ⟨t, ht⟩
  · obtain ⟨value, s, hends, hrun, hdiagnostics⟩ := Program.evaluateProgram_ends hN hforms
      ⟨program.depthBound, 0⟩ (Nat.le_refl _)
    refine ⟨value, s, hdiagnostics, fun limits' hdepth => ?_⟩
    rw [← hrun]
    symm
    refine evaluateProgram_run_eq (E := fun _ => True) trivial _ limits' hdepth (Nat.zero_le _)
      (.inr trivial) fun halt t _ => ?_
    simp [hends]

/-! ## All nodes of a tree -/

namespace Node

/-- The nodes so many steps further below the root than those right below it. -/
def level (root : Node) : Nat → List (Role × Node)
  | 0 => root.children
  | steps + 1 => (root.level steps).flatMap fun entry => entry.2.children

variable {root n : Node} {role : Role}

theorem Below.exists_level (h : root.Below role n) : ∃ steps, (role, n) ∈ root.level steps := by
  induction h with
  | child h => exact ⟨0, h⟩
  | deeper _ hchild ih =>
    obtain ⟨steps, hmem⟩ := ih
    exact ⟨steps + 1, List.mem_flatMap.2 ⟨_, hmem, hchild⟩⟩

theorem level_eq_nil {steps : Nat} (h : root.level steps = []) (more : Nat) :
    root.level (steps + more) = [] := by
  induction more with
  | zero => exact h
  | succ more ih => rw [← Nat.add_assoc, level, ih, List.flatMap_nil]

/-- What holds on every level down to the first one that is empty holds of all nodes. -/
theorem Below.of_levels {P : Role × Node → Prop} {steps : Nat} (hend : root.level steps = [])
    (h : ∀ i < steps, ∀ entry ∈ root.level i, P entry) (hn : root.Below role n) : P (role, n) := by
  obtain ⟨i, hi⟩ := hn.exists_level
  by_cases hlt : i < steps
  · exact h i hlt _ hi
  · have hnil := level_eq_nil hend (i - steps)
    rw [Nat.add_sub_cancel' (Nat.le_of_not_lt hlt)] at hnil
    rw [hnil] at hi
    cases hi

end Node

/-- A function that defines another one each time it is called, and calls of both whose arguments
    are operations, one of them on the value of a call. -/
theorem recursion_needs_function_argument_nested :
    let source :=
      "f := función(n) \x7b g := función(k) \x7b k * 2 \x7d g(n + 1) + g(1) \x7d f(3 - f(1))"
    (parseSource ⟨9, 0⟩ source).1.depthBound = 21 ∧
    ∃ value s, render value = "-2" ∧ ¬ CallsTooDeep s.diagnostics ∧
      ∀ limits' : Limits, 21 ≤ limits'.depth →
        (evaluateProgram limits' (parseSource ⟨9, 0⟩ source).1).run {} = .ok value s := by
  intro source
  obtain ⟨hbound, hend, hlevels, hvalue⟩ :
      (parseSource ⟨9, 0⟩ source).1.depthBound = 21 ∧
      ((parseSource ⟨9, 0⟩ source).1.toNode.level 8).isEmpty ∧
      (∀ i < 8, ((parseSource ⟨9, 0⟩ source).1.toNode.level i).all fun entry =>
        entry.2.kind ≠ .loop ∧ (entry.1 = .argument → entry.2.kind ∈ NodeKind.data)) ∧
      render (Run.ofEvaluation {} (evaluateProgram ⟨21, 0⟩ (parseSource ⟨9, 0⟩ source).1)).value =
        "-2" := by decide +kernel
  have hnodes : ∀ {role n}, (parseSource ⟨9, 0⟩ source).1.toNode.Below role n →
      n.kind ≠ .loop ∧ (role = .argument → n.kind ∈ NodeKind.data) := by
    intro role n hn
    refine hn.of_levels (P := fun entry => entry.2.kind ≠ .loop ∧
      (entry.1 = .argument → entry.2.kind ∈ NodeKind.data)) (List.isEmpty_iff.1 hend) ?_
    intro i hi entry hentry
    exact of_decide_eq_true (List.all_eq_true.1 (hlevels i hi) entry hentry)
  obtain ⟨-, value, s, hdiagnostics, hrun⟩ := recursion_needs_function_argument ⟨9, 0⟩ source
    (fun n hn => hn.elim fun role hrole => (hnodes hrole).1) (fun a ha => (hnodes ha).2 rfl)
  rw [hbound] at hrun
  rw [Run.ofEvaluation, hrun ⟨21, 0⟩ (Nat.le_refl 21)] at hvalue
  exact ⟨hbound, value, s, hvalue, hdiagnostics, hrun⟩

end Castellano
