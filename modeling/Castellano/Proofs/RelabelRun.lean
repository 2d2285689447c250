import Castellano.Proofs.Sessions

/-!
# Positions and names play no part in running

A relabelling that gives different names different spellings takes the run of a program to the run
of the relabelled program, step by step: the scopes bind the relabelled names to the relabelled
values, and the same faults are reported, about the relabelled names and at the new positions.

* `Value.relabel`, `Environment.relabel`, `Fault.rename`, `Evaluation.State.relabel`: what a
  relabelling does to values, scopes, faults and states.
* `Evaluation.Equivariant`: a run commutes with a relabelling; closed under sequencing, scopes,
  lists of nodes and loops.
* `Evaluation.evaluateAt_follows`, `Evaluation.evaluateProgram_equivariant`: so do all runs of
  nodes that fit their places, and of programs.
* `runSource_relabel`: sources with the same tokens up to relabelling have the same run up to it.
-/

namespace Castellano

/-! ## Relabelled values and scopes -/

/-- The value with the literal of a function relabelled. -/
def Value.relabel (ρ : Relabelling) : Value → Value
  | integer n => integer n
  | boolean b => boolean b
  | function p parameters body =>
    function (ρ.place p) (parameters.map (Parameter.relabel ρ)) (Block.relabel ρ body)

/-- The scope with relabelled names and values. -/
def Environment.relabel (ρ : Relabelling) (env : Environment) : Environment :=
  ⟨env.bindings.map fun b => (ρ.name b.1, b.2.map (Value.relabel ρ))⟩

/-- The program with all its positions and names changed. -/
def Program.relabel (ρ : Relabelling) (p : Program) : Program :=
  ⟨p.forms.map (Node.relabel ρ), ρ.place p.position⟩

/-- The same fault of another name. -/
def MeaningFault.rename (name : String → String) : MeaningFault → MeaningFault
  | unbound n => unbound (name n)
  | notFunction n kind => notFunction (name n) kind
  | wrongArity n expected found => wrongArity (name n) expected found
  | fault => fault

/-- The same fault of another name. Only faults of meaning have one. -/
def Fault.rename (name : String → String) : Fault → Fault
  | meaning fault => meaning (fault.rename name)
  | fault => fault

/-- The diagnostic about another name, at its new position. -/
def Diagnostic.rename (ρ : Relabelling) (d : Diagnostic) : Diagnostic :=
  ⟨d.fault.rename ρ.name, ρ.place d.position⟩

@[simp]
theorem Value.kind_relabel (ρ : Relabelling) (v : Value) : (v.relabel ρ).kind = v.kind := by
  cases v <;> rfl

@[simp]
theorem Value.toText_relabel (ρ : Relabelling) (v : Value) : (v.relabel ρ).toText = v.toText := by
  cases v <;> rfl

theorem render_relabel (ρ : Relabelling) (result : Option Value) :
    render (result.map (Value.relabel ρ)) = render result := by
  cases result <;> simp [render]

@[simp]
theorem Node.position_relabel (ρ : Relabelling) (n : Node) :
    (n.relabel ρ).position = ρ.place n.position := by
  cases n with
  | block b =>
    obtain ⟨forms, p⟩ := b
    rfl
  | _ => rfl

@[simp]
theorem Block.forms_relabel (ρ : Relabelling) (b : Block Node) :
    (Block.relabel ρ b).forms = b.forms.map (Node.relabel ρ) := by
  obtain ⟨forms, p⟩ := b
  exact Node.relabelAll_eq_map ρ forms

namespace Environment

variable {ρ : Relabelling} (hρ : Function.Injective ρ.name)

include hρ

/-- A relabelled name is bound to the relabelled value, if the name itself is bound. -/
theorem find?_relabel (env : Environment) (name : String) :
    (env.relabel ρ).find? (ρ.name name) = (env.find? name).map (Option.map (Value.relabel ρ)) := by
  obtain ⟨bindings⟩ := env
  simp only [find?, relabel]
  induction bindings with
  | nil => rfl
  | cons b bindings ih =>
    obtain ⟨n, v⟩ := b
    rw [List.map_cons, lookup_cons_eq_ite, lookup_cons_eq_ite, ih]
    simp only [hρ.eq_iff]
    split <;> rfl

theorem relabel_set (env : Environment) (name : String) (value : Option Value) :
    (env.set name value).relabel ρ =
      (env.relabel ρ).set (ρ.name name) (value.map (Value.relabel ρ)) := by
  obtain ⟨bindings⟩ := env
  simp only [set, relabel, Environment.mk.injEq]
  induction bindings with
  | nil => rfl
  | cons b bindings ih =>
    obtain ⟨n, v⟩ := b
    rw [List.map_cons, insertInto, insertInto]
    simp only [hρ.eq_iff]
    split
    · rfl
    · rw [List.map_cons, ih]

theorem relabel_ofList (bindings : List (String × Option Value)) :
    (ofList bindings).relabel ρ =
      ofList (bindings.map fun b => (ρ.name b.1, b.2.map (Value.relabel ρ))) := by
  rw [ofList, ofList]
  have hstart : empty.relabel ρ = empty := rfl
  nth_rewrite 2 [← hstart]
  generalize empty = env
  induction bindings generalizing env with
  | nil => rfl
  | cons b bindings ih =>
    rw [List.map_cons, List.foldl_cons, List.foldl_cons, ih, relabel_set hρ]

end Environment

namespace Evaluation

/-! ## Operators and callees -/

/-- The result of an operation with its value or its fault relabelled. -/
def relabelOutcome {α β : Type} (ρ : Relabelling) (f : α → β) :
    Outcome α → Outcome β
  | .ok a => .ok (f a)
  | .error (.fault fault) => .error (.fault (fault.rename ρ.name))
  | .error (.halt halt) => .error (.halt halt)

section Operators

variable (ρ : Relabelling)

theorem negate_relabel (v : Value) :
    negate (v.relabel ρ) = relabelOutcome ρ (Value.relabel ρ) (negate v) := by
  cases v <;> rfl

theorem invert_relabel (v : Value) :
    invert (v.relabel ρ) = relabelOutcome ρ (Value.relabel ρ) (invert v) := by
  cases v <;> rfl

theorem combineIntegers_relabel {operator : Token} (h : operator.kind ≠ .identifier) (a b : Int) :
    combineIntegers (operator.relabel ρ) a b =
      relabelOutcome ρ (Value.relabel ρ) (combineIntegers operator a b) := by
  by_cases hdivide : operator.kind = .divide
  · rw [combineIntegers_divide hdivide,
      combineIntegers_divide ((operator.kind_relabel ρ).trans hdivide)]
    split <;> rfl
  · simp only [combineIntegers, Token.kind_relabel, operator.literal_relabel ρ h]
    split
    · rfl
    · rfl
    · rfl
    · contradiction
    · rfl

theorem combine_relabel {operator : Token} (h : operator.kind ≠ .identifier) (a b : Value) :
    combine (operator.relabel ρ) (a.relabel ρ) (b.relabel ρ) =
      relabelOutcome ρ (Value.relabel ρ) (combine operator a b) := by
  have hliteral := operator.literal_relabel ρ h
  by_cases hkind : a.kind = b.kind
  · cases a with
    | integer n =>
      cases b with
      | integer m =>
        rw [Value.relabel, Value.relabel, combine_integers, combine_integers]
        by_cases heq : operator.kind = .equals
        · rw [if_pos heq, if_pos ((operator.kind_relabel ρ).trans heq)]
          rfl
        · rw [if_neg heq, if_neg fun h => heq ((operator.kind_relabel ρ).symm.trans h)]
          exact combineIntegers_relabel ρ h n m
      | boolean _ | function _ _ _ => cases hkind
    | boolean c =>
      cases b with
      | boolean d =>
        simp only [Value.relabel, combine_booleans, Token.kind_relabel, hliteral]
        split <;> rfl
      | integer _ | function _ _ _ => cases hkind
    | function p parameters body =>
      cases b with
      | function _ _ _ =>
        simp only [Value.relabel, combine, hliteral]
        rfl
      | integer _ | boolean _ => cases hkind
  · have hkind' : (a.relabel ρ).kind ≠ (b.relabel ρ).kind := by
      rwa [Value.kind_relabel, Value.kind_relabel]
    rw [combine_of_kind_ne operator hkind, combine_of_kind_ne _ hkind', Value.kind_relabel,
      Value.kind_relabel, hliteral]
    rfl

end Operators

/-- The scope of a call is relabelled with its parameters and arguments. -/
theorem scope_relabel {ρ : Relabelling} (hρ : Function.Injective ρ.name)
    (parameters : List Parameter) (values : List (Option Value)) :
    (Environment.ofList ((parameters.map Parameter.name).zip values)).relabel ρ =
      Environment.ofList (((parameters.map (Parameter.relabel ρ)).map Parameter.name).zip
        (values.map (Option.map (Value.relabel ρ)))) := by
  have hnames : (parameters.map (Parameter.relabel ρ)).map Parameter.name =
      (parameters.map Parameter.name).map ρ.name := by
    rw [List.map_map, List.map_map]
    rfl
  rw [Environment.relabel_ofList hρ, hnames, List.zip_map]
  rfl

/-- A call finds the relabelled function, or the same fault of the relabelled name. -/
theorem callee_relabel {ρ : Relabelling} (hρ : Function.Injective ρ.name) (env : Environment)
    (name : String) (count : Nat) :
    callee (env.relabel ρ) (ρ.name name) count =
      relabelOutcome ρ (Prod.map (List.map (Parameter.relabel ρ)) (Block.relabel ρ))
        (callee env name count) := by
  rw [callee_eq, callee_eq, Environment.find?_relabel hρ]
  cases env.find? name with
  | none => rfl
  | some value =>
    cases value with
    | none => rfl
    | some v =>
      cases v with
      | integer n => rfl
      | boolean b => rfl
      | function p parameters body =>
        simp only [Option.map_some, Value.relabel, List.length_map]
        split <;> rfl

/-! ## Runs that commute with a relabelling -/

/-- The state with its scope and its diagnostics relabelled. -/
def State.relabel (ρ : Relabelling) (s : State) : State :=
  ⟨s.env.relabel ρ, s.diagnostics.map (Diagnostic.rename ρ)⟩

theorem State.relabel_record (ρ : Relabelling) (s : State) (position : Position)
    (fault : MeaningFault) :
    (s.record position fault).relabel ρ =
      (s.relabel ρ).record (ρ.place position) (fault.rename ρ.name) := by
  simp [State.relabel, State.record, Diagnostic.rename, Fault.rename]

/-- The same outcome with the state that was reached relabelled. -/
def relabelResult {α β : Type} (ρ : Relabelling) (f : α → β) :
    Attempt.Result Halt State α → Attempt.Result Halt State β
  | .ok a s => .ok (f a) (s.relabel ρ)
  | .error halt s => .error halt (s.relabel ρ)

/-- From a relabelled state `y` does what `x` does from the state itself, if that is regular, and
    `f` says how the results are related. -/
def Equivariant (N : Node → Prop) (ρ : Relabelling) {α β : Type} (f : α → β) (x : Evaluation α)
    (y : Evaluation β) : Prop :=
  ∀ s : State, s.Regular N → y.run (s.relabel ρ) = relabelResult ρ f (x.run s)

namespace Equivariant

variable {N : Node → Prop} {ρ : Relabelling} {α β γ δ : Type}

theorem pure (f : α → β) (a : α) : Equivariant N ρ f (Pure.pure a) (Pure.pure (f a)) :=
  fun _ _ => rfl

theorem fail (f : α → β) (halt : Halt) :
    Equivariant N ρ f (Attempt.fail halt) (Attempt.fail halt) :=
  fun _ _ => rfl

/-- The second part starts in a regular state because the first part keeps the state regular. -/
theorem bind {f : α → β} {g : γ → δ} {x : Evaluation α} {y : Evaluation β}
    {k : α → Evaluation γ} {l : β → Evaluation δ} {post : α → Prop}
    (hkeeps : Keeps (State.Regular N) Halt.Regular x post) (hx : Equivariant N ρ f x y)
    (hk : ∀ a, post a → Equivariant N ρ g (k a) (l (f a))) :
    Equivariant N ρ g (x >>= k) (y >>= l) := by
  intro s hs
  rw [Attempt.run_bind, Attempt.run_bind, hx s hs]
  cases hr : x.run s with
  | ok a t =>
    obtain ⟨ha, ht⟩ := hkeeps.ok hs hr
    exact hk a ha t ht
  | error halt t => rfl

theorem bind_state {g : γ → δ} {k : State → Evaluation γ} {l : State → Evaluation δ}
    (hk : ∀ s, s.Regular N → Equivariant N ρ g (k s) (l (s.relabel ρ))) :
    Equivariant N ρ g (Attempt.state >>= k) (Attempt.state >>= l) :=
  fun s hs => hk s hs s hs

theorem assign (hρ : Function.Injective ρ.name) (name : String) (value : Option Value) :
    Equivariant N ρ id (assign name value)
      (assign (ρ.name name) (value.map (Value.relabel ρ))) := by
  intro s _
  simp only [Evaluation.assign, Attempt.run_update, relabelResult, State.relabel,
    Environment.relabel_set hρ, id_eq]

theorem report {f : Option α → Option β} (hf : f none = none) (position : Position)
    (fault : MeaningFault) :
    Equivariant N ρ f (report position fault)
      (report (ρ.place position) (fault.rename ρ.name)) := by
  intro s _
  simp [Evaluation.report, relabelResult, State.relabel, Diagnostic.rename, Fault.rename, hf]

theorem settle (position : Position) (result : Outcome Value) :
    Equivariant N ρ (Option.map (Value.relabel ρ)) (settle position result)
      (settle (ρ.place position) (relabelOutcome ρ (Value.relabel ρ) result)) := by
  cases result with
  | ok value => exact .pure (Option.map (Value.relabel ρ)) (some value)
  | error setback =>
    cases setback with
    | fault fault => exact .report rfl position fault
    | halt halt => exact .fail _ halt

theorem inScope {f : α → β} {x : Evaluation α} {y : Evaluation β} (hx : Equivariant N ρ f x y)
    {scope : Environment} (hscope : scope.Holds (Value.Known N)) :
    Equivariant N ρ f (inScope scope x) (inScope (scope.relabel ρ) y) := by
  intro s hs
  have hrun := hx { s with env := scope } ⟨hscope, hs.diagnostics⟩
  simp only [Evaluation.inScope]
  rw [show State.mk (scope.relabel ρ) (s.relabel ρ).diagnostics =
    State.relabel ρ { s with env := scope } from rfl, hrun]
  cases x.run { s with env := scope } with
  | ok a t => rfl
  | error halt t => rfl

end Equivariant

/-- Nodes of the collection are evaluated in a way that keeps the state regular and commutes with
    the relabelling. -/
structure Follows (N : Node → Prop) (ρ : Relabelling)
    (eval : Node → Evaluation (Option Value)) : Prop where
  keeps : ∀ n, N n → KeepsRegular N (eval n)
  equivariant : ∀ n, N n →
    Equivariant N ρ (Option.map (Value.relabel ρ)) (eval n) (eval (n.relabel ρ))

namespace Follows

variable {N : Node → Prop} {ρ : Relabelling} {eval : Node → Evaluation (Option Value)}
  (h : Follows N ρ eval)

include h

theorem valuesOf {nodes : List Node} (hnodes : ∀ n ∈ nodes, N n) :
    Equivariant N ρ (List.map (Option.map (Value.relabel ρ))) (valuesOf eval nodes)
      (valuesOf eval (nodes.map (Node.relabel ρ))) := by
  induction nodes with
  | nil => exact .pure _ []
  | cons n nodes ih =>
    obtain ⟨hn, hnodes⟩ := List.forall_mem_cons.1 hnodes
    refine .bind (h.keeps n hn) (h.equivariant n hn) fun v _ => ?_
    refine .bind (.valuesOf fun m hm => h.keeps m (hnodes m hm)) (ih hnodes) fun vs _ => ?_
    exact .pure (List.map (Option.map (Value.relabel ρ))) (v :: vs)

theorem runForms {forms : List Node} (hforms : ∀ f ∈ forms, N f) (result : Option Value) :
    Equivariant N ρ (Option.map (Value.relabel ρ)) (runForms eval result forms)
      (runForms eval (result.map (Value.relabel ρ)) (forms.map (Node.relabel ρ))) := by
  induction forms generalizing result with
  | nil => exact .pure _ result
  | cons f forms ih =>
    obtain ⟨hf, hforms⟩ := List.forall_mem_cons.1 hforms
    refine .bind (h.keeps f hf) (h.equivariant f hf) fun v _ => ?_
    rw [← Option.map_or]
    exact ih hforms (v.or result)

theorem runSequence {forms : List Node} (hforms : ∀ f ∈ forms, N f) (result : Option Value) :
    Equivariant N ρ (Option.map (Value.relabel ρ)) (runSequence eval result forms)
      (runSequence eval (result.map (Value.relabel ρ)) (forms.map (Node.relabel ρ))) := by
  induction forms generalizing result with
  | nil => exact .pure _ result
  | cons f forms ih =>
    obtain ⟨hf, hforms⟩ := List.forall_mem_cons.1 hforms
    exact .bind (h.keeps f hf) (h.equivariant f hf) fun v _ => ih hforms v

theorem test {n : Node} (hn : N n) :
    Equivariant N ρ id (test eval n) (test eval (n.relabel ρ)) := by
  rw [test_eq, test_eq]
  refine .bind (h.keeps n hn) (h.equivariant n hn) fun v _ => ?_
  rw [Node.position_relabel]
  cases v with
  | none => exact .pure id none
  | some v =>
    cases v with
    | boolean b => exact .pure id (some b)
    | integer m => exact .report rfl n.position (.conditionNotBoolean .integer)
    | function p parameters body => exact .report rfl n.position (.conditionNotBoolean .function)

end Follows

theorem Equivariant.repeatWhile {N : Node → Prop} {ρ : Relabelling}
    {check check' : Evaluation (Option Bool)} {body body' : Evaluation (Option Value)}
    (hkeepsCheck : Keeps (State.Regular N) Halt.Regular check fun _ => True)
    (hcheck : Equivariant N ρ id check check') (hkeepsBody : KeepsRegular N body)
    (hbody : Equivariant N ρ (Option.map (Value.relabel ρ)) body body') (rounds : Nat)
    (result : Option Value) :
    Equivariant N ρ (Option.map (Value.relabel ρ)) (repeatWhile check body rounds result)
      (repeatWhile check' body' rounds (result.map (Value.relabel ρ))) := by
  induction rounds generalizing result with
  | zero => exact .fail _ .unfinished
  | succ rounds ih =>
    refine .bind hkeepsCheck hcheck fun b _ => ?_
    cases b with
    | none => exact .pure _ none
    | some b =>
      cases b with
      | false => exact .pure _ result
      | true => exact .bind hkeepsBody hbody fun v _ => ih v

/-! ## Nodes -/

theorem kind_ne_identifier_of_isOperator {t : Token} (h : t.IsOperator) :
    t.kind ≠ .identifier := by
  have hall : ∀ entry ∈ TokenKind.operatorSigns, entry.1 ≠ .identifier := by decide
  exact hall _ h

section Layer

variable {N : Node → Prop} {ρ : Relabelling} (hN : Node.Stock N)
  (hρ : Function.Injective ρ.name) {eval : Node → Evaluation (Option Value)}
  (h : Follows N ρ eval)

include hN h

theorem runBlock_equivariant {b : Block Node} (hb : N (.block b)) :
    Equivariant N ρ (Option.map (Value.relabel ρ)) (runBlock eval b)
      (runBlock eval (Block.relabel ρ b)) := by
  rw [runBlock, runBlock, Block.forms_relabel]
  exact h.runForms (hN.block hb) none

include hρ

/-- The body of a called function starts in the relabelled scope. -/
theorem layer_equivariant_call {p : Position} {name : String} {arguments : List Node}
    (hn : N (.call p name arguments)) (rounds : Nat) :
    Equivariant N ρ (Option.map (Value.relabel ρ)) (layer rounds eval (.call p name arguments))
      (layer rounds eval ((Node.call p name arguments).relabel ρ)) := by
  rw [Node.relabel, Node.relabelAll_eq_map]
  refine .bind_state fun s hs => ?_
  rw [List.length_map, show (s.relabel ρ).env = s.env.relabel ρ from rfl, callee_relabel hρ]
  obtain ⟨q, parameters, body, hfind, hcallee⟩ | ⟨fault, -, -, hcallee⟩ :=
    callee_cases s.env name arguments.length
  · rw [hcallee]
    refine .bind (.valuesOf fun a ha => h.keeps a (hN.call hn a ha))
      (h.valuesOf (hN.call hn)) fun values hvalues => ?_
    have hscope : (Environment.ofList ((parameters.map Parameter.name).zip values)).Holds
        (Value.Known N) :=
      Environment.holds_ofList fun b hb => hvalues b.2 (List.of_mem_zip hb).2
    have hfunction : N (.function q parameters body) := hs.env.of_find? hfind
    have hbody := (runBlock_equivariant hN h (hN.function hfunction)).inScope hscope
    rw [scope_relabel hρ] at hbody
    exact hbody
  · rw [hcallee]
    exact .report rfl p fault

theorem layer_equivariant (rounds : Nat) {n : Node} (hn : N n) :
    Equivariant N ρ (Option.map (Value.relabel ρ)) (layer rounds eval n)
      (layer rounds eval (n.relabel ρ)) := by
  obtain ⟨role, hfits⟩ := hN.fits hn
  cases n with
  | integer p value => exact .pure (Option.map (Value.relabel ρ)) (some (.integer value))
  | boolean p value => exact .pure (Option.map (Value.relabel ρ)) (some (.boolean value))
  | identifier p name =>
    refine .bind_state fun s hs => ?_
    rw [show (s.relabel ρ).env = s.env.relabel ρ from rfl, Environment.find?_relabel hρ]
    cases s.env.find? name with
    | none => exact .report rfl p (.unbound name)
    | some value => exact .pure (Option.map (Value.relabel ρ)) value
  | binary p operator left right =>
    obtain ⟨hleft, hright⟩ := hN.binary hn
    refine .bind (h.keeps left hleft) (h.equivariant left hleft) fun a _ => ?_
    refine .bind (h.keeps right hright) (h.equivariant right hright) fun b _ => ?_
    cases a with
    | none => exact .pure (Option.map (Value.relabel ρ)) none
    | some a =>
      cases b with
      | none => exact .pure (Option.map (Value.relabel ρ)) none
      | some b =>
        have hkind := kind_ne_identifier_of_isOperator (hfits.operator rfl)
        have hsettle := Equivariant.settle (N := N) (ρ := ρ) p (combine operator a b)
        rw [← combine_relabel ρ hkind] at hsettle
        exact hsettle
  | minus p operand =>
    have hoperand := hN.minus hn
    refine .bind (h.keeps operand hoperand) (h.equivariant operand hoperand) fun v _ => ?_
    cases v with
    | none => exact .pure (Option.map (Value.relabel ρ)) none
    | some v =>
      have hsettle := Equivariant.settle (N := N) (ρ := ρ) p (negate v)
      rw [← negate_relabel] at hsettle
      exact hsettle
  | not p operand =>
    have hoperand := hN.not hn
    refine .bind (h.keeps operand hoperand) (h.equivariant operand hoperand) fun v _ => ?_
    cases v with
    | none => exact .pure (Option.map (Value.relabel ρ)) none
    | some v =>
      have hsettle := Equivariant.settle (N := N) (ρ := ρ) p (invert v)
      rw [← invert_relabel] at hsettle
      exact hsettle
  | call p name arguments => exact layer_equivariant_call hN hρ h hn rounds
  | function p parameters body =>
    exact .pure (Option.map (Value.relabel ρ)) (some (.function p parameters body))
  | assignment p name value =>
    have hvalue := hN.assignment hn
    refine .bind (h.keeps value hvalue) (h.equivariant value hvalue) fun v hv => ?_
    refine .bind (assign_keeps name hv) (.assign hρ name v) fun _ _ => ?_
    exact .pure (Option.map (Value.relabel ρ)) none
  | conditional p condition consequence alternative =>
    obtain ⟨hcondition, hconsequence, halternative⟩ := hN.conditional hn
    rw [Node.relabel, Block.relabelOption_eq_map]
    refine .bind (test_keeps h.keeps hcondition) (h.test hcondition) fun b _ => ?_
    cases b with
    | none => exact .pure (Option.map (Value.relabel ρ)) none
    | some b =>
      cases b with
      | true => exact runBlock_equivariant hN h hconsequence
      | false =>
        cases alternative with
        | none => exact .pure (Option.map (Value.relabel ρ)) none
        | some b => exact runBlock_equivariant hN h (halternative b rfl)
  | loop p condition body =>
    obtain ⟨hcondition, hbody⟩ := hN.loop hn
    exact .repeatWhile (test_keeps h.keeps hcondition) (h.test hcondition)
      (runBlock_keeps hN h.keeps hbody) (runBlock_equivariant hN h hbody) rounds none
  | block b => exact runBlock_equivariant hN h hn
  | program p forms => exact absurd rfl hfits.program
  | bare p kind => exact absurd rfl (hfits.bare p kind)

end Layer

section Programs

variable {N : Node → Prop} {ρ : Relabelling} (hN : Node.Stock N)
  (hρ : Function.Injective ρ.name)

include hN hρ

/-- Evaluating a node of the collection commutes with the relabelling, at every depth. -/
theorem evaluateAt_follows (rounds depth : Nat) : Follows N ρ (evaluateAt rounds depth) := by
  refine ⟨fun n hn => evaluateAt_keeps hN rounds depth hn, fun n hn => ?_⟩
  induction depth generalizing n with
  | zero => exact .fail _ .tooDeep
  | succ depth ih =>
    exact layer_equivariant hN hρ ⟨fun n hn => evaluateAt_keeps hN rounds depth hn, ih⟩ rounds hn

theorem evaluateProgram_equivariant (limits : Limits) {program : Program}
    (hforms : ∀ f ∈ program.forms, N f) :
    Equivariant N ρ (Option.map (Value.relabel ρ)) (evaluateProgram limits program)
      (evaluateProgram limits (program.relabel ρ)) := by
  intro s hs
  have hfollows : Follows N ρ (evaluate limits) := evaluateAt_follows hN hρ _ _
  have hrun : (runSequence (evaluate limits) none (program.relabel ρ).forms).run (s.relabel ρ) =
      relabelResult ρ _ ((runSequence (evaluate limits) none program.forms).run s) :=
    hfollows.runSequence hforms none s hs
  by_cases hdeep : ∃ t, (runSequence (evaluate limits) none program.forms).run s = .error .tooDeep t
  · obtain ⟨t, ht⟩ := hdeep
    rw [ht] at hrun
    rw [run_evaluateProgram_of_tooDeep ht, run_evaluateProgram_of_tooDeep hrun]
    exact congrArg _ (t.relabel_record ρ program.position .callsTooDeep).symm
  · rw [run_evaluateProgram (not_exists.1 hdeep), ← hrun]
    refine run_evaluateProgram fun t ht => ?_
    rw [hrun] at ht
    cases hr : (runSequence (evaluate limits) none program.forms).run s with
    | ok v t => simp [hr, relabelResult] at ht
    | error halt t =>
      rw [hr] at ht
      cases ht
      exact hdeep ⟨t, hr⟩

end Programs

end Evaluation

/-! ## Sources -/

/-- The run with its scope, its value and its diagnostics relabelled. -/
def Run.relabel (ρ : Relabelling) (run : Run) : Run where
  value := run.value.map (Value.relabel ρ)
  halt := run.halt
  parseDiagnostics := run.parseDiagnostics.map (Diagnostic.rename ρ)
  runDiagnostics := run.runDiagnostics.map (Diagnostic.rename ρ)
  env := run.env.relabel ρ

section Sources

variable {limits : Limits} {source source' : String} {ρ ρ' : Relabelling}

/-- No diagnostic of parsing is about the meaning of a name. -/
theorem map_rename_parseDiagnostics (limits : Limits) (source : String) (ρ : Relabelling) :
    (parseSource limits source).2.map (Diagnostic.rename ρ) =
      (parseSource limits source).2.map (Diagnostic.relabel ρ) := by
  refine List.map_congr_left fun d hd => ?_
  have hlabel := Grammar.forms_diagnostic (Grammar.nested limits.depth) (Window.ofSource source)
    d (Option.mem_toList.1 hd)
  rw [Diagnostic.rename, Diagnostic.relabel]
  cases hfault : d.fault with
  | meaning fault => simp [hfault, Fault.label] at hlabel
  | illegalCharacter _ | grammar _ | remark _ _ => rfl

/-- Sources whose tokens are relabelled to the same have programs and diagnostics that are. -/
theorem parseSource_relabel (limits : Limits)
    (h : (TokenStream.ofSource source').relabel ρ' = (TokenStream.ofSource source).relabel ρ) :
    (parseSource limits source').1.relabel ρ' = (parseSource limits source).1.relabel ρ ∧
      (parseSource limits source').2.map (Diagnostic.rename ρ') =
        (parseSource limits source).2.map (Diagnostic.rename ρ) := by
  have hforms := Grammar.forms_relabel ρ limits.depth (.ofSource source)
  have hforms' := Grammar.forms_relabel ρ' limits.depth (.ofSource source')
  rw [h, hforms, Prod.mk.injEq, Prod.mk.injEq] at hforms'
  obtain ⟨hnodes, hdiagnostic, -⟩ := hforms'
  have hcurrent := congrArg TokenStream.current h
  rw [TokenStream.current_relabel, TokenStream.current_relabel] at hcurrent
  refine ⟨?_, ?_⟩
  · simp only [parseSource_eq, Grammar.program, Program.relabel, hnodes, Program.mk.injEq, true_and]
    exact congrArg Token.position hcurrent
  · rw [map_rename_parseDiagnostics, map_rename_parseDiagnostics]
    simp only [parseSource_eq, Grammar.program, ← Option.toList_map, hdiagnostic]

/-- The relabelled run of a source is the run of its relabelled program. -/
theorem relabel_runSource (limits : Limits) (source : String) (hρ : Function.Injective ρ.name) :
    (runSource limits source).relabel ρ =
      { Run.ofEvaluation {}
          (Evaluation.evaluateProgram limits ((parseSource limits source).1.relabel ρ)) with
        parseDiagnostics := (parseSource limits source).2.map (Diagnostic.rename ρ) } := by
  have hstart : Evaluation.State.Regular (Occurs limits [source]) {} :=
    ⟨Environment.holds_empty, by simp⟩
  have hrun : (Evaluation.evaluateProgram limits ((parseSource limits source).1.relabel ρ)).run {} =
      Evaluation.relabelResult ρ _
        ((Evaluation.evaluateProgram limits (parseSource limits source).1).run {}) :=
    Evaluation.evaluateProgram_equivariant (stock_occurs limits [source]) hρ limits
      (occurs_form List.mem_cons_self) {} hstart
  simp only [Run.ofEvaluation, hrun]
  simp only [runSource, runIn, Run.relabel, Run.ofEvaluation]
  cases (Evaluation.evaluateProgram limits (parseSource limits source).1).run {} with
  | ok v t => rfl
  | error halt t => rfl

/-- Sources whose tokens are relabelled to the same have runs that are. -/
theorem runSource_relabel (limits : Limits) (hρ : Function.Injective ρ.name)
    (hρ' : Function.Injective ρ'.name)
    (h : (TokenStream.ofSource source').relabel ρ' = (TokenStream.ofSource source).relabel ρ) :
    (runSource limits source').relabel ρ' = (runSource limits source).relabel ρ := by
  obtain ⟨hprogram, hdiagnostics⟩ := parseSource_relabel limits h
  rw [relabel_runSource limits source' hρ', relabel_runSource limits source hρ, hprogram,
    hdiagnostics]

end Sources

end Castellano
