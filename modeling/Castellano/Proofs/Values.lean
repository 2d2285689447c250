import Castellano.Proofs.Invariant
import Castellano.Proofs.Places

/-!
# The values of a run

A run of nodes that fit their places makes only 64-bit integers, truth values and functions whose
literals are among these nodes. This holds of its result and of everything that is bound, in the
scope of the program and in those of calls. Such a run never meets a node that cannot be evaluated,
a value that is not there where one is asked for, a quotient by zero or an operator that is not
supported.

* `Node.Stock`: a collection of nodes that fit their places, closed under going down.
* `Value.Known`, `Environment.Holds`: the values that a run of such nodes can make, and the scopes
  that bind no others.
* `Evaluation.State.Regular`: a state with such a scope and with regular diagnostics only.
* `Evaluation.Proper`, `combine_proper`, `callee_cases`: what operations and calls can come to.
* `evaluateAt_keeps`: evaluating a node of the collection keeps the state regular.
-/

namespace Castellano

/-! ## Nodes and values -/

/-- A collection of nodes that fit their places; with a node it holds those below it. -/
structure Node.Stock (N : Node → Prop) : Prop where
  fits : ∀ {n : Node}, N n → ∃ role, n.Fits role
  child : ∀ {n child : Node} {role : Role}, N n → (role, child) ∈ n.children → N child

namespace Node.Stock

variable {N : Node → Prop} (h : Node.Stock N) {p : Position} {name : String}

include h

theorem binary {operator : Token} {left right : Node} (hn : N (.binary p operator left right)) :
    N left ∧ N right :=
  ⟨h.child hn (.head _), h.child hn (.tail _ (.head _))⟩

theorem minus {operand : Node} (hn : N (.minus p operand)) : N operand := h.child hn (.head _)

theorem not {operand : Node} (hn : N (.not p operand)) : N operand := h.child hn (.head _)

theorem assignment {value : Node} (hn : N (.assignment p name value)) : N value :=
  h.child hn (.head _)

theorem call {arguments : List Node} (hn : N (.call p name arguments)) : ∀ a ∈ arguments, N a :=
  fun _ ha => h.child hn (List.mem_map_of_mem ha)

theorem function {parameters : List Parameter} {body : Block Node}
    (hn : N (.function p parameters body)) : N (.block body) :=
  h.child hn (List.mem_append_right _ (.head _))

theorem conditional {condition : Node} {consequence : Block Node}
    {alternative : Option (Block Node)}
    (hn : N (.conditional p condition consequence alternative)) :
    N condition ∧ N (.block consequence) ∧ ∀ b, alternative = some b → N (.block b) := by
  refine ⟨h.child hn (.head _), h.child hn (.tail _ (.head _)), ?_⟩
  rintro b rfl
  exact h.child hn (.tail _ (.tail _ (.head _)))

theorem loop {condition : Node} {body : Block Node} (hn : N (.loop p condition body)) :
    N condition ∧ N (.block body) :=
  ⟨h.child hn (.head _), h.child hn (.tail _ (.head _))⟩

theorem block {b : Block Node} (hn : N (.block b)) : ∀ f ∈ b.forms, N f :=
  fun _ hf => h.child hn (List.mem_map_of_mem hf)

end Node.Stock

/-- The nodes of shaped programs are such a collection. -/
theorem Node.stock_contains {programs : List Program} (h : ∀ p ∈ programs, p.Shaped) :
    Node.Stock fun n => ∃ p ∈ programs, p.Contains n where
  fits := by
    rintro n ⟨p, hp, role, hn⟩
    exact ⟨role, ((h p hp).admits hn).fits⟩
  child := by
    rintro n child role' ⟨p, hp, role, hn⟩ hchild
    exact ⟨p, hp, role', hn.deeper hchild⟩

/-- An integer of 64 bits, a truth value, or a function whose literal is one of the nodes. -/
def Value.Known (N : Node → Prop) : Value → Prop
  | integer n => Word64.InRange n
  | boolean _ => True
  | function p parameters body => N (.function p parameters body)

/-! ## Scopes -/

namespace Environment

variable {K : Value → Prop} {env : Environment}

/-- Every value that the scope binds has `K`. -/
def Holds (K : Value → Prop) (env : Environment) : Prop :=
  ∀ name v, (name, some v) ∈ env.bindings → K v

theorem holds_empty : empty.Holds K := by
  intro name v h
  cases h

theorem mem_insertInto {name other : String} {value v : Option Value}
    {bindings : List (String × Option Value)} (h : (other, v) ∈ insertInto name value bindings) :
    v = value ∨ (other, v) ∈ bindings := by
  induction bindings with
  | nil =>
    simp only [insertInto, List.mem_singleton, Prod.mk.injEq] at h
    exact .inl h.2
  | cons b rest ih =>
    obtain ⟨n, w⟩ := b
    rw [insertInto] at h
    split at h
    · obtain h | h := List.mem_cons.1 h
      · exact .inl (Prod.mk.inj h).2
      · exact .inr (List.mem_cons_of_mem _ h)
    · obtain h | h := List.mem_cons.1 h
      · exact .inr (h ▸ List.mem_cons_self)
      · exact (ih h).imp_right (List.mem_cons_of_mem _)

theorem Holds.set (h : env.Holds K) (name : String) {value : Option Value}
    (hvalue : ∀ v, value = some v → K v) : (env.set name value).Holds K := by
  intro other v hv
  obtain hv | hv := mem_insertInto hv
  · exact hvalue v hv.symm
  · exact h other v hv

theorem Holds.of_find? (h : env.Holds K) {name : String} {v : Value}
    (hv : env.find? name = some (some v)) : K v := by
  obtain ⟨before, behind, hsplit, -⟩ := List.lookup_eq_some_iff.1 hv
  exact h name v (by simp [hsplit])

/-- A scope made from bindings holds what these hold. -/
theorem holds_ofList {bindings : List (String × Option Value)}
    (h : ∀ b ∈ bindings, ∀ v, b.2 = some v → K v) : (ofList bindings).Holds K := by
  rw [ofList]
  have hstart : empty.Holds K := holds_empty
  generalize empty = env at hstart
  induction bindings generalizing env with
  | nil => exact hstart
  | cons b bindings ih =>
    obtain ⟨hb, hbindings⟩ := List.forall_mem_cons.1 h
    exact ih hbindings _ (hstart.set b.1 hb)

end Environment

/-! ## Reports and reasons to stop -/

/-- A fault of meaning that a parsed program can have: no parsed operator is unsupported. -/
def MeaningFault.Regular : MeaningFault → Prop
  | unsupported _ => False
  | _ => True

/-- A diagnostic of evaluation that a parsed program can give. -/
def Diagnostic.Regular (d : Diagnostic) : Prop :=
  ∃ fault, d.fault = .meaning fault ∧ fault.Regular

/-- A reason to stop other than a step that cannot be made. -/
def Halt.Regular : Halt → Prop
  | tooDeep | unfinished => True
  | unhandled _ | missingValue | zeroDivisor => False

namespace Evaluation

/-- The scope binds known values only, and all diagnostics are regular. -/
structure State.Regular (N : Node → Prop) (s : State) : Prop where
  env : s.env.Holds (Value.Known N)
  diagnostics : ∀ d ∈ s.diagnostics, d.Regular

/-- If there is a value, it is known. -/
def ResultKnown (N : Node → Prop) (result : Option Value) : Prop := ∀ v, result = some v → v.Known N

variable {N : Node → Prop}

theorem State.Regular.record {s : State} (h : s.Regular N) (position : Position)
    {fault : MeaningFault} (hfault : fault.Regular) : (s.record position fault).Regular N where
  env := h.env
  diagnostics := by
    intro d hd
    obtain hd | hd := List.mem_append.1 hd
    · exact h.diagnostics d hd
    · obtain rfl := List.mem_singleton.1 hd
      exact ⟨fault, rfl, hfault⟩

theorem resultKnown_none : ResultKnown N none := by
  intro v h
  cases h

theorem resultKnown_some {v : Value} (h : v.Known N) : ResultKnown N (some v) := by
  rintro _ ⟨⟩
  exact h

/-! ## Operators -/

/-- What an operation comes to: a number of 64 bits, a truth value, or a fault that says nothing of
    the depth of calls and is regular where the operator is supported. It never stops the run. -/
inductive Proper (supported : Prop) : Outcome Value → Prop
  | integer (n : Int) : Proper supported (.ok (.integer (Word64.wrap n)))
  | boolean (b : Bool) : Proper supported (.ok (.boolean b))
  | fault {fault : MeaningFault} (hdepth : fault ≠ .callsTooDeep)
    (hregular : supported → fault.Regular) : Proper supported (.error (.fault fault))

theorem negate_proper (v : Value) : Proper True (negate v) := by
  cases v with
  | integer n => exact .integer (-n)
  | boolean _ | function _ _ _ => exact .fault MeaningFault.noConfusion id

theorem invert_proper (v : Value) : Proper True (invert v) := by
  cases v with
  | boolean b => exact .boolean _
  | integer _ | function _ _ _ => exact .fault MeaningFault.noConfusion id

theorem combineIntegers_proper {operator : Token} (h : operator.kind ≠ .equals) (a b : Int) :
    Proper operator.IsOperator (combineIntegers operator a b) := by
  by_cases hdivide : operator.kind = .divide
  · rw [combineIntegers_divide hdivide]
    cases Word64.quotient a b with
    | none => exact .fault MeaningFault.noConfusion fun _ => trivial
    | some q => exact .integer q
  · rw [combineIntegers]
    split
    · exact .integer (a + b)
    · exact .integer (a - b)
    · exact .integer (a * b)
    · contradiction
    · refine .fault MeaningFault.noConfusion fun hoperator => ?_
      -- all signs have been met before
      have hkind : operator.kind ∈ TokenKind.operatorSigns.map Prod.fst :=
        List.mem_map_of_mem hoperator
      simp_all [TokenKind.operatorSigns]

theorem combine_proper (operator : Token) (a b : Value) :
    Proper operator.IsOperator (combine operator a b) := by
  by_cases hkind : a.kind = b.kind
  · cases a with
    | integer n =>
      cases b with
      | integer m =>
        rw [combine_integers]
        split
        · exact .boolean _
        · exact combineIntegers_proper ‹_› n m
      | boolean _ | function _ _ _ => cases hkind
    | boolean b₁ =>
      cases b with
      | boolean b₂ =>
        rw [combine_booleans]
        split
        · exact .boolean _
        · exact .fault MeaningFault.noConfusion fun _ => trivial
      | integer _ | function _ _ _ => cases hkind
    | function _ _ _ =>
      cases b with
      | function _ _ _ => exact .fault MeaningFault.noConfusion fun _ => trivial
      | integer _ | boolean _ => cases hkind
  · rw [combine_of_kind_ne operator hkind]
    exact .fault MeaningFault.noConfusion fun _ => trivial

/-- What a call can find: a function that is bound, or a regular fault. -/
theorem callee_cases (env : Environment) (name : String) (count : Nat) :
    (∃ p parameters body, env.find? name = some (some (.function p parameters body)) ∧
      callee env name count = .ok (parameters, body)) ∨
    ∃ fault, fault ≠ .callsTooDeep ∧ fault.Regular ∧
      callee env name count = .error (.fault fault) := by
  rw [callee_eq]
  split
  · exact .inr ⟨.unbound name, MeaningFault.noConfusion, trivial, rfl⟩
  · rename_i p parameters body hfind
    split
    · exact .inl ⟨p, parameters, body, hfind, rfl⟩
    · exact .inr ⟨.wrongArity .., MeaningFault.noConfusion, trivial, rfl⟩
  · exact .inr ⟨.notFunction .., MeaningFault.noConfusion, trivial, rfl⟩

/-! ## Evaluation -/

/-- The run keeps the state regular, and its result is known. -/
abbrev KeepsRegular (N : Node → Prop) (x : Evaluation (Option Value)) : Prop :=
  Keeps (State.Regular N) Halt.Regular x (ResultKnown N)

theorem settle_keeps (position : Position) {supported : Prop} (hsupported : supported)
    {result : Outcome Value} (h : Proper supported result) :
    KeepsRegular N (settle position result) := by
  cases h with
  | integer n => exact .pure (resultKnown_some (Word64.inRange_wrap n))
  | boolean b => exact .pure (resultKnown_some trivial)
  | fault _ hregular =>
    exact .report (fun _ hs => hs.record position (hregular hsupported)) resultKnown_none

theorem report_keeps (position : Position) {fault : MeaningFault} (h : fault.Regular) :
    KeepsRegular N (report position fault) :=
  .report (fun _ hs => hs.record position h) resultKnown_none

theorem assign_keeps (name : String) {value : Option Value} (h : ResultKnown N value) :
    Keeps (State.Regular N) Halt.Regular (assign name value) fun _ => True :=
  .update fun _ hs => ⟨hs.env.set name h, hs.diagnostics⟩

theorem inScope_keeps {scope : Environment} (h : scope.Holds (Value.Known N))
    {body : Evaluation (Option Value)} (hbody : KeepsRegular N body) :
    KeepsRegular N (inScope scope body) :=
  .inScope hbody (fun _ hs => ⟨h, hs.diagnostics⟩) fun _ _ hs hs' => ⟨hs.env, hs'.diagnostics⟩

section Layer

variable {eval : Node → Evaluation (Option Value)} (hN : Node.Stock N)
  (heval : ∀ n, N n → KeepsRegular N (eval n))

include hN heval

theorem runBlock_keeps {b : Block Node} (hb : N (.block b)) : KeepsRegular N (runBlock eval b) :=
  .runBlock (fun f hf => heval f (hN.block hb f hf)) resultKnown_none

omit hN in
theorem test_keeps {n : Node} (hn : N n) :
    Keeps (State.Regular N) Halt.Regular (test eval n) fun _ => True :=
  .test (heval n hn) fun _ _ hs => hs.record _ trivial

theorem layer_keeps (rounds : Nat) {n : Node} (hn : N n) :
    KeepsRegular N (layer rounds eval n) := by
  obtain ⟨role, hfits⟩ := hN.fits hn
  cases n with
  | integer p value => exact .pure (resultKnown_some (hfits.integer rfl))
  | boolean p value => exact .pure (resultKnown_some trivial)
  | identifier p name =>
    refine .bind_state fun s hs => ?_
    cases hfind : s.env.find? name with
    | none => exact report_keeps p trivial
    | some value =>
      refine .pure ?_
      rintro v rfl
      exact hs.env.of_find? hfind
  | binary p operator left right =>
    refine .bind (heval left (hN.binary hn).1) fun a _ =>
      .bind (heval right (hN.binary hn).2) fun b _ => ?_
    cases a with
    | none => exact .pure resultKnown_none
    | some a =>
      cases b with
      | none => exact .pure resultKnown_none
      | some b => exact settle_keeps p (hfits.operator rfl) (combine_proper operator a b)
  | minus p operand =>
    refine .bind (heval operand (hN.minus hn)) fun v _ => ?_
    cases v with
    | none => exact .pure resultKnown_none
    | some v => exact settle_keeps p trivial (negate_proper v)
  | not p operand =>
    refine .bind (heval operand (hN.not hn)) fun v _ => ?_
    cases v with
    | none => exact .pure resultKnown_none
    | some v => exact settle_keeps p trivial (invert_proper v)
  | call p name arguments =>
    refine .bind_state fun s hs => ?_
    obtain ⟨q, parameters, body, hfind, hcallee⟩ | ⟨fault, -, hfault, hcallee⟩ :=
      callee_cases s.env name arguments.length
    · rw [hcallee]
      refine .bind (.valuesOf fun a ha => heval a (hN.call hn a ha)) fun values hvalues => ?_
      -- the body sees nothing but its parameters, and these have values of the arguments
      have hscope : (Environment.ofList ((parameters.map Parameter.name).zip values)).Holds
          (Value.Known N) :=
        Environment.holds_ofList fun b hb => hvalues b.2 (List.of_mem_zip hb).2
      have hfunction : N (.function q parameters body) := hs.env.of_find? hfind
      exact inScope_keeps hscope (runBlock_keeps hN heval (hN.function hfunction))
    · rw [hcallee]
      exact report_keeps p hfault
  | function p parameters body => exact .pure (resultKnown_some hn)
  | assignment p name value =>
    exact .bind (heval value (hN.assignment hn)) fun v hv =>
      .bind (assign_keeps name hv) fun _ _ => .pure resultKnown_none
  | conditional p condition consequence alternative =>
    obtain ⟨hcondition, hconsequence, halternative⟩ := hN.conditional hn
    refine .bind (test_keeps heval hcondition) fun b _ => ?_
    cases b with
    | none => exact .pure resultKnown_none
    | some b =>
      cases b with
      | true => exact runBlock_keeps hN heval hconsequence
      | false =>
        cases alternative with
        | none => exact .pure resultKnown_none
        | some b => exact runBlock_keeps hN heval (halternative b rfl)
  | loop p condition body =>
    obtain ⟨hcondition, hbody⟩ := hN.loop hn
    exact .repeatWhile (test_keeps heval hcondition) (runBlock_keeps hN heval hbody) trivial
      resultKnown_none rounds resultKnown_none
  | block b => exact runBlock_keeps hN heval hn
  | program p forms => exact absurd rfl hfits.program
  | bare p kind => exact absurd rfl (hfits.bare p kind)

end Layer

/-- Evaluating a node of the collection keeps the state regular, at every depth. -/
theorem evaluateAt_keeps (hN : Node.Stock N) (rounds depth : Nat) {n : Node} (hn : N n) :
    KeepsRegular N (evaluateAt rounds depth n) := by
  -- on the depth and not on the tree: the body of a called function is not below the call
  induction depth generalizing n with
  | zero => exact .fail trivial
  | succ depth ih => exact layer_keeps hN (fun _ => ih) rounds hn

end Evaluation

end Castellano
