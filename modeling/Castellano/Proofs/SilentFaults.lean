import Castellano.Proofs.Arithmetic
import Castellano.Proofs.Chronicle

/-!
# No fault is silent

An expression whose operand has no value has none either, and nothing is reported about it; a name
can be bound to no value. Where no function is called, such a lack of values always has a fault as
its cause that was reported before. A call is different: its body need not have a value.

* `Environment.Valued`: every name of a scope has a value.
* `Node.Plain`, `Plain.explained`: expressions without calls; they have no value exactly if they
  report something.
* `Evaluation.Rising`, `Evaluation.Candid`: reports are never taken back, and as long as there are
  none, all names and expressions have values; closed under sequencing and loops.
* `evaluateAt_candid`: evaluating nodes without calls is candid.
* `no_fault_is_silent_without_calls`: the law for whole runs, and for single expressions.
-/

namespace Castellano

/-- Every name that the scope binds has a value. -/
def Environment.Valued (env : Environment) : Prop := ∀ name, env.find? name ≠ some none

namespace Environment

theorem valued_empty : empty.Valued := by
  intro name h
  cases h

theorem Valued.set {env : Environment} (h : env.Valued) (name : String) {value : Option Value}
    (hvalue : value ≠ none) : (env.set name value).Valued := by
  intro other hother
  rw [find?_set] at hother
  split at hother
  · exact hvalue (Option.some.inj hother)
  · exact h other hother

end Environment

open Evaluation

/-! ## Single expressions -/

/-- An expression without calls. What stands in the body of a function literal does not matter. -/
inductive Node.Plain : Node → Prop
  | integer {p : Position} {value : Int} : Plain (.integer p value)
  | boolean {p : Position} {value : Bool} : Plain (.boolean p value)
  | identifier {p : Position} {name : String} : Plain (.identifier p name)
  | function {p : Position} {parameters : List Parameter} {body : Block Node} :
    Plain (.function p parameters body)
  | binary {p : Position} {operator : Token} {left right : Node} (hleft : Plain left)
    (hright : Plain right) : Plain (.binary p operator left right)
  | minus {p : Position} {operand : Node} (h : Plain operand) : Plain (.minus p operand)
  | not {p : Position} {operand : Node} (h : Plain operand) : Plain (.not p operand)

namespace Evaluation

/-- A result that was reached from the state `s`: diagnostics were added and nothing else changed,
    and there is no value exactly if some were. The run stops at most for lack of depth, and only if
    it was `short` of it. -/
def Explained (s : State) (short : Prop) : Attempt.Result Halt State (Option Value) → Prop
  | .ok value t =>
    ∃ new, t = { s with diagnostics := s.diagnostics ++ new } ∧ (value = none ↔ new ≠ [])
  | .error halt _ => halt = .tooDeep ∧ short

section Explained

variable {s t u : State} {short short' : Prop}

theorem explained_some (s : State) (short : Prop) (v : Value) :
    Explained s short (.ok (some v) s) :=
  ⟨[], by rw [List.append_nil], by simp⟩

theorem explained_record (s : State) (short : Prop) (p : Position) (fault : MeaningFault) :
    Explained s short (.ok none (s.record p fault)) :=
  ⟨[⟨.meaning fault, p⟩], rfl, by simp⟩

theorem explained_settle (s : State) (short : Prop) (p : Position) {supported : Prop}
    {result : Outcome Value} (h : Proper supported result) :
    Explained s short ((settle p result).run s) := by
  cases h with
  | integer n => exact explained_some s short _
  | boolean b => exact explained_some s short _
  | fault _ _ => exact explained_record s short p _

namespace Explained

theorem of_error {halt : Halt} (h : Explained s short (.error halt t)) (himp : short → short')
    (s' : State) : Explained s' short' (.error halt t) :=
  ⟨h.1, himp h.2⟩

theorem env_eq {value : Option Value} (h : Explained s short (.ok value t)) : t.env = s.env := by
  obtain ⟨new, rfl, -⟩ := h
  rfl

/-- What has a value has reported nothing. -/
theorem eq_of_some {v : Value} (h : Explained s short (.ok (some v) t)) : t = s := by
  obtain ⟨new, rfl, hnew⟩ := h
  obtain rfl : new = [] := by simpa using hnew
  rw [List.append_nil]

/-- What has no value is explained, whatever is reported later. -/
theorem none_trans {value : Option Value} (h : Explained s short (.ok none t))
    (h' : Explained t short' (.ok value u)) : Explained s short' (.ok none u) := by
  obtain ⟨new, rfl, hnew⟩ := h
  obtain ⟨more, rfl, -⟩ := h'
  have hne : new ≠ [] := hnew.1 rfl
  exact ⟨new ++ more, by rw [List.append_assoc], by simp [hne]⟩

/-- An operation on one value. -/
theorem unary {x : Evaluation (Option Value)} {f : Option Value → Evaluation (Option Value)}
    (h : Explained s short (x.run s)) (himp : short → short') (hnone : f none = pure none)
    (hsome : ∀ v, ∃ p result, Proper True result ∧ f (some v) = settle p result) :
    Explained s short' ((x >>= f).run s) := by
  rw [Attempt.run_bind]
  cases hx : x.run s with
  | error halt t =>
    rw [hx] at h
    exact h.of_error himp s
  | ok value t =>
    rw [hx] at h
    cases value with
    | none =>
      simp only [hnone]
      exact h
    | some v =>
      obtain ⟨p, result, hproper, hsettle⟩ := hsome v
      obtain rfl := h.eq_of_some
      simp only [hsettle]
      exact explained_settle t short' p hproper

end Explained

end Explained

end Evaluation

/-- An expression without calls has no value exactly if it reports something, in a scope where all
    names have values. -/
theorem Node.Plain.explained {n : Node} (h : n.Plain) (rounds depth : Nat) {s : State}
    (hs : s.env.Valued) :
    Explained s (depth < n.height) ((evaluateAt rounds depth n).run s) := by
  induction depth generalizing n s with
  | zero => exact ⟨rfl, n.height_pos⟩
  | succ depth ih =>
    cases h with
    | integer | boolean | function => exact explained_some s _ _
    | @identifier p name =>
      rw [evaluateAt, layer, Attempt.run_bind, Attempt.run_state]
      cases hname : s.env.find? name with
      | none =>
        simp only [hname]
        exact explained_record s _ p (.unbound name)
      | some value =>
        cases value with
        | none => exact absurd hname (hs name)
        | some v =>
          simp only [hname]
          exact explained_some s _ v
    | @minus p operand h =>
      refine (ih h hs).unary ?_ rfl fun v => ⟨p, negate v, negate_proper v, rfl⟩
      rw [Node.height]
      omega
    | @not p operand h =>
      refine (ih h hs).unary ?_ rfl fun v => ⟨p, invert v, invert_proper v, rfl⟩
      rw [Node.height]
      omega
    | @binary p operator left right hl hr =>
      have hshortLeft : depth < left.height → depth + 1 < max left.height right.height + 1 := by
        omega
      have hshortRight : depth < right.height → depth + 1 < max left.height right.height + 1 := by
        omega
      have hleft := ih hl hs
      rw [Node.height]
      cases hrun : (evaluateAt rounds depth left).run s with
      | error halt t =>
        rw [hrun] at hleft
        rw [evaluateAt, layer, Attempt.run_bind, hrun]
        exact hleft.of_error hshortLeft s
      | ok a t =>
        rw [hrun] at hleft
        have ht : t.env.Valued := hleft.env_eq ▸ hs
        have hright := ih hr ht
        cases hrun' : (evaluateAt rounds depth right).run t with
        | error halt u =>
          rw [hrun'] at hright
          rw [evaluateAt, layer, Attempt.run_bind, hrun]
          simp only [Attempt.run_bind, hrun']
          exact hright.of_error hshortRight s
        | ok b u =>
          rw [hrun'] at hright
          cases a with
          | none =>
            rw [run_binary_none p operator hrun hrun' (.inl rfl)]
            exact hleft.none_trans hright
          | some a =>
            obtain rfl := hleft.eq_of_some
            cases b with
            | none =>
              rw [run_binary_none p operator hrun hrun' (.inr rfl)]
              exact hright
            | some b =>
              obtain rfl := hright.eq_of_some
              rw [run_binary_some p operator hrun hrun']
              exact explained_settle u _ p (combine_proper operator _ _)

/-! ## Runs and their events -/

namespace Evaluation

/-- Diagnostics are only added, from the state `s` through the events to the state `t`. -/
def Rising (s : State) : List Event → State → Prop
  | [], t => s.diagnostics <+: t.diagnostics
  | e :: events, t => s.diagnostics <+: e.state.diagnostics ∧ Rising e.state events t

namespace Rising

variable {s t u : State} {events more : List Event}

theorem of_le (hle : s.diagnostics <+: t.diagnostics) (h : Rising t events u) :
    Rising s events u := by
  cases events with
  | nil => exact hle.trans h
  | cons e events => exact ⟨hle.trans h.1, h.2⟩

theorem append (h : Rising s events t) (h' : Rising t more u) : Rising s (events ++ more) u := by
  induction events generalizing s with
  | nil => exact h'.of_le h
  | cons e events ih => exact ⟨h.1, ih h.2⟩

theorem le (h : Rising s events t) : s.diagnostics <+: t.diagnostics := by
  induction events generalizing s with
  | nil => exact h
  | cons e events ih => exact h.1.trans (ih h.2)

theorem le_of_mem (h : Rising s events t) {e : Event} (he : e ∈ events) :
    s.diagnostics <+: e.state.diagnostics ∧ e.state.diagnostics <+: t.diagnostics := by
  induction events generalizing s with
  | nil => cases he
  | cons first events ih =>
    obtain rfl | he := List.mem_cons.1 he
    · exact ⟨h.1, le h.2⟩
    · exact ⟨h.1.trans (ih h.2 he).1, (ih h.2 he).2⟩

/-- What is reported at an event is reported at all later ones. -/
theorem le_of_before {before after : List Event} {e e' : Event}
    (h : Rising s (before ++ e :: after) t) (he' : e' ∈ before) :
    e'.state.diagnostics <+: e.state.diagnostics := by
  induction before generalizing s with
  | nil => cases he'
  | cons first before ih =>
    obtain rfl | he' := List.mem_cons.1 he'
    · exact (le_of_mem h.2 (List.mem_append_right _ List.mem_cons_self)).1
    · exact ih h.2 he'

end Rising

/-- Nothing has been reported. -/
def State.Clean (s : State) : Prop := s.diagnostics = []

theorem State.Clean.of_le {s t : State} (ht : t.Clean) (h : s.diagnostics <+: t.diagnostics) :
    s.Clean :=
  List.prefix_nil.1 (ht ▸ h)

/-- As long as nothing has been reported, all names have values at the event, and if an expression
    ends there, it has one too. -/
def Event.Candid (e : Event) : Prop :=
  e.state.Clean → e.state.env.Valued ∧
    ∀ node value t, e = .ends node (.ok value t) → node.IsExpression → value ≠ none

/-- The run only adds diagnostics. If it starts with none of them and a value for each name, and if
    `c` holds then, all its events are candid; and if there are still no diagnostics at its end, all
    names have values there and its result is as `given`. -/
structure Candid {α : Type} (c : Prop) (x : Chronicle α) (given : α → Prop) : Prop where
  rising : ∀ s, Rising s (x.run s).1 (x.run s).2.state
  events : c → ∀ s : State, s.Clean → s.env.Valued → ∀ e ∈ (x.run s).1, e.Candid
  ends : c → ∀ s : State, s.Clean → s.env.Valued → (x.run s).2.state.Clean →
    (x.run s).2.state.env.Valued ∧ ∀ a t, (x.run s).2 = .ok a t → given a

namespace Candid

variable {α β : Type} {c c' : Prop} {given given' : α → Prop}

theorem imp {x : Chronicle α} (h : Candid c x given) (hc : c' → c)
    (hgiven : ∀ a, given a → given' a) : Candid c' x given' where
  rising := h.rising
  events hc' := h.events (hc hc')
  ends hc' s hs hv ht := by
    obtain ⟨hvalued, hresult⟩ := h.ends (hc hc') s hs hv ht
    exact ⟨hvalued, fun a t hrun => hgiven a (hresult a t hrun)⟩

/-- A run without events. -/
theorem quietly {x : Evaluation α} (hle : ∀ s, s.diagnostics <+: (x.run s).state.diagnostics)
    (hends : c → ∀ s : State, s.Clean → s.env.Valued → (x.run s).state.Clean →
      (x.run s).state.env.Valued ∧ ∀ a t, x.run s = .ok a t → given a) :
    Candid c (.quietly x) given where
  rising := hle
  events := by
    intro hc s hs hv e he
    cases he
  ends := hends

theorem pure {a : α} (h : c → given a) : Candid c (Pure.pure a : Chronicle α) given := by
  refine quietly (x := Pure.pure a) (fun s => List.prefix_refl _) fun hc s hs hv _ => ⟨hv, ?_⟩
  rintro b t ⟨⟩
  exact h hc

theorem fail (halt : Halt) : Candid c (.quietly (Attempt.fail halt) : Chronicle α) given := by
  refine quietly (fun s => List.prefix_refl _) fun hc s hs hv _ => ⟨hv, ?_⟩
  rintro a t ⟨⟩

/-- After a report, nothing more is asked. -/
theorem report {given : Option α → Prop} (p : Position) (fault : MeaningFault) :
    Candid c (.quietly (Evaluation.report p fault)) given := by
  refine quietly (fun s => List.prefix_append _ _) fun hc s hs hv ht => ?_
  have hne : s.diagnostics ++ [⟨.meaning fault, p⟩] = [] := ht
  simp at hne

theorem settle (p : Position) (result : Outcome Value) :
    Candid c (.quietly (Evaluation.settle p result)) (· ≠ none) := by
  cases result with
  | ok v => exact pure fun _ => Option.some_ne_none v
  | error setback =>
    cases setback with
    | fault fault => exact report p fault
    | halt halt => exact fail halt

theorem assign (name : String) {value : Option Value} (h : c → value ≠ none) :
    Candid c (.quietly (Evaluation.assign name value)) fun _ => True :=
  quietly (fun _ => List.prefix_refl _) fun hc _ _ hv _ =>
    ⟨hv.set name (h hc), fun _ _ _ => trivial⟩

theorem bind {x : Chronicle α} {f : α → Chronicle β} {given' : β → Prop} (hx : Candid c x given)
    (hf : ∀ a, Candid (c ∧ given a) (f a) given') : Candid c (x >>= f) given' := by
  constructor
  · intro s
    cases hrun : (x.run s).2 with
    | ok a t =>
      rw [Chronicle.run_bind_ok hrun]
      have hfirst := hx.rising s
      rw [hrun] at hfirst
      exact hfirst.append ((hf a).rising t)
    | error halt t =>
      rw [Chronicle.run_bind_error hrun]
      have hfirst := hx.rising s
      rw [hrun] at hfirst
      exact hfirst
  · intro hc s hs hv e he
    cases hrun : (x.run s).2 with
    | ok a t =>
      rw [Chronicle.run_bind_ok hrun] at he
      obtain he | he := List.mem_append.1 he
      · exact hx.events hc s hs hv e he
      · -- an event of the second part is candid unless the first part has reported something
        intro hclean
        have ht : t.Clean := hclean.of_le ((hf a).rising t |>.le_of_mem he).1
        obtain ⟨hvalued, hgiven⟩ := hx.ends hc s hs hv (by rw [hrun]; exact ht)
        rw [hrun] at hvalued
        exact (hf a).events ⟨hc, hgiven a t hrun⟩ t ht hvalued e he hclean
    | error halt t =>
      rw [Chronicle.run_bind_error hrun] at he
      exact hx.events hc s hs hv e he
  · intro hc s hs hv hclean
    cases hrun : (x.run s).2 with
    | ok a t =>
      rw [Chronicle.run_bind_ok hrun] at hclean ⊢
      have ht : t.Clean := hclean.of_le ((hf a).rising t).le
      obtain ⟨hvalued, hgiven⟩ := hx.ends hc s hs hv (by rw [hrun]; exact ht)
      rw [hrun] at hvalued
      exact (hf a).ends ⟨hc, hgiven a t hrun⟩ t ht hvalued hclean
    | error halt t =>
      rw [Chronicle.run_bind_error hrun] at hclean ⊢
      obtain ⟨hvalued, -⟩ := hx.ends hc s hs hv (by rw [hrun]; exact hclean)
      rw [hrun] at hvalued
      refine ⟨hvalued, ?_⟩
      rintro b u ⟨⟩

/-- The evaluation of a node, with its own two events. -/
theorem noting {node : Node} {x : Chronicle (Option Value)}
    (h : Candid c x fun value => node.IsExpression → value ≠ none) :
    Candid c (.noting node x) fun value => node.IsExpression → value ≠ none := by
  constructor
  · intro s
    exact ⟨List.prefix_refl _, (h.rising s).append ⟨List.prefix_refl _, List.prefix_refl _⟩⟩
  · intro hc s hs hv e he
    obtain rfl | he := List.mem_cons.1 he
    · intro hclean
      refine ⟨hv, ?_⟩
      rintro node' value t ⟨⟩
    · obtain he | he := List.mem_append.1 he
      · exact h.events hc s hs hv e he
      · obtain rfl := List.mem_singleton.1 he
        intro hclean
        obtain ⟨hvalued, hresult⟩ := h.ends hc s hs hv hclean
        refine ⟨hvalued, ?_⟩
        intro node' value t heq
        injection heq with hnode hrun
        subst hnode
        exact hresult value t hrun
  · exact h.ends

/-! ### Lists of nodes and loops -/

section

variable {eval : Node → Chronicle (Option Value)}

theorem runForms {forms : List Node} (h : ∀ f ∈ forms, Candid True (eval f) fun _ => True)
    (result : Option Value) : Candid c (.runForms eval result forms) fun _ => True := by
  induction forms generalizing result c with
  | nil => exact pure fun _ => trivial
  | cons f forms ih =>
    obtain ⟨hf, hforms⟩ := List.forall_mem_cons.1 h
    exact bind (hf.imp (fun _ => trivial) fun _ h => h) fun v => ih hforms _

theorem runSequence {forms : List Node} (h : ∀ f ∈ forms, Candid True (eval f) fun _ => True)
    (result : Option Value) : Candid c (.runSequence eval result forms) fun _ => True := by
  induction forms generalizing result c with
  | nil => exact pure fun _ => trivial
  | cons f forms ih =>
    obtain ⟨hf, hforms⟩ := List.forall_mem_cons.1 h
    exact bind (hf.imp (fun _ => trivial) fun _ h => h) fun v => ih hforms _

theorem test {n : Node} (h : Candid True (eval n) fun _ => True) :
    Candid c (.test eval n) fun _ => True := by
  refine bind (h.imp (fun _ => trivial) fun _ h => h) fun v => ?_
  cases v with
  | none => exact pure fun _ => trivial
  | some v =>
    cases v with
    | boolean b => exact pure fun _ => trivial
    | integer _ | function _ _ _ => exact report _ _

end

theorem repeatWhile {check : Chronicle (Option Bool)} {body : Chronicle (Option Value)}
    (hcheck : ∀ c, Candid c check fun _ => True) (hbody : ∀ c, Candid c body fun _ => True)
    (rounds : Nat) (result : Option Value) :
    Candid c (.repeatWhile check body rounds result) fun _ => True := by
  induction rounds generalizing result c with
  | zero => exact fail .unfinished
  | succ rounds ih =>
    refine bind (hcheck c) fun b => ?_
    cases b with
    | none => exact pure fun _ => trivial
    | some b =>
      cases b with
      | false => exact pure fun _ => trivial
      | true => exact bind (hbody _) fun v => ih v

/-- The value of a name. -/
theorem identifier (rounds : Nat) (eval : Node → Evaluation (Option Value)) (p : Position)
    (name : String) : Candid c (.quietly (layer rounds eval (.identifier p name))) (· ≠ none) := by
  have hunbound : ∀ s : State, s.env.find? name = none →
      (layer rounds eval (.identifier p name)).run s = .ok none (s.record p (.unbound name)) := by
    intro s hname
    simp only [layer, Attempt.run_bind, Attempt.run_state, hname]
    rfl
  have hbound : ∀ (s : State) value, s.env.find? name = some value →
      (layer rounds eval (.identifier p name)).run s = .ok value s := by
    intro s value hname
    simp only [layer, Attempt.run_bind, Attempt.run_state, hname, Attempt.run_pure]
  apply quietly
  · intro s
    cases hname : s.env.find? name with
    | none =>
      rw [hunbound s hname]
      exact List.prefix_append _ _
    | some value =>
      rw [hbound s value hname]
      exact List.prefix_refl _
  · intro hc s hs hv hclean
    cases hname : s.env.find? name with
    | none =>
      rw [hunbound s hname] at hclean
      exact absurd hclean (List.append_ne_nil_of_right_ne_nil _ (List.cons_ne_nil _ _))
    | some value =>
      rw [hbound s value hname]
      refine ⟨hv, ?_⟩
      rintro a t ⟨⟩ rfl
      exact hv name hname

end Candid

end Evaluation

/-! ## Nodes without calls -/

/-- An operand is an expression. -/
theorem Shaped.isExpression {n : Node} (h : Shaped .operand n) : n.IsExpression := by
  cases h <;> simp [Node.IsExpression, Node.kind]

namespace Evaluation

/-- Evaluating a node that the grammar builds is candid, if no function is called in it. -/
theorem evaluateAt_candid {N : Node → Prop} (hN : Node.Stock N)
    (hcalls : ∀ n, N n → n.kind ≠ .call) (rounds depth : Nat) {place : Place} {n : Node}
    (hshape : Shaped place n) (hn : N n) :
    Candid True (Chronicle.evaluateAt rounds depth n) fun value =>
      n.IsExpression → value ≠ none := by
  induction depth generalizing place n with
  | zero => exact .noting (.fail .tooDeep)
  | succ depth ih =>
    have hoperand : ∀ {m : Node}, Shaped .operand m → N m →
        ∀ c, Candid c (Chronicle.evaluateAt rounds depth m) (· ≠ none) :=
      fun hm hNm c => (ih hm hNm).imp (fun _ => trivial) fun v hv => hv hm.isExpression
    have hany : ∀ {place : Place} {m : Node}, Shaped place m → N m →
        Candid True (Chronicle.evaluateAt rounds depth m) fun _ => True :=
      fun hm hNm => (ih hm hNm).imp id fun _ _ => trivial
    have hblock : ∀ {b : Block Node}, (∀ f ∈ b.forms, Shaped .form f) → N (.block b) →
        ∀ c, Candid c (.runBlock (Chronicle.evaluateAt rounds depth) b) fun _ => True :=
      fun hforms hb c => .runForms (fun f hf => hany (hforms f hf) (hN.block hb f hf)) none
    apply Candid.noting
    cases hshape with
    | integer | boolean | function => exact .pure fun _ _ => Option.some_ne_none _
    | identifier => exact (Candid.identifier ..).imp id fun v hv _ => hv
    | @binary _ p operator left right _ hleft hright =>
      obtain ⟨hNl, hNr⟩ := hN.binary hn
      refine .bind (hoperand hleft hNl _) fun a => .bind (hoperand hright hNr _) fun b => ?_
      cases a with
      | none => exact .pure fun h => absurd rfl h.1.2
      | some a =>
        cases b with
        | none => exact .pure fun h => absurd rfl h.2
        | some b => exact (Candid.settle p _).imp id fun v hv _ => hv
    | @minus _ p operand h =>
      refine .bind (hoperand h (hN.minus hn) _) fun a => ?_
      cases a with
      | none => exact .pure fun h => absurd rfl h.2
      | some a => exact (Candid.settle p _).imp id fun v hv _ => hv
    | @not _ p operand h =>
      refine .bind (hoperand h (hN.not hn) _) fun a => ?_
      cases a with
      | none => exact .pure fun h => absurd rfl h.2
      | some a => exact (Candid.settle p _).imp id fun v hv _ => hv
    | call => exact absurd rfl (hcalls _ hn)
    | @assignment p name value _ hvalue =>
      refine .bind (hoperand hvalue (hN.assignment hn) _) fun v => ?_
      refine .bind (.assign name fun h => h.2) fun _ => .pure fun _ hexpression => ?_
      simp [Node.IsExpression, Node.kind] at hexpression
    | @conditional p condition consequence alternative hcondition hconsequence halternative =>
      obtain ⟨hNc, hNt, hNe⟩ := hN.conditional hn
      suffices h : Candid True _ fun _ => True from h.imp id fun _ _ hexpression => by
        simp [Node.IsExpression, Node.kind] at hexpression
      refine .bind (.test (hany hcondition hNc)) fun b => ?_
      cases b with
      | none => exact .pure fun _ => trivial
      | some b =>
        cases b with
        | true => exact hblock hconsequence hNt _
        | false =>
          cases alternative with
          | none => exact .pure fun _ => trivial
          | some b => exact hblock (halternative b rfl) (hNe b rfl) _
    | @loop p condition body hcondition hbody =>
      obtain ⟨hNc, hNb⟩ := hN.loop hn
      suffices h : Candid True _ fun _ => True from h.imp id fun _ _ hexpression => by
        simp [Node.IsExpression, Node.kind] at hexpression
      exact .repeatWhile (fun c => .test (hany hcondition hNc)) (hblock hbody hNb) rounds none

end Evaluation

/-- A program that reports nothing ends as its forms do: it did not nest too deeply. -/
theorem Program.run_eq_of_clean {limits : Limits} {program : Program} {s : State}
    (h : ((evaluateProgram limits program).run s).state.Clean) :
    (evaluateProgram limits program).run s = ((program.chronicle limits).run s).2 := by
  have hforms : (program.chronicle limits).forget.run s =
      (runSequence (evaluate limits) none program.forms).run s := by
    rw [program.forget_chronicle]
  refine (run_evaluateProgram fun t hdeep => ?_).trans hforms.symm
  rw [run_evaluateProgram_of_tooDeep hdeep] at h
  exact List.append_ne_nil_of_right_ne_nil _ (List.cons_ne_nil _ _) h

/-- Without calls, no fault is silent. Take a parsed program that calls no function, and any moment
    of its run in a scope of its own: if nothing has been reported yet, every name of the scope has
    a value, and so had every expression whose evaluation has ended; this holds when the whole run
    has ended, too. And wherever all names have values, an expression without calls, which needs no
    more depth than its tree is high, leaves the scope alone and has no value exactly if it reports
    something. -/
theorem no_fault_is_silent_without_calls :
    (∀ (limits : Limits) (source : String),
      let program := (parseSource limits source).1
      let events := program.history limits {}
      let final := ((evaluateProgram limits program).run {}).state
      (∀ node, program.Contains node → node.kind ≠ .call) →
      (∀ before event after, events = before ++ event :: after → event.state.diagnostics = [] →
        event.state.env.Valued ∧
        ∀ node value t, .ends node (.ok value t) ∈ before ++ [event] → node.IsExpression →
          value ≠ none) ∧
      (final.diagnostics = [] →
        final.env.Valued ∧
        ∀ node value t, .ends node (.ok value t) ∈ events → node.IsExpression → value ≠ none)) ∧
    ∀ node : Node, node.Plain → ∀ (rounds depth : Nat) (s : State), s.env.Valued →
      (node.height ≤ depth → ∃ value t, (evaluateAt rounds depth node).run s = .ok value t) ∧
      ∀ value t, (evaluateAt rounds depth node).run s = .ok value t →
        ∃ new, t = { s with diagnostics := s.diagnostics ++ new } ∧ (value = none ↔ new ≠ []) := by
  constructor
  · intro limits source program events final hcalls
    have hcandid : Candid True (program.chronicle limits) fun _ => True := by
      have hoccurs : ∀ n, Occurs limits [source] n → n.kind ≠ .call := by
        rintro n ⟨p, hp, hn⟩
        obtain rfl := List.mem_singleton.1 hp
        exact hcalls n hn
      refine .runSequence (fun f hf => ?_) none
      have hform := evaluateAt_candid (stock_occurs limits [source]) hoccurs limits.rounds
        limits.depth (parseSource_shaped limits source f hf) (occurs_form List.mem_cons_self f hf)
      exact hform.imp id fun _ _ => trivial
    have hevents := hcandid.events trivial {} rfl Environment.valued_empty
    have hrising := hcandid.rising {}
    constructor
    · intro before event after hsplit (hclean : event.state.Clean)
      have hmem : ∀ e ∈ before ++ [event], e ∈ events ∧ e.state.Clean := by
        intro e he
        obtain he | he := List.mem_append.1 he
        · rw [show ((program.chronicle limits).run {}).1 = _ from hsplit] at hrising
          exact ⟨hsplit ▸ List.mem_append_left _ he, hclean.of_le (hrising.le_of_before he)⟩
        · obtain rfl := List.mem_singleton.1 he
          exact ⟨hsplit ▸ List.mem_append_right _ List.mem_cons_self, hclean⟩
      refine ⟨(hevents event (hmem event (by simp)).1 hclean).1, fun node value t he hnode => ?_⟩
      obtain ⟨he, hclean'⟩ := hmem _ he
      exact (hevents _ he hclean').2 node value t rfl hnode
    · intro (hclean : final.Clean)
      have hrun := program.run_eq_of_clean hclean
      have hends := hcandid.ends trivial {} rfl Environment.valued_empty
      rw [← hrun] at hrising hends
      refine ⟨(hends hclean).1, fun node value t he hnode => ?_⟩
      exact (hevents _ he (hclean.of_le (hrising.le_of_mem he).2)).2 node value t rfl hnode
  · intro node hplain rounds depth s hs
    have hexplained := hplain.explained rounds depth hs
    cases hrun : (evaluateAt rounds depth node).run s with
    | error halt t =>
      rw [hrun] at hexplained
      refine ⟨fun hdepth => absurd hexplained.2 (Nat.not_lt.2 hdepth), ?_⟩
      rintro value u ⟨⟩
    | ok value t =>
      rw [hrun] at hexplained
      refine ⟨fun _ => ⟨value, t, rfl⟩, ?_⟩
      rintro _ _ ⟨⟩
      exact hexplained

/-- A loop that divides by zero in its second round, and binds a name to no value; what uses the
    name afterwards reports nothing more. Up to the fault, all has values. -/
theorem no_fault_is_silent_without_calls_loop :
    let source := "x := 0 mientras no (x = 2) \x7b x := x + 1. z := 6 / (2 - x) \x7d z + 1"
    let events := (parseSource ⟨9, 9⟩ source).1.history ⟨9, 9⟩ {}
    (runSource ⟨9, 9⟩ source).diagnostics.map Diagnostic.fault = [.meaning .divisionByZero] ∧
    events.length = 76 ∧
    (∀ before event after, events = before ++ event :: after → before.length = 58 →
      event.state.env.Valued ∧
      ∀ node value t, .ends node (.ok value t) ∈ before ++ [event] → node.IsExpression →
        value ≠ none) ∧
    ∃ new, (evaluateAt 9 2 (.binary ⟨1, 3⟩ ⟨.divide, "/", ⟨1, 3⟩⟩ (.integer ⟨1, 1⟩ 6)
      (.integer ⟨1, 5⟩ 0))).run {} = .ok none { diagnostics := new } ∧ new ≠ [] := by
  intro source events
  obtain ⟨hend, hlevels, hfaults, hlength, hclean⟩ :
      ((parseSource ⟨9, 9⟩ source).1.toNode.level 7).isEmpty ∧
      (∀ i < 7, ((parseSource ⟨9, 9⟩ source).1.toNode.level i).all fun entry =>
        entry.2.kind ≠ .call) ∧
      (runSource ⟨9, 9⟩ source).diagnostics.map Diagnostic.fault = [.meaning .divisionByZero] ∧
      events.length = 76 ∧ (events[58]?.map fun e => e.state.diagnostics) = some [] := by
    decide +kernel
  have hcalls : ∀ node, (parseSource ⟨9, 9⟩ source).1.Contains node → node.kind ≠ .call := by
    rintro node ⟨role, hnode⟩
    refine hnode.of_levels (P := fun entry => entry.2.kind ≠ .call) (List.isEmpty_iff.1 hend) ?_
    intro i hi entry hentry
    exact of_decide_eq_true (List.all_eq_true.1 (hlevels i hi) entry hentry)
  obtain ⟨hprograms, hexpressions⟩ := no_fault_is_silent_without_calls
  refine ⟨hfaults, hlength, fun before event after hsplit hbefore => ?_, ?_⟩
  · refine (hprograms ⟨9, 9⟩ source hcalls).1 before event after hsplit ?_
    rw [hsplit, List.getElem?_append_right (by omega), hbefore] at hclean
    exact Option.some.inj hclean
  · have hrun : (evaluateAt 9 2 (.binary ⟨1, 3⟩ ⟨.divide, "/", ⟨1, 3⟩⟩ (.integer ⟨1, 1⟩ 6)
        (.integer ⟨1, 5⟩ 0))).run {} =
      .ok none { diagnostics := [⟨.meaning .divisionByZero, ⟨1, 3⟩⟩] } := rfl
    obtain ⟨new, hstate, hnew⟩ := (hexpressions _ (.binary .integer .integer) 9 2 {}
      Environment.valued_empty).2 none _ hrun
    exact ⟨new, hrun.trans (congrArg (Attempt.Result.ok none) hstate), hnew.1 rfl⟩

end Castellano
