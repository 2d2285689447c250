import Castellano.Evaluation.Run

/-!
# Invariants of runs

What holds of the state at every step of a run. A run may stop before its end, and the state it
reached then is kept, so that an invariant has to hold there too.

* `Evaluation.Keeps`: a run keeps an invariant of the state, and its result or the reason for which
  it stops is as expected; closed under sequencing, scopes, lists of nodes and loops.
-/

namespace Castellano.Evaluation

/-- From a state with `I` on, the run ends with a result that has `post`, or stops for a reason that
    has `R`; in both cases it leaves a state with `I`. -/
structure Keeps (I : State → Prop) (R : Halt → Prop) {α : Type} (x : Evaluation α)
    (post : α → Prop) : Prop where
  ok : ∀ {s s' : State} {a : α}, I s → x.run s = .ok a s' → post a ∧ I s'
  error : ∀ {s s' : State} {halt : Halt}, I s → x.run s = .error halt s' → R halt ∧ I s'

/-- The state with one more diagnostic. -/
def State.record (s : State) (position : Position) (fault : MeaningFault) : State :=
  { s with diagnostics := s.diagnostics ++ [⟨.meaning fault, position⟩] }

namespace Keeps

variable {I : State → Prop} {R : Halt → Prop} {α β : Type} {post : α → Prop}

/-- Whatever happens, the state that a run leaves has the invariant. -/
theorem state_run {x : Evaluation α} (h : Keeps I R x post) {s : State} (hs : I s) :
    I (x.run s).state := by
  cases hx : x.run s with
  | ok a s' => exact (h.ok hs hx).2
  | error halt s' => exact (h.error hs hx).2

theorem pure {a : α} (h : post a) : Keeps I R (Pure.pure a) post := by
  refine ⟨?_, ?_⟩
  · rintro s s' b hs ⟨⟩
    exact ⟨h, hs⟩
  · rintro s s' halt hs ⟨⟩

theorem fail {halt : Halt} (h : R halt) : Keeps I R (Attempt.fail halt : Evaluation α) post := by
  refine ⟨?_, ?_⟩
  · rintro s s' a hs ⟨⟩
  · rintro s s' halt' hs ⟨⟩
    exact ⟨h, hs⟩

theorem bind {x : Evaluation α} {f : α → Evaluation β} {post' : β → Prop} (hx : Keeps I R x post)
    (hf : ∀ a, post a → Keeps I R (f a) post') : Keeps I R (x >>= f) post' := by
  refine ⟨?_, ?_⟩
  · intro s s' b hs h
    rw [Attempt.run_bind] at h
    cases hr : x.run s with
    | ok a t =>
      rw [hr] at h
      obtain ⟨ha, ht⟩ := hx.ok hs hr
      exact (hf a ha).ok ht h
    | error halt t =>
      rw [hr] at h
      cases h
  · intro s s' halt hs h
    rw [Attempt.run_bind] at h
    cases hr : x.run s with
    | ok a t =>
      rw [hr] at h
      obtain ⟨ha, ht⟩ := hx.ok hs hr
      exact (hf a ha).error ht h
    | error halt t =>
      rw [hr] at h
      cases h
      exact hx.error hs hr

/-- What looks at the state may use that it has the invariant. -/
theorem bind_state {f : State → Evaluation α} (hf : ∀ s, I s → Keeps I R (f s) post) :
    Keeps I R (Attempt.state >>= f) post :=
  ⟨fun hs h => (hf _ hs).ok hs h, fun hs h => (hf _ hs).error hs h⟩

theorem update {f : State → State} (hf : ∀ s, I s → I (f s)) :
    Keeps I R (Attempt.update f) fun _ => True := by
  refine ⟨?_, ?_⟩
  · rintro s s' a hs ⟨⟩
    exact ⟨trivial, hf s hs⟩
  · rintro s s' halt hs ⟨⟩

/-- A body runs in a scope of its own, where it may keep an invariant of its own. -/
theorem inScope {J : State → Prop} {scope : Environment} {body : Evaluation α}
    (hbody : Keeps J R body post) (henter : ∀ s, I s → J { s with env := scope })
    (hleave : ∀ s s', I s → J s' → I { s' with env := s.env }) :
    Keeps I R (inScope scope body) post := by
  refine ⟨?_, ?_⟩
  · intro s s' a hs h
    rw [Evaluation.inScope] at h
    cases hr : body.run { s with env := scope } with
    | ok b t =>
      simp only [hr] at h
      cases h
      obtain ⟨ha, ht⟩ := hbody.ok (henter s hs) hr
      exact ⟨ha, hleave s t hs ht⟩
    | error halt t =>
      simp only [hr] at h
      cases h
  · intro s s' halt hs h
    rw [Evaluation.inScope] at h
    cases hr : body.run { s with env := scope } with
    | ok b t =>
      simp only [hr] at h
      cases h
    | error halt t =>
      simp only [hr] at h
      cases h
      obtain ⟨ha, ht⟩ := hbody.error (henter s hs) hr
      exact ⟨ha, hleave s t hs ht⟩

theorem report {position : Position} {fault : MeaningFault} {post : Option α → Prop}
    (hfault : ∀ s, I s → I (s.record position fault)) (hnone : post none) :
    Keeps I R (report position fault) post :=
  .bind (.update hfault) fun _ _ => .pure hnone

theorem concede {position : Position} {setback : Setback} {post : Option α → Prop}
    (hfault : ∀ fault, setback = .fault fault → ∀ s, I s → I (s.record position fault))
    (hhalt : ∀ halt, setback = .halt halt → R halt) (hnone : post none) :
    Keeps I R (concede position setback) post := by
  cases setback with
  | fault fault => exact .report (hfault fault rfl) hnone
  | halt halt => exact .fail (hhalt halt rfl)

theorem settle {position : Position} {result : Outcome Value} {post : Option Value → Prop}
    (hvalue : ∀ v, result = .ok v → post (some v))
    (hfault : ∀ fault, result = .error (.fault fault) → ∀ s, I s → I (s.record position fault))
    (hhalt : ∀ halt, result = .error (.halt halt) → R halt) (hnone : post none) :
    Keeps I R (settle position result) post := by
  cases result with
  | ok v => exact .pure (hvalue v rfl)
  | error setback =>
    exact .concede (fun fault h => hfault fault (congrArg Except.error h))
      (fun halt h => hhalt halt (congrArg Except.error h)) hnone

/-! ### Lists of nodes and loops -/

section

variable {eval : Node → Evaluation (Option Value)} {post : Option Value → Prop}

theorem valuesOf {nodes : List Node} (h : ∀ n ∈ nodes, Keeps I R (eval n) post) :
    Keeps I R (valuesOf eval nodes) fun values => ∀ v ∈ values, post v := by
  induction nodes with
  | nil => exact .pure (by simp)
  | cons n nodes ih =>
    obtain ⟨hn, hnodes⟩ := List.forall_mem_cons.1 h
    exact .bind hn fun v hv => .bind (ih hnodes) fun vs hvs =>
      .pure (List.forall_mem_cons.2 ⟨hv, hvs⟩)

theorem runForms {forms : List Node} (h : ∀ f ∈ forms, Keeps I R (eval f) post)
    {result : Option Value} (hresult : post result) :
    Keeps I R (runForms eval result forms) post := by
  induction forms generalizing result with
  | nil => exact .pure hresult
  | cons f forms ih =>
    obtain ⟨hf, hforms⟩ := List.forall_mem_cons.1 h
    refine .bind hf fun v hv => ih hforms ?_
    cases v with
    | none => exact hresult
    | some v => exact hv

theorem runBlock {b : Block Node} (h : ∀ f ∈ b.forms, Keeps I R (eval f) post)
    (hnone : post none) : Keeps I R (runBlock eval b) post :=
  .runForms h hnone

theorem runSequence {forms : List Node} (h : ∀ f ∈ forms, Keeps I R (eval f) post)
    {result : Option Value} (hresult : post result) :
    Keeps I R (runSequence eval result forms) post := by
  induction forms generalizing result with
  | nil => exact .pure hresult
  | cons f forms ih =>
    obtain ⟨hf, hforms⟩ := List.forall_mem_cons.1 h
    exact .bind hf fun v hv => ih hforms hv

theorem test {n : Node} (h : Keeps I R (eval n) post)
    (hfault : ∀ kind s, I s → I (s.record n.position (.conditionNotBoolean kind))) :
    Keeps I R (test eval n) fun _ => True := by
  rw [test_eq]
  refine .bind h fun v _ => ?_
  cases v with
  | none => exact .pure trivial
  | some v =>
    cases v with
    | boolean b => exact .pure trivial
    | integer n => exact .report (hfault _) trivial
    | function p parameters body => exact .report (hfault _) trivial

theorem repeatWhile {check : Evaluation (Option Bool)} {body : Evaluation (Option Value)}
    (hcheck : Keeps I R check fun _ => True) (hbody : Keeps I R body post)
    (hunfinished : R .unfinished) (hnone : post none) (rounds : Nat) {result : Option Value}
    (hresult : post result) : Keeps I R (repeatWhile check body rounds result) post := by
  induction rounds generalizing result with
  | zero => exact .fail hunfinished
  | succ rounds ih =>
    refine .bind hcheck fun b _ => ?_
    cases b with
    | none => exact .pure hnone
    | some b =>
      cases b with
      | false => exact .pure hresult
      | true => exact .bind hbody fun v hv => ih hv

end

end Keeps

end Castellano.Evaluation
