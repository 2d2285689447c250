import Castellano.Proofs.RunLimits

/-!
# Loops as iterated rounds

A loop evaluates its condition and its body in turn, until a check does not come out true. How many
rounds it makes is not known beforehand, but what it comes to is: the value of the last round, in
the state that all these evaluations leave behind.

* `alternate`: a check and a body in turn, a given number of times.
* `outcome`: what a loop returns after the check that ends it.
* `StopsAfter`: a loop ends after a given number of rounds, with a given value and state.
* `run_repeatWhile_succ`, `repeatWhile_eq_ok_iff`: one round of a loop, and the whole loop.
* `loop_is_iteration`: a loop returns exactly if it stops after some number of rounds.
-/

namespace Castellano

namespace Evaluation

/-! ## Rounds -/

/-- A check and a body in turn, a number of times, whatever the checks give. The result lists the
    values of the check and of the body, round by round. -/
def alternate (check body : Evaluation (Option Value)) :
    Nat → Evaluation (List (Option Value × Option Value))
  | 0 => return []
  | n + 1 => do
    let verdict ← check
    let value ← body
    return (verdict, value) :: (← alternate check body n)

/-- The value that the body gave in the last of the rounds; `before` if there was none. -/
def lastValue (before : Option Value) (history : List (Option Value × Option Value)) :
    Option Value :=
  (history.getLast?.map Prod.snd).getD before

/-- What a loop returns after a check, and the state that it leaves; `none` if it goes on. A verdict
    that is not a truth value is reported at the position. -/
def outcome (position : Position) (result : Option Value) :
    Option Value → State → Option (Option Value × State)
  | some (.boolean true), _ => none
  | some (.boolean false), s => some (result, s)
  | none, s => some (none, s)
  | some verdict, s => some (none, s.record position (.conditionNotBoolean verdict.kind))

/-- From the state `s` on, `n` rounds of the check and the body find every check true, and the check
    after them ends the loop with the value and the state `t`. -/
def StopsAfter (check body : Evaluation (Option Value)) (position : Position)
    (before : Option Value) (n : Nat) (s : State) (value : Option Value) (t : State) : Prop :=
  ∃ history s₁ verdict s₂,
    (alternate check body n).run s = .ok history s₁ ∧
    (∀ round ∈ history, round.1 = some (.boolean true)) ∧
    check.run s₁ = .ok verdict s₂ ∧
    outcome position (lastValue before history) verdict s₂ = some (value, t)

/-- Only a check that is true does not end a loop. -/
theorem outcome_eq_none_iff {position : Position} {result verdict : Option Value} {s : State} :
    outcome position result verdict s = none ↔ verdict = some (.boolean true) := by
  unfold outcome
  split <;> simp_all

theorem lastValue_cons (before : Option Value) (round : Option Value × Option Value)
    (history : List (Option Value × Option Value)) :
    lastValue before (round :: history) = lastValue round.2 history := by
  unfold lastValue
  rw [List.getLast?_cons]
  cases history.getLast? <;> rfl

section Rounds

variable {check body : Evaluation (Option Value)} {position : Position} {before : Option Value}
  {s : State} {value : Option Value} {t : State}

theorem stopsAfter_zero :
    StopsAfter check body position before 0 s value t ↔
      ∃ verdict s₁, check.run s = .ok verdict s₁ ∧
        outcome position before verdict s₁ = some (value, t) := by
  constructor
  · rintro ⟨_, _, verdict, s₁, ⟨⟩, -, hcheck, hend⟩
    exact ⟨verdict, s₁, hcheck, hend⟩
  · rintro ⟨verdict, s₁, hcheck, hend⟩
    exact ⟨[], s, verdict, s₁, rfl, by simp, hcheck, hend⟩

/-- After one round that found the check true, the rest is a loop of its own. -/
theorem stopsAfter_succ {n : Nat} :
    StopsAfter check body position before (n + 1) s value t ↔
      ∃ s₁ v s₂, check.run s = .ok (some (.boolean true)) s₁ ∧ body.run s₁ = .ok v s₂ ∧
        StopsAfter check body position v n s₂ value t := by
  simp only [StopsAfter, alternate, Attempt.bind_eq_ok, Attempt.pure_eq_ok]
  constructor
  · rintro ⟨_, _, verdict, u, ⟨_, s₁, hcheck, v, s₂, hbody, history, s₃, hrest, rfl, rfl⟩, hall,
      hlast, hend⟩
    obtain ⟨rfl, htrue⟩ := List.forall_mem_cons.1 hall
    rw [lastValue_cons] at hend
    exact ⟨s₁, v, s₂, hcheck, hbody, history, _, verdict, u, hrest, htrue, hlast, hend⟩
  · rintro ⟨s₁, v, s₂, hcheck, hbody, history, s₃, verdict, u, hrest, htrue, hlast, hend⟩
    refine ⟨_, s₃, verdict, u, ⟨_, s₁, hcheck, v, s₂, hbody, history, s₃, hrest, rfl, rfl⟩,
      List.forall_mem_cons.2 ⟨rfl, htrue⟩, hlast, ?_⟩
    rw [lastValue_cons]
    exact hend

/-- The number of rounds is determined: a check that ends a loop is not true. -/
theorem StopsAfter.rounds_unique {n m : Nat} {before' value' : Option Value} {t' : State}
    (hn : StopsAfter check body position before n s value t)
    (hm : StopsAfter check body position before' m s value' t') : m = n := by
  induction n generalizing m s before before' with
  | zero =>
    obtain ⟨verdict, s₁, hcheck, hend⟩ := stopsAfter_zero.1 hn
    cases m with
    | zero => rfl
    | succ m =>
      obtain ⟨s₁', v, s₂, htrue, -, -⟩ := stopsAfter_succ.1 hm
      rw [htrue] at hcheck
      cases hcheck
      cases hend
  | succ n ih =>
    obtain ⟨s₁, v, s₂, htrue, hbody, hrest⟩ := stopsAfter_succ.1 hn
    cases m with
    | zero =>
      obtain ⟨verdict, s₁', hcheck, hend⟩ := stopsAfter_zero.1 hm
      rw [htrue] at hcheck
      cases hcheck
      cases hend
    | succ m =>
      obtain ⟨s₁', v', s₂', htrue', hbody', hrest'⟩ := stopsAfter_succ.1 hm
      rw [htrue] at htrue'
      cases htrue'
      rw [hbody] at hbody'
      cases hbody'
      exact congrArg (· + 1) (ih hrest hrest')

end Rounds

/-! ## The loop -/

section Loop

variable {eval : Node → Evaluation (Option Value)} {condition : Node}
  {body : Evaluation (Option Value)} {before : Option Value} {s : State} {value : Option Value}
  {t : State}

/-- A loop after its first check: it has come to its end, or the body and the rest follow. -/
theorem run_repeatWhile_succ {rounds : Nat} {verdict : Option Value} {s₁ : State}
    (h : (eval condition).run s = .ok verdict s₁) :
    (repeatWhile (test eval condition) body (rounds + 1) before).run s =
      match outcome condition.position before verdict s₁ with
      | some (value, t) => .ok value t
      | none => (body >>= repeatWhile (test eval condition) body rounds).run s₁ := by
  rw [repeatWhile, Attempt.run_bind, test, Attempt.run_bind, h]
  cases verdict with
  | none => rfl
  | some v =>
    cases v with
    | boolean b => cases b <;> rfl
    | integer _ | function _ _ _ => rfl

/-- One round of a loop that returns. -/
theorem repeatWhile_succ_eq_ok {rounds : Nat} :
    (repeatWhile (test eval condition) body (rounds + 1) before).run s = .ok value t ↔
      ∃ verdict s₁, (eval condition).run s = .ok verdict s₁ ∧
        (outcome condition.position before verdict s₁ = some (value, t) ∨
          verdict = some (.boolean true) ∧ ∃ v s₂, body.run s₁ = .ok v s₂ ∧
            (repeatWhile (test eval condition) body rounds v).run s₂ = .ok value t) := by
  constructor
  · intro hrun
    cases hcheck : (eval condition).run s with
    | error halt s₁ =>
      rw [repeatWhile, Attempt.run_bind, test, Attempt.run_bind, hcheck] at hrun
      cases hrun
    | ok verdict s₁ =>
      refine ⟨verdict, s₁, rfl, ?_⟩
      rw [run_repeatWhile_succ hcheck] at hrun
      cases hend : outcome condition.position before verdict s₁ with
      | some ending =>
        rw [hend] at hrun
        cases hrun
        exact .inl rfl
      | none =>
        rw [hend] at hrun
        exact .inr ⟨outcome_eq_none_iff.1 hend, Attempt.bind_eq_ok.1 hrun⟩
  · rintro ⟨verdict, s₁, hcheck, hend | ⟨rfl, hrest⟩⟩
    · rw [run_repeatWhile_succ hcheck, hend]
    · rw [run_repeatWhile_succ hcheck]
      exact Attempt.bind_eq_ok.2 hrest

/-- A loop returns exactly if it stops after some number of rounds that are allowed. -/
theorem repeatWhile_eq_ok_iff {rounds : Nat} :
    (repeatWhile (test eval condition) body rounds before).run s = .ok value t ↔
      ∃ n < rounds, StopsAfter (eval condition) body condition.position before n s value t := by
  induction rounds generalizing before s with
  | zero => simp [repeatWhile]
  | succ rounds ih =>
    rw [repeatWhile_succ_eq_ok, Nat.exists_lt_succ_left, stopsAfter_zero]
    simp only [stopsAfter_succ, ih]
    constructor
    · rintro ⟨verdict, s₁, hcheck, hend | ⟨rfl, v, s₂, hbody, n, hn, hrest⟩⟩
      · exact .inl ⟨verdict, s₁, hcheck, hend⟩
      · exact .inr ⟨n, hn, s₁, v, s₂, hcheck, hbody, hrest⟩
    · rintro (⟨verdict, s₁, hcheck, hend⟩ | ⟨n, hn, s₁, v, s₂, hcheck, hbody, hrest⟩)
      · exact ⟨verdict, s₁, hcheck, .inl hend⟩
      · exact ⟨_, s₁, hcheck, .inr ⟨rfl, v, s₂, hbody, n, hn, hrest⟩⟩

end Loop

/-! ## Larger limits -/

namespace Refines

variable {E : Halt → Prop}

theorem run_eq_ok {α : Type} {x y : Evaluation α} (h : Refines E x y) {s t : State} {a : α}
    (hx : x.run s = .ok a t) : y.run s = .ok a t := by
  obtain ⟨halt, s', -, hrun⟩ | hrun := h s
  · rw [hx] at hrun
    cases hrun
  · rw [← hrun]
    exact hx

theorem stopsAfter {check check' body body' : Evaluation (Option Value)}
    (hcheck : Refines E check check') (hbody : Refines E body body') {position : Position}
    {before value : Option Value} {n : Nat} {s t : State}
    (h : StopsAfter check body position before n s value t) :
    StopsAfter check' body' position before n s value t := by
  induction n generalizing before s with
  | zero =>
    obtain ⟨verdict, s₁, hrun, hend⟩ := stopsAfter_zero.1 h
    exact stopsAfter_zero.2 ⟨verdict, s₁, hcheck.run_eq_ok hrun, hend⟩
  | succ n ih =>
    obtain ⟨s₁, v, s₂, htrue, hrun, hrest⟩ := stopsAfter_succ.1 h
    exact stopsAfter_succ.2 ⟨s₁, v, s₂, hcheck.run_eq_ok htrue, hbody.run_eq_ok hrun, ih hrest⟩

end Refines

end Evaluation

open Evaluation

/-- A loop is the iteration of its condition and its body. If from some state on `n` checks in turn
    with the body are true and the next one is not, the loop returns, under these and all larger
    limits that allow it `n` rounds: the value of the last round if that check is false, and no
    value otherwise. The state is the one that these evaluations leave, with a report of a check
    that gave another value than a truth value. And a loop that returns does so for one such `n`
    alone. -/
theorem loop_is_iteration (rounds depth : Nat) (p : Position) (condition : Node) (body : Block Node)
    (s : State) :
    let stops := StopsAfter (evaluateAt rounds depth condition)
      (runBlock (evaluateAt rounds depth) body) condition.position none
    (∀ n value t, stops n s value t →
      ∀ rounds' depth', rounds ≤ rounds' → depth ≤ depth' → n < rounds' →
        (evaluateAt rounds' (depth' + 1) (.loop p condition body)).run s = .ok value t) ∧
    ∀ value t, (evaluateAt rounds (depth + 1) (.loop p condition body)).run s = .ok value t →
      ∃ n < rounds, stops n s value t ∧
        ∀ m value' t', stops m s value' t' → m = n ∧ value' = value ∧ t' = t := by
  intro stops
  constructor
  · intro n value t hstops rounds' depth' hrounds hdepth hn
    have hrefines : ∀ node, Refines (fun _ => True) (evaluateAt rounds depth node)
        (evaluateAt rounds' depth' node) := fun node =>
      @evaluate_refines _ trivial ⟨depth, rounds⟩ ⟨depth', rounds'⟩ hdepth hrounds (.inr trivial)
        node
    exact repeatWhile_eq_ok_iff.2
      ⟨n, hn, (hrefines condition).stopsAfter (.runBlock hrefines body) hstops⟩
  · intro value t hrun
    obtain ⟨n, hn, hstops⟩ := repeatWhile_eq_ok_iff.1 hrun
    refine ⟨n, hn, hstops, fun m value' t' hstops' => ?_⟩
    obtain rfl := hstops.rounds_unique hstops'
    -- with the same number of rounds, both are what the same loop returns
    have hrun' := repeatWhile_eq_ok_iff.2 ⟨m, hn, hstops'⟩
    cases hrun.symm.trans hrun'
    exact ⟨rfl, rfl, rfl⟩

/-- A loop whose second and last round has no value, although the first one had; and a loop that is
    left because its condition becomes a number. -/
theorem loop_is_iteration_silent_round :
    (let i : Node := .identifier ⟨1, 15⟩ "i"
    let equals : Node → Node → Node := .binary ⟨1, 17⟩ ⟨.equals, "=", ⟨1, 17⟩⟩
    let count : Node :=
      .assignment ⟨1, 25⟩ "i" (.binary ⟨1, 32⟩ ⟨.plus, "+", ⟨1, 32⟩⟩ i (.integer ⟨1, 34⟩ 1))
    let first : Node :=
      .conditional ⟨1, 37⟩ (equals i (.integer ⟨1, 44⟩ 1)) ⟨[.integer ⟨1, 48⟩ 7], ⟨1, 46⟩⟩ none
    (evaluateAt 8 6 (.loop ⟨1, 1⟩ (.not ⟨1, 10⟩ (equals i (.integer ⟨1, 19⟩ 2)))
        ⟨[count, first], ⟨1, 22⟩⟩)).run { env := .ofList [("i", some (.integer 0))] } =
      .ok none { env := .ofList [("i", some (.integer 2))] }) ∧
    (let condition : Node := .identifier ⟨1, 10⟩ "x"
    let body : Block Node :=
      ⟨[.assignment ⟨1, 14⟩ "x" (.integer ⟨1, 19⟩ 3), .integer ⟨1, 22⟩ 7], ⟨1, 12⟩⟩
    ∃ n < 4, StopsAfter (evaluateAt 4 2 condition) (runBlock (evaluateAt 4 2) body) ⟨1, 10⟩ none n
      { env := .ofList [("x", some (.boolean true))] } none
      { env := .ofList [("x", some (.integer 3))],
        diagnostics := [⟨.meaning (.conditionNotBoolean .integer), ⟨1, 10⟩⟩] }) := by
  constructor
  · intro i equals count first
    refine (loop_is_iteration 3 4 _ _ _ _).1 2 _ _ ⟨_, _, _, _, rfl, ?_, rfl, rfl⟩ 8 5
      (by decide) (by decide) (by decide)
    exact List.forall_mem_cons.2 ⟨rfl, List.forall_mem_cons.2 ⟨rfl, List.forall_mem_nil _⟩⟩
  · intro condition body
    have hrun : (evaluateAt 4 3 (.loop ⟨1, 1⟩ condition body)).run
        { env := .ofList [("x", some (.boolean true))] } =
      .ok none
        { env := .ofList [("x", some (.integer 3))],
          diagnostics := [⟨.meaning (.conditionNotBoolean .integer), ⟨1, 10⟩⟩] } := rfl
    obtain ⟨n, hn, hstops, -⟩ := (loop_is_iteration 4 2 ⟨1, 1⟩ condition body _).2 _ _ hrun
    exact ⟨n, hn, hstops⟩

end Castellano
