import Castellano.Proofs.Congruence

/-!
# A larger depth limit changes nothing but the reports of too deep nesting

A rule that works under a limit either reaches it, and then says so, or does exactly what it does
under every larger limit.

* `Parse.Refines`: a step agrees with another wherever it does not fail as too deep; closed under
  sequencing and repetition.
* `Grammar.nested_refines`: expressions and blocks under a limit refine those under a larger one.
* `parseSource_eq_of_le`: a source that is not reported as too deep parses alike under all larger
  limits.
-/

namespace Castellano

/-! ## Steps under two limits -/

namespace Parse

variable {σ α β : Type}

/-- Wherever `x` does not find the tokens nested too deeply, it does what `y` does. -/
def Refines (x y : Parse σ α) : Prop :=
  ∀ s, (∃ s', x.run s = .error .tooDeep s') ∨ x.run s = y.run s

namespace Refines

theorem refl (x : Parse σ α) : Refines x x := fun _ => .inr rfl

theorem bind {x y : Parse σ α} {f g : α → Parse σ β} (hx : Refines x y)
    (hf : ∀ a, Refines (f a) (g a)) :
    Refines (x >>= f) (y >>= g) := by
  intro s
  rw [Attempt.run_bind, Attempt.run_bind]
  obtain ⟨s', h⟩ | h := hx s
  · rw [h]
    exact .inl ⟨s', rfl⟩
  · rw [← h]
    cases x.run s with
    | ok a s' => exact hf a s'
    | error e s' => exact .inr rfl

theorem run_ok {x y : Parse σ α} (h : Refines x y) {s s' : σ} {a : α}
    (hx : x.run s = .ok a s') : y.run s = .ok a s' := by
  obtain ⟨s₁, hs₁⟩ | heq := h s
  · rw [hx] at hs₁
    cases hs₁
  · rw [← heq, hx]

theorem run_error {x y : Parse σ α} (h : Refines x y) {s s' : σ} {e : Failure}
    (hx : x.run s = .error e s') : e = .tooDeep ∨ y.run s = .error e s' := by
  obtain ⟨s₁, hs₁⟩ | heq := h s
  · rw [hx] at hs₁
    cases hs₁
    exact .inl rfl
  · rw [← heq, hx]
    exact .inr rfl

theorem manyTill [TokenView σ] (stop : TokenKind → Bool) {x y : Parse σ α} (h : Refines x y) :
    Refines (manyTill stop x) (manyTill stop y) := by
  intro s
  show (∃ s', manyTillFrom stop x s = .error .tooDeep s') ∨
    manyTillFrom stop x s = manyTillFrom stop y s
  fun_induction manyTillFrom stop x s with
  | case1 s hstop =>
    rw [manyTillFrom, if_pos hstop]
    exact .inr rfl
  | case2 s hstop e s' hx =>
    obtain rfl | hy := h.run_error hx
    · exact .inl ⟨s', rfl⟩
    · rw [manyTillFrom, if_neg hstop, hy]
      exact .inr rfl
  | case3 s hstop a s' hx hlt e s'' hrest ih =>
    rw [manyTillFrom, if_neg hstop, h.run_ok hx]
    rw [hrest] at ih
    simp only [hlt, if_true]
    obtain ⟨s₁, hs₁⟩ | ih := ih
    · cases hs₁
      exact .inl ⟨s'', rfl⟩
    · rw [← ih]
      exact .inr rfl
  | case4 s hstop a s' hx hlt as s'' hrest ih =>
    rw [manyTillFrom, if_neg hstop, h.run_ok hx]
    rw [hrest] at ih
    simp only [hlt, if_true]
    obtain ⟨s₁, hs₁⟩ | ih := ih
    · cases hs₁
    · rw [← ih]
      exact .inr rfl
  | case5 s hstop a s' hx hlt =>
    rw [manyTillFrom, if_neg hstop, h.run_ok hx]
    simp [hlt]

end Refines

end Parse

/-! ## Rules -/

namespace Grammar

open Parse

variable {σ : Type} [TokenView σ]

theorem operators_refines {sub sup : Nested σ} (level : Precedence)
    (h : ∀ left, Refines (extend sub left) (extend sup left)) (left : Node) :
    Refines (operators sub level left) (operators sup level left) := by
  intro s
  show (∃ s', operatorsFrom sub level left s = .error .tooDeep s') ∨
    operatorsFrom sub level left s = operatorsFrom sup level left s
  fun_induction operatorsFrom sub level left s with
  | case1 left s hlevel e s' hx =>
    obtain rfl | hy := (h left).run_error hx
    · exact .inl ⟨s', rfl⟩
    · rw [operatorsFrom, if_pos hlevel, hy]
      exact .inr rfl
  | case2 left s hlevel extended s' hx hlt ih =>
    rw [operatorsFrom.eq_1 sup level left, if_pos hlevel, (h left).run_ok hx]
    simp only [hlt, if_true]
    exact ih
  | case3 left s hlevel extended s' hx hlt =>
    rw [operatorsFrom, if_pos hlevel, (h left).run_ok hx]
    simp [hlt]
  | case4 left s hlevel =>
    rw [operatorsFrom, if_neg hlevel]
    exact .inr rfl

theorem refines_congruence : Congruence fun α (x y : Parse σ α) => Refines x y where
  pure := fun a => .refl (Pure.pure a)
  bind := .bind
  look := fun h s => h _ _ _ s
  advance := .refl _
  skipPoints := .refl _
  failAt := fun fault t => .refl (failAt fault t)
  manyTill := .manyTill
  operators := operators_refines

/-- Under a limit, expressions and blocks refine those under a larger limit. -/
theorem nested_refines {limit limit' : Nat} (h : limit ≤ limit') :
    (nested limit : Nested σ).Related (fun _ => Refines) (nested limit') := by
  induction limit generalizing limit' with
  | zero => exact ⟨fun _ _ => .inl ⟨_, rfl⟩, fun _ => .inl ⟨_, rfl⟩⟩
  | succ limit ih =>
    obtain ⟨m, rfl⟩ : ∃ m, limit' = m + 1 := ⟨limit' - 1, by omega⟩
    have hsub := ih (by omega : limit ≤ m)
    exact ⟨refines_congruence.expression hsub, refines_congruence.block hsub⟩

/-! ## Programs -/

theorem forms_refines {sub sup : Nested σ} (h : sub.Related (fun _ => Refines) sup) (s : σ) :
    (∃ p, (forms sub s).2.1 = some ⟨.grammar .nestedTooDeeply, p⟩) ∨ forms sub s = forms sup s := by
  have hform := refines_congruence.form h
  fun_induction forms sub s with
  | case1 s start hend =>
    rw [forms, if_pos hend]
    exact .inr rfl
  | case2 s start hend e s' hrun =>
    obtain hdeep | hrun' := hform.run_error hrun
    · cases hdeep
    · rw [forms, if_neg hend, hrun']
      exact .inr rfl
  | case3 s start hend s' hrun => exact .inl ⟨_, rfl⟩
  | case4 s start hend f s' hrun hlt fs diagnostic s'' hrest ih =>
    rw [forms, if_neg hend, hform.run_ok hrun]
    rw [hrest] at ih
    simp only [hlt, if_true]
    obtain hdeep | ih := ih
    · exact .inl hdeep
    · rw [← ih]
      exact .inr rfl
  | case5 s start hend f s' hrun hlt =>
    rw [forms, if_neg hend, hform.run_ok hrun]
    simp [hlt]

end Grammar

/-- The diagnostics report that the depth limit was reached. -/
def DepthReached (diagnostics : List Diagnostic) : Prop :=
  ∃ d ∈ diagnostics, d.fault = .grammar .nestedTooDeeply

instance (diagnostics : List Diagnostic) : Decidable (DepthReached diagnostics) :=
  inferInstanceAs (Decidable (∃ d ∈ diagnostics, d.fault = .grammar .nestedTooDeeply))

/-- A source that does not reach the depth limit parses alike under all larger limits. -/
theorem parseSource_eq_of_le {limits : Limits} (limits' : Limits)
    (h : limits.depth ≤ limits'.depth) {source : String}
    (hdepth : ¬ DepthReached (parseSource limits source).2) :
    parseSource limits source = parseSource limits' source := by
  obtain ⟨p, hp⟩ | heq := Grammar.forms_refines (Grammar.nested_refines h) (Window.ofSource source)
  · refine absurd ⟨⟨.grammar .nestedTooDeeply, p⟩, ?_, rfl⟩ hdepth
    simp [parseSource, Grammar.program, hp]
  · simp only [parseSource, Grammar.program, heq]

end Castellano
