import Castellano.Proofs.Scan

/-!
# What a successful rule has read

For each rule of the grammar, all the ways in which it can succeed: which tokens it saw, which steps
for the constructs inside it ran, and where it ended. Proofs about parsed trees take a successful
run apart by these equivalences and never unfold a rule.

* `PrimaryRead`, `ExtendRead`, `AlternativeRead`, `FormRead`, `BlockRead`: the ways, rule by rule.
* `primary_eq_ok`, `extend_eq_ok`, `expression_eq_ok`, `alternative_eq_ok`, `form_eq_ok`,
  `block_eq_ok`: a rule succeeds exactly in these ways.
* `primary_run_open`, `primary_run_minus`, `form_run_expression`, `block_run_braces` and others:
  what a rule goes on to do at a given token, whether or not it succeeds.
* `operatorsFrom_invariant`, `manyTillFrom_invariant`: what one round of a loop keeps, the loop
  keeps.
-/

namespace Castellano

/-! ## Single steps -/

namespace Attempt

theorem bind_eq_ok {ε σ α β : Type} {x : Attempt ε σ α} {f : α → Attempt ε σ β} {s s' : σ} {b : β} :
    (x >>= f).run s = .ok b s' ↔ ∃ a s₁, x.run s = .ok a s₁ ∧ (f a).run s₁ = .ok b s' := by
  rw [run_bind]
  cases x.run s with
  | ok a s₁ =>
    constructor
    · intro h
      exact ⟨a, s₁, rfl, h⟩
    · rintro ⟨a', s₁', heq, h⟩
      cases heq
      exact h
  | error e s₁ => simp

/-- A step that is sure to succeed has the one outcome it has. -/
@[simp]
theorem exists_ok_eq {ε σ α : Type} {a : α} {s : σ} {P : α → σ → Prop} :
    (∃ b s₁, (Result.ok a s : Result ε σ α) = .ok b s₁ ∧ P b s₁) ↔ P a s := by
  constructor
  · rintro ⟨b, s₁, heq, h⟩
    cases heq
    exact h
  · intro h
    exact ⟨a, s, rfl, h⟩

@[simp]
theorem run_ite {ε σ α : Type} {c : Prop} [Decidable c] (x y : Attempt ε σ α) (s : σ) :
    (if c then x else y).run s = if c then x.run s else y.run s := by
  split <;> rfl

theorem pure_eq_ok {ε σ α : Type} {a b : α} {s s' : σ} :
    (pure a : Attempt ε σ α).run s = .ok b s' ↔ b = a ∧ s' = s := by
  rw [run_pure]
  simp [eq_comm]

end Attempt

/-- The stream behind a point, if one is in front. -/
def TokenStream.pastPoint (s : TokenStream) : TokenStream :=
  if s.current.kind = .point then s.advance else s

namespace TokenStream

theorem current_advance (s : TokenStream) : s.advance.current = s.peek := by
  obtain ⟨upcoming, last⟩ := s
  match upcoming with
  | [] => rfl
  | [a] => rfl
  | a :: b :: rest => rfl

@[simp]
theorem current_mk_cons (t : Token) (ts : List Token) (last : Token) :
    (TokenStream.mk (t :: ts) last).current = t := rfl

@[simp]
theorem advance_mk_cons (t : Token) (ts : List Token) (last : Token) :
    (TokenStream.mk (t :: ts) last).advance = ⟨ts, last⟩ := rfl

@[simp]
theorem peek_mk_cons (t : Token) (ts : List Token) (last : Token) :
    (TokenStream.mk (t :: ts) last).peek = (TokenStream.mk ts last).current := by
  rw [← current_advance, advance_mk_cons]

@[simp]
theorem remaining_mk (ts : List Token) (last : Token) :
    (TokenStream.mk ts last).remaining = ts.length := rfl

theorem precedence_mk_cons (t : Token) (ts : List Token) (last : Token) :
    (TokenStream.mk (t :: ts) last).precedence = .ofKind t.kind := rfl

theorem skipPoints_eq_self {s : TokenStream} (h : s.current.kind ≠ .point) : s.skipPoints = s := by
  obtain ⟨upcoming, last⟩ := s
  cases upcoming with
  | nil => rfl
  | cons t ts =>
    rw [current_mk_cons] at h
    simp [skipPoints, h]

theorem pastPoint_eq_self {s : TokenStream} (h : s.current.kind ≠ .point) : s.pastPoint = s :=
  if_neg h

/-- The tokens of a stream, and in place of its end another stream. -/
instance : Append TokenStream := ⟨fun s x => ⟨s.upcoming ++ x.upcoming, x.last⟩⟩

section Append

variable {s : TokenStream}

theorem current_append (h : s.upcoming ≠ []) (x : TokenStream) : (s ++ x).current = s.current := by
  obtain ⟨t, ts, hs⟩ := List.exists_cons_of_ne_nil h
  show (s.upcoming ++ x.upcoming).headD x.last = s.upcoming.headD s.last
  rw [hs]
  rfl

theorem advance_append (h : s.upcoming ≠ []) (x : TokenStream) :
    (s ++ x).advance = s.advance ++ x :=
  congrArg (TokenStream.mk · x.last) (List.tail_append_of_ne_nil h)

theorem skipPoints_append (h : s.skipPoints.upcoming ≠ []) (x : TokenStream) :
    (s ++ x).skipPoints = s.skipPoints ++ x := by
  have hnot : (s.upcoming.dropWhile fun t => t.kind = .point).isEmpty = false := by
    simpa [skipPoints] using h
  refine congrArg (TokenStream.mk · x.last) ?_
  show (s.upcoming ++ x.upcoming).dropWhile _ = s.upcoming.dropWhile _ ++ x.upcoming
  rw [List.dropWhile_append, hnot]
  rfl

theorem remaining_append (s x : TokenStream) : (s ++ x).remaining = s.remaining + x.remaining :=
  List.length_append

theorem precedence_append (h : s.upcoming ≠ []) (x : TokenStream) :
    (s ++ x).precedence = s.precedence := by
  rw [precedence, current_append h, precedence]

theorem peek_append (h : 2 ≤ s.remaining) (x : TokenStream) : (s ++ x).peek = s.peek := by
  have hlt : 1 < s.upcoming.length := h
  show (s.upcoming ++ x.upcoming)[1]?.getD x.last = s.upcoming[1]?.getD s.last
  rw [List.getElem?_append_left hlt, List.getElem?_eq_getElem hlt]
  rfl

end Append

end TokenStream

namespace Parse

variable {α : Type} {s s' : TokenStream}

@[simp]
theorem run_current (s : TokenStream) : current.run s = .ok s.current s := rfl

@[simp]
theorem run_advance (s : TokenStream) : advance.run s = .ok () s.advance := rfl

@[simp]
theorem run_skipPoints (s : TokenStream) : skipPoints.run s = .ok () s.skipPoints := rfl

@[simp]
theorem run_failAt (fault : GrammarFault) (t : Token) (s : TokenStream) :
    (failAt fault t : Parse TokenStream α).run s = .error (.error ⟨fault, t⟩) s := rfl

@[simp]
theorem run_fail (fault : GrammarFault) (s : TokenStream) :
    (fail fault : Parse TokenStream α).run s = .error (.error ⟨fault, s.current⟩) s := rfl

theorem run_accept (kind : TokenKind) (s : TokenStream) :
    (accept kind).run s = if s.current.kind = kind then .ok true s.advance else .ok false s := by
  simp [accept]

theorem run_accept_point (s : TokenStream) : ∃ b, (accept .point).run s = .ok b s.pastPoint := by
  rw [run_accept, TokenStream.pastPoint]
  split <;> exact ⟨_, rfl⟩

theorem run_expect (kind : TokenKind) (fault : GrammarFault) (s : TokenStream) :
    (expect kind fault).run s =
      if s.current.kind = kind then .ok s.current s.advance
      else .error (.error ⟨fault, s.current⟩) s := by
  simp [expect]

theorem expect_eq_ok {kind : TokenKind} {fault : GrammarFault} {t : Token} :
    (expect kind fault).run s = .ok t s' ↔
      s.current.kind = kind ∧ t = s.current ∧ s' = s.advance := by
  rw [run_expect]
  split
  · rename_i h
    simp [h, eq_comm]
  · rename_i h
    simp [h]

theorem manyTillFrom_stop {stop : TokenKind → Bool} {step : Parse TokenStream α}
    (h : stop s.current.kind) : manyTillFrom stop step s = .ok [] s := by
  rw [manyTillFrom, TokenStream.view_current, if_pos h]

/-- What one round of a repetition keeps, the repetition keeps. -/
theorem manyTillFrom_invariant {stop : TokenKind → Bool} {step : Parse TokenStream α}
    {P : List α → TokenStream → Prop}
    (hstep : ∀ done s a s₁, P done s → step.run s = .ok a s₁ → P (done ++ [a]) s₁)
    {as : List α} (h : P [] s) (hrun : manyTillFrom stop step s = .ok as s') : P as s' := by
  have hdone : ∀ done, P done s → P (done ++ as) s' := by
    clear h
    fun_induction manyTillFrom stop step s generalizing as s' with
    | case1 s hstop =>
      intro done h
      cases hrun
      simpa using h
    | case2 s hstop e s₁ hx => cases hrun
    | case3 s hstop a s₁ hx hlt e s₂ hrest ih => cases hrun
    | case4 s hstop a s₁ hx hlt as s₂ hrest ih =>
      intro done h
      cases hrun
      simpa using ih hrest _ (hstep _ _ _ _ h hx)
    | case5 s hstop a s₁ hx hlt =>
      intro done h
      cases hrun
      exact hstep _ _ _ _ h hx
  simpa using hdone [] h

end Parse

namespace Grammar

open Parse

variable {sub : Nested TokenStream} {s s' : TokenStream}

/-! ## Expressions -/

/-- How a primary expression is read, from a stream without leading points. -/
inductive PrimaryRead (sub : Nested TokenStream) (s : TokenStream) : Node → TokenStream → Prop
  | integer (h : s.current.kind = .integer) :
    PrimaryRead sub s (.integer s.current.position (Word64.ofDecimal s.current.literal)) s.advance
  | identifier (h : s.current.kind = .identifier) :
    PrimaryRead sub s (.identifier s.current.position s.current.literal) s.advance
  | verdadero (h : s.current.kind = .verdadero) :
    PrimaryRead sub s (.boolean s.current.position true) s.advance
  | falso (h : s.current.kind = .falso) :
    PrimaryRead sub s (.boolean s.current.position false) s.advance
  | parenthesised {inner : Node} {s₁ : TokenStream} (h : s.current.kind = .openParen)
    (hinner : (sub.expression .lowest).run s.advance = .ok inner s₁)
    (hclose : s₁.current.kind = .closeParen) : PrimaryRead sub s inner s₁.advance
  | minus {operand : Node} {s' : TokenStream} (h : s.current.kind = .minus)
    (hnext : s.advance.current.kind ≠ .minus)
    (hoperand : (sub.expression .lowest).run s.advance = .ok operand s') :
    PrimaryRead sub s (.minus s.current.position operand) s'
  | not {operand : Node} {s' : TokenStream} (h : s.current.kind = .no)
    (hnext : s.advance.current.kind ≠ .no)
    (hoperand : (sub.expression .call).run s.advance = .ok operand s') :
    PrimaryRead sub s (.not s.current.position operand) s'
  | function {parameters : List Parameter} {body : Block Node} {s₁ s' : TokenStream}
    (h : s.current.kind = .funcion) (hopen : s.advance.current.kind = .openParen)
    (hparameters : manyTillFrom closesList (parameter sub) s.advance.advance = .ok parameters s₁)
    (hclose : s₁.current.kind = .closeParen) (hbody : sub.block.run s₁.advance = .ok body s') :
    PrimaryRead sub s (.function s.current.position parameters body) s'

theorem function_eq_ok {node : Node} :
    (function sub).run s = .ok node s' ↔ ∃ parameters body s₁,
      s.advance.current.kind = .openParen ∧
      manyTillFrom closesList (parameter sub) s.advance.advance = .ok parameters s₁ ∧
      s₁.current.kind = .closeParen ∧ sub.block.run s₁.advance = .ok body s' ∧
      node = .function s.current.position parameters body := by
  simp only [function, Attempt.bind_eq_ok, Attempt.pure_eq_ok, run_current, run_advance,
    Attempt.exists_ok_eq, expect_eq_ok, manyTill]
  constructor
  · rintro ⟨_, _, ⟨hopen, rfl, rfl⟩, parameters, s₁, hparameters, _, _, ⟨hclose, rfl, rfl⟩,
      body, s₂, hbody, rfl, rfl⟩
    exact ⟨parameters, body, s₁, hopen, hparameters, hclose, hbody, rfl⟩
  · rintro ⟨parameters, body, s₁, hopen, hparameters, hclose, hbody, rfl⟩
    exact ⟨_, _, ⟨hopen, rfl, rfl⟩, parameters, s₁, hparameters, _, _, ⟨hclose, rfl, rfl⟩,
      body, s', hbody, rfl, rfl⟩

theorem primary_eq_ok {node : Node} :
    (primary sub).run s = .ok node s' ↔ PrimaryRead sub s.skipPoints node s' := by
  simp only [primary, Attempt.bind_eq_ok, run_skipPoints, Attempt.exists_ok_eq, run_current]
  generalize s.skipPoints = s
  constructor
  · intro h
    split at h
    · cases h
      exact .integer ‹_›
    · cases h
      exact .identifier ‹_›
    · cases h
      exact .verdadero ‹_›
    · cases h
      exact .falso ‹_›
    · simp only [Attempt.bind_eq_ok, run_advance, Attempt.exists_ok_eq, expect_eq_ok,
        Attempt.pure_eq_ok] at h
      obtain ⟨inner, s₁, hinner, _, _, ⟨hclose, rfl, rfl⟩, rfl, rfl⟩ := h
      exact .parenthesised ‹_› hinner hclose
    · simp only [Attempt.bind_eq_ok, run_advance, Attempt.exists_ok_eq, run_current,
        Attempt.run_ite, run_fail] at h
      split at h
      · cases h
      · rename_i hnext
        simp only [Attempt.bind_eq_ok, Attempt.pure_eq_ok] at h
        obtain ⟨operand, s₁, hoperand, rfl, rfl⟩ := h
        exact .minus ‹_› hnext hoperand
    · simp only [Attempt.bind_eq_ok, run_advance, Attempt.exists_ok_eq, run_current,
        Attempt.run_ite, run_fail] at h
      split at h
      · cases h
      · rename_i hnext
        simp only [Attempt.bind_eq_ok, Attempt.pure_eq_ok] at h
        obtain ⟨operand, s₁, hoperand, rfl, rfl⟩ := h
        exact .not ‹_› hnext hoperand
    · obtain ⟨parameters, body, s₁, hopen, hparameters, hclose, hbody, rfl⟩ := function_eq_ok.1 h
      exact .function ‹_› hopen hparameters hclose hbody
    · cases h
    · cases h
  · intro h
    cases h with
    | integer h => simp [h]
    | identifier h => simp [h]
    | verdadero h => simp [h]
    | falso h => simp [h]
    | parenthesised h hinner hclose => simp [h, hinner, run_expect, hclose]
    | minus h hnext hoperand => simp [h, hnext, hoperand]
    | not h hnext hoperand => simp [h, hnext, hoperand]
    | function h hopen hparameters hclose hbody =>
      simp only [h]
      exact function_eq_ok.2 ⟨_, _, _, hopen, hparameters, hclose, hbody, rfl⟩

theorem parameter_eq_ok {p : Parameter} :
    (parameter sub).run s = .ok p s' ↔
      (sub.expression .lowest).run s = .ok (.identifier p.position p.name) s' := by
  simp only [parameter, Attempt.bind_eq_ok, run_current, Attempt.exists_ok_eq]
  constructor
  · rintro ⟨node, s₁, hnode, h⟩
    split at h
    · cases h
      exact hnode
    · cases h
  · intro h
    exact ⟨_, _, h, rfl⟩

/-- How an expression is extended by one operator or by one list of arguments. -/
inductive ExtendRead (sub : Nested TokenStream) (s : TokenStream) : Node → Node → TokenStream → Prop
  | binary {left right : Node} {s' : TokenStream} (h : s.current.kind ≠ .openParen)
    (hright : (sub.expression (.ofKind s.current.kind)).run s.advance = .ok right s') :
    ExtendRead sub s left (.binary s.current.position s.current left right) s'
  | call {p : Position} {name : String} {arguments : List Node} {s₁ : TokenStream}
    (h : s.current.kind = .openParen)
    (harguments : manyTillFrom closesList (sub.expression .lowest) s.advance = .ok arguments s₁)
    (hclose : s₁.current.kind = .closeParen) :
    ExtendRead sub s (.identifier p name) (.call p name arguments) s₁.advance

theorem extend_eq_ok {left node : Node} :
    (extend sub left).run s = .ok node s' ↔ ExtendRead sub s left node s' := by
  simp only [extend, Attempt.bind_eq_ok, run_current, Attempt.exists_ok_eq, Attempt.run_ite]
  constructor
  · intro h
    split at h
    · rename_i hopen
      unfold call at h
      split at h
      · simp only [Attempt.bind_eq_ok, run_advance, Attempt.exists_ok_eq, expect_eq_ok,
          Attempt.pure_eq_ok, manyTill] at h
        obtain ⟨arguments, s₁, harguments, _, _, ⟨hclose, rfl, rfl⟩, rfl, rfl⟩ := h
        exact .call hopen harguments hclose
      · cases h
    · rename_i hopen
      simp only [binary, Attempt.bind_eq_ok, run_current, run_advance, Attempt.exists_ok_eq,
        Attempt.pure_eq_ok] at h
      obtain ⟨right, s₁, hright, rfl, rfl⟩ := h
      exact .binary hopen hright
  · intro h
    cases h with
    | binary h hright => simp [h, binary, hright]
    | call h harguments hclose => simp [h, call, manyTill, harguments, run_expect, hclose]

/-- What one extension keeps, all of them keep. -/
theorem operatorsFrom_invariant {level : Precedence} {P : Node → TokenStream → Prop}
    (hstep : ∀ left s node s₁, P left s → level < s.precedence → ExtendRead sub s left node s₁ →
      P node s₁)
    {left node : Node} (h : P left s) (hrun : operatorsFrom sub level left s = .ok node s') :
    P node s' := by
  fun_induction operatorsFrom sub level left s with
  | case1 left s hlevel e s₁ hx => cases hrun
  | case2 left s hlevel extended s₁ hx hlt ih =>
    exact ih (hstep _ _ _ _ h hlevel (extend_eq_ok.1 hx)) hrun
  | case3 left s hlevel extended s₁ hx hlt =>
    cases hrun
    exact hstep _ _ _ _ h hlevel (extend_eq_ok.1 hx)
  | case4 left s hlevel =>
    cases hrun
    exact h

theorem expression_eq_ok {level : Precedence} {node : Node} :
    (expression sub level).run s = .ok node s' ↔ ∃ first s₁ s₂,
      PrimaryRead sub s.skipPoints first s₁ ∧ operatorsFrom sub level first s₁ = .ok node s₂ ∧
      s' = s₂.pastPoint := by
  simp only [expression, Attempt.bind_eq_ok, primary_eq_ok, operators, Attempt.pure_eq_ok]
  constructor
  · rintro ⟨first, s₁, hfirst, whole, s₂, hwhole, b, s₃, hpoint, rfl, rfl⟩
    obtain ⟨b', hb'⟩ := run_accept_point s₂
    rw [hb'] at hpoint
    cases hpoint
    exact ⟨first, s₁, s₂, hfirst, hwhole, rfl⟩
  · rintro ⟨first, s₁, s₂, hfirst, hwhole, rfl⟩
    obtain ⟨b, hb⟩ := run_accept_point s₂
    exact ⟨first, s₁, hfirst, node, s₂, hwhole, b, _, hb, rfl, rfl⟩

theorem not_lt_lowest (level : Precedence) : ¬ level < .lowest := Nat.not_lt_zero _

theorem operators_stop {level : Precedence} {left : Node} (h : ¬ level < s.precedence) :
    (operators sub level left).run s = .ok left s := by
  show operatorsFrom sub level left s = _
  rw [operatorsFrom, TokenStream.view_precedence, if_neg h]

theorem primary_run_open (h : s.current.kind = .openParen) :
    (primary sub).run s = (do
      let inner ← sub.expression .lowest
      let _ ← expect .closeParen .unclosedParenthesis
      return inner : Parse TokenStream Node).run s.advance := by
  simp [primary, TokenStream.skipPoints_eq_self (s := s) (by simp [h]), h]

theorem primary_run_minus (h : s.current.kind = .minus) (hnext : s.advance.current.kind ≠ .minus) :
    (primary sub).run s = (do
      return .minus s.current.position (← sub.expression .lowest) :
        Parse TokenStream Node).run s.advance := by
  simp [primary, TokenStream.skipPoints_eq_self (s := s) (by simp [h]), h, hnext]

theorem primary_run_no (h : s.current.kind = .no) (hnext : s.advance.current.kind ≠ .no) :
    (primary sub).run s = (do
      return .not s.current.position (← sub.expression .call) :
        Parse TokenStream Node).run s.advance := by
  simp [primary, TokenStream.skipPoints_eq_self (s := s) (by simp [h]), h, hnext]

theorem primary_run_funcion (h : s.current.kind = .funcion) :
    (primary sub).run s = (function sub).run s := by
  simp [primary, TokenStream.skipPoints_eq_self (s := s) (by simp [h]), h]

/-! ## Forms -/

/-- How the part of a conditional behind its first block is read. -/
inductive AlternativeRead (sub : Nested TokenStream) (s : TokenStream) :
    Option (Block Node) → TokenStream → Prop
  | sino {b : Block Node} {s' : TokenStream} (h : s.current.kind = .sino)
    (hblock : sub.block.run s.advance = .ok b s') : AlternativeRead sub s (some b) s'
  | otherwise {b : Block Node} {s' : TokenStream} (h : startsOtherwise s)
    (hblock : sub.block.run s.advance.advance.advance = .ok b s') :
    AlternativeRead sub s (some b) s'
  | none (h : s.current.kind ≠ .sino) (hother : ¬ startsOtherwise s) :
    AlternativeRead sub s none s

theorem not_sino_of_startsOtherwise (h : startsOtherwise s) : s.current.kind ≠ .sino := by
  intro hsino
  simp [startsOtherwise, hsino] at h

theorem alternative_eq_ok {other : Option (Block Node)} :
    (alternative sub).run s = .ok other s' ↔ AlternativeRead sub s other s' := by
  simp only [alternative, Attempt.bind_eq_ok, run_accept]
  constructor
  · rintro ⟨found, s₁, hfound, h⟩
    split at hfound
    · rename_i hsino
      cases hfound
      simp only [if_true, Attempt.bind_eq_ok, Attempt.pure_eq_ok] at h
      obtain ⟨b, s₂, hblock, rfl, rfl⟩ := h
      exact .sino hsino hblock
    · rename_i hsino
      cases hfound
      simp only [Bool.false_eq_true, if_false, Attempt.bind_eq_ok, Attempt.run_state,
        Attempt.exists_ok_eq, Attempt.run_ite] at h
      split at h
      · rename_i hother
        simp only [Attempt.bind_eq_ok, run_advance, Attempt.exists_ok_eq,
          Attempt.pure_eq_ok] at h
        obtain ⟨b, s₂, hblock, rfl, rfl⟩ := h
        exact .otherwise hother hblock
      · rename_i hother
        cases h
        exact .none hsino hother
  · intro h
    cases h with
    | sino h hblock => exact ⟨true, s.advance, by simp [h], by simp [hblock]⟩
    | otherwise h hblock =>
      exact ⟨false, s, by simp [not_sino_of_startsOtherwise h], by simp [h, hblock]⟩
    | none h hother => exact ⟨false, s, by simp [h], by simp [hother]⟩

/-- How a form is read, from a stream without leading points. -/
inductive FormRead (sub : Nested TokenStream) (s : TokenStream) : Node → TokenStream → Prop
  | assignment {value : Node} {s' : TokenStream} (h : s.current.kind = .identifier)
    (hassign : s.peek.kind = .assign)
    (hvalue : (sub.expression .lowest).run s.advance.advance = .ok value s') :
    FormRead sub s (.assignment s.current.position s.current.literal value) s'
  | conditional {condition : Node} {consequence : Block Node} {other : Option (Block Node)}
    {s₁ s₂ s' : TokenStream} (h : s.current.kind = .si)
    (hcondition : (sub.expression .lowest).run s.advance = .ok condition s₁)
    (hconsequence : sub.block.run s₁ = .ok consequence s₂)
    (hother : AlternativeRead sub s₂ other s') :
    FormRead sub s (.conditional s.current.position condition consequence other) s'
  | loop {condition : Node} {body : Block Node} {s₁ s' : TokenStream}
    (h : s.current.kind = .mientras)
    (hcondition : (sub.expression .lowest).run s.advance = .ok condition s₁)
    (hbody : sub.block.run s₁ = .ok body s') :
    FormRead sub s (.loop s.current.position condition body) s'
  | expression {node : Node} {s' : TokenStream}
    (hassign : ¬ (s.current.kind = .identifier ∧ s.peek.kind = .assign))
    (hsi : s.current.kind ≠ .si) (hmientras : s.current.kind ≠ .mientras)
    (hnode : (sub.expression .lowest).run s = .ok node s') : FormRead sub s node s'

theorem conditional_eq_ok {node : Node} :
    (conditional sub).run s = .ok node s' ↔ ∃ condition consequence other s₁ s₂,
      (sub.expression .lowest).run s.advance = .ok condition s₁ ∧
      sub.block.run s₁ = .ok consequence s₂ ∧ AlternativeRead sub s₂ other s' ∧
      node = .conditional s.current.position condition consequence other := by
  simp only [conditional, Attempt.bind_eq_ok, run_current, run_advance, Attempt.exists_ok_eq,
    alternative_eq_ok, Attempt.pure_eq_ok]
  constructor
  · rintro ⟨condition, s₁, hcondition, consequence, s₂, hconsequence, other, _, hother, rfl, rfl⟩
    exact ⟨condition, consequence, other, s₁, s₂, hcondition, hconsequence, hother, rfl⟩
  · rintro ⟨condition, consequence, other, s₁, s₂, hcondition, hconsequence, hother, rfl⟩
    exact ⟨condition, s₁, hcondition, consequence, s₂, hconsequence, other, _, hother, rfl, rfl⟩

theorem loop_eq_ok {node : Node} :
    (loop sub).run s = .ok node s' ↔ ∃ condition body s₁,
      (sub.expression .lowest).run s.advance = .ok condition s₁ ∧ sub.block.run s₁ = .ok body s' ∧
      node = .loop s.current.position condition body := by
  simp only [loop, Attempt.bind_eq_ok, run_current, run_advance, Attempt.exists_ok_eq,
    Attempt.pure_eq_ok]
  constructor
  · rintro ⟨condition, s₁, hcondition, body, _, hbody, rfl, rfl⟩
    exact ⟨condition, body, s₁, hcondition, hbody, rfl⟩
  · rintro ⟨condition, body, s₁, hcondition, hbody, rfl⟩
    exact ⟨condition, s₁, hcondition, body, _, hbody, rfl, rfl⟩

theorem form_eq_ok {node : Node} :
    (form sub).run s = .ok node s' ↔ FormRead sub s.skipPoints node s' := by
  simp only [form, Attempt.bind_eq_ok, run_skipPoints, Attempt.exists_ok_eq, Attempt.run_state,
    Attempt.run_ite, Bool.and_eq_true, decide_eq_true_eq]
  generalize s.skipPoints = s
  constructor
  · intro h
    split at h
    · rename_i hassign
      simp only [assignment, Attempt.bind_eq_ok, run_current, run_advance, Attempt.exists_ok_eq,
        Attempt.pure_eq_ok] at h
      obtain ⟨value, _, hvalue, rfl, rfl⟩ := h
      exact .assignment hassign.1 hassign.2 hvalue
    · rename_i hassign
      split at h
      · obtain ⟨condition, consequence, other, s₁, s₂, hcondition, hconsequence, hother, rfl⟩ :=
          conditional_eq_ok.1 h
        exact .conditional ‹_› hcondition hconsequence hother
      · split at h
        · obtain ⟨condition, body, s₁, hcondition, hbody, rfl⟩ := loop_eq_ok.1 h
          exact .loop ‹_› hcondition hbody
        · exact .expression hassign ‹_› ‹_› h
  · intro h
    cases h with
    | assignment h hassign hvalue => simp [h, hassign, assignment, hvalue]
    | conditional h hcondition hconsequence hother =>
      simp only [TokenStream.view_current, h, reduceCtorEq, false_and, if_false, if_true]
      exact conditional_eq_ok.2 ⟨_, _, _, _, _, hcondition, hconsequence, hother, rfl⟩
    | loop h hcondition hbody =>
      simp only [TokenStream.view_current, h, reduceCtorEq, false_and, if_false, if_true]
      exact loop_eq_ok.2 ⟨_, _, _, hcondition, hbody, rfl⟩
    | expression hassign hsi hmientras hnode => simp [hassign, hsi, hmientras, hnode]

theorem form_run (s : TokenStream) :
    (form sub).run s =
      if s.skipPoints.current.kind = .identifier ∧ s.skipPoints.peek.kind = .assign then
        (assignment sub).run s.skipPoints
      else if s.skipPoints.current.kind = .si then (conditional sub).run s.skipPoints
      else if s.skipPoints.current.kind = .mientras then (loop sub).run s.skipPoints
      else (sub.expression .lowest).run s.skipPoints := by
  simp [form]

theorem form_run_expression (hpoint : s.current.kind ≠ .point)
    (hassign : s.current.kind = .identifier → s.peek.kind ≠ .assign)
    (hsi : s.current.kind ≠ .si) (hmientras : s.current.kind ≠ .mientras) :
    (form sub).run s = (sub.expression .lowest).run s := by
  have hassign' : ¬ (s.current.kind = .identifier ∧ s.peek.kind = .assign) :=
    fun h => hassign h.1 h.2
  simp [form, TokenStream.skipPoints_eq_self hpoint, hassign', hsi, hmientras]

/-- A form of a block in braces, with the points behind it. -/
def blockForm (sub : Nested TokenStream) : Parse TokenStream Node := do
  let f ← form sub
  skipPoints
  return f

theorem blockForm_eq_ok {node : Node} :
    (blockForm sub).run s = .ok node s' ↔
      ∃ s₁, FormRead sub s.skipPoints node s₁ ∧ s' = s₁.skipPoints := by
  simp only [blockForm, Attempt.bind_eq_ok, form_eq_ok, run_skipPoints, Attempt.exists_ok_eq,
    Attempt.pure_eq_ok]
  constructor
  · rintro ⟨_, s₁, h, rfl, rfl⟩
    exact ⟨s₁, h, rfl⟩
  · rintro ⟨s₁, h, rfl⟩
    exact ⟨node, s₁, h, rfl, rfl⟩

/-- How a block is read. -/
inductive BlockRead (sub : Nested TokenStream) (s : TokenStream) : Block Node → TokenStream → Prop
  | braces {forms : List Node} {s₁ : TokenStream} (h : s.current.kind = .openBrace)
    (hforms : manyTillFrom closesBlock (blockForm sub) s.advance.skipPoints = .ok forms s₁)
    (hclose : s₁.current.kind = .closeBrace) :
    BlockRead sub s ⟨forms, s.current.position⟩ s₁.advance
  | bare {f : Node} {s' : TokenStream} (h : s.current.kind ≠ .openBrace)
    (hform : FormRead sub s.skipPoints f s') : BlockRead sub s ⟨[f], s.current.position⟩ s'

theorem block_eq_ok {b : Block Node} :
    (block sub).run s = .ok b s' ↔ BlockRead sub s b s' := by
  have hblock : block sub = do
      let start ← current
      if ← accept .openBrace then
        skipPoints
        let forms ← manyTill closesBlock (blockForm sub)
        let _ ← expect .closeBrace .unclosedBlock
        return ⟨forms, start.position⟩
      else return ⟨[← form sub], start.position⟩ := rfl
  simp only [hblock, Attempt.bind_eq_ok, run_current, Attempt.exists_ok_eq, run_accept]
  constructor
  · rintro ⟨found, s₁, hfound, h⟩
    split at hfound
    · rename_i hopen
      cases hfound
      simp only [if_true, Attempt.bind_eq_ok, run_skipPoints, Attempt.exists_ok_eq, manyTill,
        expect_eq_ok, Attempt.pure_eq_ok] at h
      obtain ⟨forms, s₂, hforms, _, _, ⟨hclose, rfl, rfl⟩, rfl, rfl⟩ := h
      exact .braces hopen hforms hclose
    · rename_i hopen
      cases hfound
      simp only [Bool.false_eq_true, if_false, Attempt.bind_eq_ok, form_eq_ok,
        Attempt.pure_eq_ok] at h
      obtain ⟨f, _, hform, rfl, rfl⟩ := h
      exact .bare hopen hform
  · intro h
    cases h with
    | braces h hforms hclose =>
      exact ⟨true, s.advance, by simp [h], by simp [manyTill, hforms, run_expect, hclose]⟩
    | bare h hform =>
      exact ⟨false, s, by simp [h], by simp [form_eq_ok.2 hform]⟩

theorem block_run_braces (h : s.current.kind = .openBrace) :
    (block sub).run s = (do
      let forms ← manyTill closesBlock (blockForm sub)
      let _ ← expect .closeBrace .unclosedBlock
      return ⟨forms, s.current.position⟩ :
        Parse TokenStream (Block Node)).run s.advance.skipPoints := by
  simp [block, run_accept, h, blockForm]

end Grammar

/-- What comes next does not continue a form. -/
structure TokenStream.Quiet (s : TokenStream) : Prop where
  point : s.current.kind ≠ .point
  sino : s.current.kind ≠ .sino
  otherwise : ¬ Grammar.startsOtherwise s

end Castellano
