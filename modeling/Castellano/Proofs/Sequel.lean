import Castellano.Proofs.SourceOrder

/-!
# A text with another one behind it

What a rule does at the end of a text when points and another text follow instead. A run that ends
before the end of the text does not see what follows. A run that ends together with the text takes
some of the points: one for each expression that ends there. If there are fewer points than such
expressions, one of them is still open when the other text comes, and it goes on if the other text
starts with a minus or a parenthesis.

* `Sequel`: points and another text.
* `Absorbs`: a run takes a number of the points that follow, and what happens if there are fewer.
* `nested_absorbs`, `form_absorbs`: at every depth, all rules behave like this.
-/

namespace Castellano

/-! ## Streams with more behind them -/

namespace TokenStream

/-- The stream starts as a text can: neither with a point nor with what continues a form, and of the
    operators only with one that can also start an expression. -/
structure Starts (s : TokenStream) : Prop extends s.Quiet where
  operator : s.precedence = .lowest ∨ s.current.kind = .minus ∨ s.current.kind = .openParen

/-- The stream is one of tokens up to the end token `e`. -/
structure EndsAt (e : Token) (s : TokenStream) : Prop where
  ended : s.Ended
  last : s.last = e

/-- The stream with more tokens before its end. -/
def followedBy (s : TokenStream) (ts : List Token) : TokenStream := ⟨s.upcoming ++ ts, s.last⟩

variable {e : Token} {s s' : TokenStream}

theorem EndsAt.advance (h : s.EndsAt e) : s.advance.EndsAt e :=
  ⟨⟨fun t ht => h.ended.upcoming t (List.mem_of_mem_tail ht), h.ended.last⟩, h.last⟩

theorem Reads.endsAt {ns : List Node} (h : s.Reads ns s') (hs : s.EndsAt e) : s'.EndsAt e := by
  refine ⟨h.ended hs.ended, ?_⟩
  obtain ⟨-, -, hlast, -⟩ := h
  rw [hlast, hs.last]

theorem Reads.suffix {ns : List Node} (h : s.Reads ns s') : s'.upcoming <:+ s.upcoming := by
  obtain ⟨read, hread, -⟩ := h
  exact ⟨read, hread.symm⟩

theorem Reads.upcoming_ne_nil {ns : List Node} (h : s.Reads ns s') (hns : ns ≠ []) :
    s.upcoming ≠ [] :=
  List.length_pos_iff.1 (Nat.lt_of_le_of_lt (Nat.zero_le _) (h.remaining_lt hns))

theorem EndsAt.upcoming_ne_nil (h : s.EndsAt e) (hk : s.current.kind ≠ .endOfInput) :
    s.upcoming ≠ [] := by
  obtain ⟨rest, hs, -⟩ := h.ended.exists_cons hk
  simp [hs]

theorem EndsAt.kind_eq (h : s.EndsAt e) (hs : s.upcoming = []) :
    s.current.kind = .endOfInput := by
  rw [current, hs]
  exact h.ended.last

theorem current_followedBy (h : s.upcoming ≠ []) (ts : List Token) :
    (s.followedBy ts).current = s.current :=
  current_append h ⟨ts, s.last⟩

theorem advance_followedBy (h : s.upcoming ≠ []) (ts : List Token) :
    (s.followedBy ts).advance = s.advance.followedBy ts :=
  advance_append h ⟨ts, s.last⟩

theorem remaining_advance_lt (s : TokenStream) (h : s.upcoming ≠ []) :
    s.advance.remaining < s.remaining := by
  have := List.length_pos_iff.2 h
  simp only [advance, remaining, List.length_tail]
  omega

theorem precedence_followedBy (h : s.upcoming ≠ []) (ts : List Token) :
    (s.followedBy ts).precedence = s.precedence :=
  precedence_append h ⟨ts, s.last⟩

theorem remaining_followedBy (s : TokenStream) (ts : List Token) :
    (s.followedBy ts).remaining = s.remaining + ts.length :=
  remaining_append s ⟨ts, s.last⟩

theorem pastPoint_followedBy (h : s.upcoming ≠ []) (ts : List Token) :
    (s.followedBy ts).pastPoint = s.pastPoint.followedBy ts := by
  rw [pastPoint, current_followedBy h, advance_followedBy h, pastPoint]
  split <;> rfl

theorem skipPoints_followedBy (h : s.skipPoints.upcoming ≠ []) (ts : List Token) :
    (s.followedBy ts).skipPoints = s.skipPoints.followedBy ts :=
  skipPoints_append h ⟨ts, s.last⟩

theorem skipPoints_skipPoints (s : TokenStream) : s.skipPoints.skipPoints = s.skipPoints := by
  obtain ⟨upcoming, last⟩ := s
  simp only [skipPoints, mk.injEq, and_true]
  induction upcoming with
  | nil => rfl
  | cons t ts ih => by_cases h : t.kind = .point <;> simp [h, ih]

theorem kind_skipPoints_ne (s : TokenStream) (h : s.skipPoints.upcoming ≠ []) :
    s.skipPoints.current.kind ≠ .point := by
  have hnot := List.head_dropWhile_not (fun t : Token => decide (t.kind = .point)) h
  obtain ⟨t, ts, hs⟩ := List.exists_cons_of_ne_nil h
  simp only [skipPoints] at hs
  simpa [current, skipPoints, hs] using hnot

theorem followedBy_eq (hs : s.upcoming = []) (ts : List Token) :
    s.followedBy ts = ⟨ts, s.last⟩ := by
  rw [followedBy, hs, List.nil_append]

end TokenStream

/-- What follows a text whose end token is `e`: points, and then the tokens of another text. -/
structure Sequel (e : Token) where
  points : List Token
  rest : List Token
  point : ∀ t ∈ points, t.kind = .point
  nonempty : points ≠ []
  starts : (TokenStream.mk rest e).Starts
  ended : (TokenStream.mk rest e).Ended

namespace Sequel

variable {e : Token} (x : Sequel e)

/-- What is left once `k` points have been taken. -/
def after (k : Nat) : List Token := x.points.drop k ++ x.rest

/-- The kind of token that the other text starts with. -/
def head : TokenKind := (TokenStream.mk x.rest e).current.kind

/-- The other text starts with a sign that can also continue an expression. -/
def Glues : Prop := x.head = .minus ∨ x.head = .openParen

theorem after_eq_rest {k : Nat} (h : x.points.length ≤ k) : x.after k = x.rest := by
  rw [after, List.drop_eq_nil_of_le h, List.nil_append]

theorem exists_after_eq_cons {k : Nat} (h : k < x.points.length) :
    ∃ p, p.kind = .point ∧ x.after k = p :: x.after (k + 1) :=
  ⟨x.points[k], x.point _ (List.getElem_mem h), by
    rw [after, List.drop_eq_getElem_cons h, List.cons_append, after]⟩

theorem pastPoint_after (k : Nat) :
    (TokenStream.mk (x.after k) e).pastPoint = ⟨x.after (k + 1), e⟩ := by
  by_cases h : k < x.points.length
  · obtain ⟨p, hp, hafter⟩ := x.exists_after_eq_cons h
    simp [hafter, TokenStream.pastPoint, hp]
  · rw [x.after_eq_rest (by omega), x.after_eq_rest (by omega)]
    exact TokenStream.pastPoint_eq_self x.starts.point

theorem skipPoints_after (k : Nat) :
    (TokenStream.mk (x.after k) e).skipPoints = ⟨x.rest, e⟩ := by
  have hskip : (TokenStream.mk (x.after k) e).skipPoints =
      (TokenStream.mk x.rest e).skipPoints := by
    simp only [TokenStream.skipPoints, after, TokenStream.mk.injEq, and_true]
    refine List.dropWhile_append_of_pos fun t ht => ?_
    simpa using x.point t (List.mem_of_mem_drop ht)
  rw [hskip, TokenStream.skipPoints_eq_self x.starts.point]

theorem kind_after_zero : (TokenStream.mk (x.after 0) e).current.kind = .point := by
  obtain ⟨p, hp, hafter⟩ := x.exists_after_eq_cons (List.length_pos_iff.2 x.nonempty)
  rw [hafter]
  exact hp

/-- An expression ends at a point, and before a text that starts with no sign. -/
theorem not_lt_precedence {k : Nat} (h : k < x.points.length ∨ ¬ x.Glues) (level : Precedence) :
    ¬ level < (TokenStream.mk (x.after k) e).precedence := by
  by_cases hk : k < x.points.length
  · obtain ⟨p, hp, hafter⟩ := x.exists_after_eq_cons hk
    rw [hafter, TokenStream.precedence_mk_cons, hp]
    exact Grammar.not_lt_lowest level
  · rw [x.after_eq_rest (by omega)]
    obtain hlow | hminus | hopen := x.starts.operator
    · rw [hlow]
      exact Grammar.not_lt_lowest level
    · exact absurd (.inl hminus) (h.resolve_left hk)
    · exact absurd (.inr hopen) (h.resolve_left hk)

theorem Glues.lowest_lt {x : Sequel e} (h : x.Glues) :
    Precedence.lowest < Precedence.ofKind x.head := by
  obtain h | h := h <;> rw [h] <;> decide

theorem not_sino (k : Nat) : (TokenStream.mk (x.after k) e).current.kind ≠ .sino := by
  by_cases h : k < x.points.length
  · obtain ⟨p, hp, hafter⟩ := x.exists_after_eq_cons h
    simp [hafter, hp]
  · rw [x.after_eq_rest (by omega)]
    exact x.starts.sino

theorem not_startsOtherwise (k : Nat) :
    ¬ Grammar.startsOtherwise (TokenStream.mk (x.after k) e) := by
  by_cases h : k < x.points.length
  · obtain ⟨p, hp, hafter⟩ := x.exists_after_eq_cons h
    simp [hafter, Grammar.startsOtherwise, hp]
  · rw [x.after_eq_rest (by omega)]
    exact x.starts.otherwise

end Sequel

theorem TokenStream.EndsAt.followedBy {e : Token} {s : TokenStream} (h : s.EndsAt e) (x : Sequel e)
    (k : Nat) : (s.followedBy (x.after k)).EndsAt e := by
  refine ⟨⟨fun t ht => ?_, h.ended.last⟩, h.last⟩
  obtain ht | ht := List.mem_append.1 ht
  · exact h.ended.upcoming t ht
  · obtain ht | ht := List.mem_append.1 ht
    · simp [x.point t (List.mem_of_mem_drop ht)]
    · exact x.ended.upcoming t ht

/-! ## Taking points -/

/-- A run is lost to the other text: it fails, or it reads on into it, over its minus. -/
def Sequel.Glued {e : Token} (x : Sequel e) {α : Type} (r : Attempt.Result Failure TokenStream α) :
    Prop :=
  (∃ f s, r = .error f s) ∨
    x.head = .minus ∧ ∃ a s, r = .ok a s ∧ s.EndsAt e ∧ s.remaining < x.rest.length

/-- The run that reads `a` from `s` to `s'` takes `k` of the points that follow, and none if it ends
    before they come. With fewer points before a text that glues, the run is lost to that text, if
    the text does not pass it by. -/
structure Absorbs (e : Token) {α : Type} (p : Parse TokenStream α) (s : TokenStream) (a : α)
    (s' : TokenStream) (k : Nat) (passes : TokenKind → Prop) : Prop where
  before : s'.upcoming ≠ [] → k = 0
  takes : ∀ x : Sequel e, k ≤ x.points.length ∨ ¬ x.Glues →
    p.run (s.followedBy (x.after 0)) = .ok a (s'.followedBy (x.after k))
  glues : ∀ x : Sequel e, x.points.length < k → x.Glues →
    x.Glued (p.run (s.followedBy (x.after 0))) ∨
      passes x.head ∧ p.run (s.followedBy (x.after 0)) = .ok a ⟨x.rest, e⟩

section Absorbs

variable {e : Token} {α β : Type} {p : Parse TokenStream α} {f : α → Parse TokenStream β}
    {s s₁ s' : TokenStream} {a : α}
  {b : β} {k : Nat} {passes passes' : TokenKind → Prop}

/-- What comes behind a lost step does not save it. -/
theorem Sequel.Glued.bind {x : Sequel e} (h : x.Glued (p.run s))
    (hf : ∀ a s₁ b s₂, s₁.EndsAt e → (f a).run s₁ = .ok b s₂ →
      s₂.EndsAt e ∧ s₂.remaining ≤ s₁.remaining) :
    x.Glued ((p >>= f).run s) := by
  obtain ⟨fault, s₁, hrun⟩ | ⟨hminus, a, s₁, hrun, hs₁, hlt⟩ := h
  · exact .inl ⟨fault, s₁, by rw [Attempt.run_bind, hrun]⟩
  · cases hrest : (f a).run s₁ with
    | error fault s₂ => exact .inl ⟨fault, s₂, by rw [Attempt.run_bind, hrun]; exact hrest⟩
    | ok b s₂ =>
      obtain ⟨hs₂, hle⟩ := hf a s₁ b s₂ hs₁ hrest
      exact .inr ⟨hminus, b, s₂, by rw [Attempt.run_bind, hrun]; exact hrest, hs₂, by omega⟩

namespace Absorbs

/-- A run that never sees what follows takes nothing of it. -/
theorem of_run (h : ∀ x : Sequel e,
      p.run (s.followedBy (x.after 0)) = .ok a (s'.followedBy (x.after 0))) :
    Absorbs e p s a s' 0 passes :=
  ⟨fun _ => rfl, fun x _ => h x, fun _ hx => absurd hx (Nat.not_lt_zero _)⟩

theorem run (h : Absorbs e p s a s' k passes) (hs' : s'.upcoming ≠ []) (x : Sequel e) :
    p.run (s.followedBy (x.after 0)) = .ok a (s'.followedBy (x.after 0)) := by
  have hk := h.before hs'
  subst hk
  exact h.takes x (.inl (Nat.zero_le _))

theorem mono (h : Absorbs e p s a s' k passes)
    (hpasses : ∀ x : Sequel e, x.Glues → passes x.head → passes' x.head) :
    Absorbs e p s a s' k passes' :=
  ⟨h.before, h.takes, fun x hk hx => (h.glues x hk hx).imp_right fun hsame =>
    ⟨hpasses x hx hsame.1, hsame.2⟩⟩

/-- Steps that never see what follows may come first. -/
theorem of_run_eq {q : Parse TokenStream α} (h : Absorbs e q s₁ a s' k passes)
    (heq : ∀ x : Sequel e, p.run (s.followedBy (x.after 0)) = q.run (s₁.followedBy (x.after 0))) :
    Absorbs e p s a s' k passes :=
  ⟨h.before, fun x hx => (heq x).trans (h.takes x hx), fun x hk hx => by
    rw [heq x]
    exact h.glues x hk hx⟩

theorem bind {passes₁ : TokenKind → Prop} {k₁ : Nat} (h : Absorbs e p s a s₁ k₁ passes₁)
    (hs₁ : s₁.upcoming ≠ []) (hf : Absorbs e (f a) s₁ b s' k passes) :
    Absorbs e (p >>= f) s b s' k passes :=
  hf.of_run_eq fun x => by rw [Attempt.run_bind, h.run hs₁ x]

theorem map (h : Absorbs e p s a s' k passes) (g : α → β) :
    Absorbs e (do return g (← p)) s (g a) s' k passes := by
  refine ⟨h.before, fun x hx => ?_, fun x hk hx => ?_⟩
  · rw [Attempt.run_bind, h.takes x hx]
    rfl
  · obtain hglued | ⟨hpasses, hrun⟩ := h.glues x hk hx
    · refine .inl (hglued.bind fun a s₁ b s₂ hs₁ hrun => ?_)
      cases hrun
      exact ⟨hs₁, Nat.le_refl _⟩
    · refine .inr ⟨hpasses, ?_⟩
      rw [Attempt.run_bind, hrun]
      rfl

end Absorbs

end Absorbs

/-! ## Loops up to a closing token -/

/-- A run that ends before the end of the text does not see what follows. -/
def Parse.Local (e : Token) {α : Type} (p : Parse TokenStream α) : Prop :=
  ∀ s a s', s.EndsAt e → p.run s = .ok a s' → s'.EndsAt e ∧ s'.upcoming <:+ s.upcoming ∧
    (s'.upcoming ≠ [] → ∀ x : Sequel e,
      p.run (s.followedBy (x.after 0)) = .ok a (s'.followedBy (x.after 0)))

theorem Parse.manyTill_local {e : Token} {α : Type} {step : Parse TokenStream α}
    (hstep : step.Local e) (stop : TokenKind → Bool) : (manyTill stop step).Local e := by
  intro s as s' hs hrun
  change manyTillFrom stop step s = .ok as s' at hrun
  change _ ∧ _ ∧ (_ → ∀ x : Sequel e, manyTillFrom stop step _ = _)
  fun_induction manyTillFrom stop step s generalizing as s' with
  | case1 s hstop =>
    cases hrun
    refine ⟨hs, List.suffix_rfl, fun hne x => manyTillFrom_stop ?_⟩
    rwa [TokenStream.current_followedBy hne]
  | case2 s hstop e s₁ hx => cases hrun
  | case3 s hstop a s₁ hx hlt e s₂ hrest ih => cases hrun
  | case4 s hstop a s₁ hx hlt as s₂ hrest ih =>
    cases hrun
    rw [TokenStream.view_current] at hstop
    obtain ⟨hs₁, hsuffix, hlocal⟩ := hstep _ _ _ hs hx
    obtain ⟨hs₂, hsuffix', hlocal'⟩ := ih _ _ hs₁ hrest
    refine ⟨hs₂, hsuffix'.trans hsuffix, fun hne x => ?_⟩
    have hne₁ := hsuffix'.ne_nil hne
    have hcurrent := TokenStream.current_followedBy (hsuffix.ne_nil hne₁) (x.after 0)
    rw [manyTillFrom, TokenStream.view_current, hcurrent, if_neg hstop, hlocal hne₁ x]
    simp only [TokenStream.view_remaining] at hlt ⊢
    simp only [TokenStream.remaining_followedBy, Nat.add_lt_add_iff_right, hlt, if_true,
      hlocal' hne x]
  | case5 s hstop a s₁ hx hlt =>
    cases hrun
    rw [TokenStream.view_current] at hstop
    obtain ⟨hs₁, hsuffix, hlocal⟩ := hstep _ _ _ hs hx
    refine ⟨hs₁, hsuffix, fun hne x => ?_⟩
    have hcurrent := TokenStream.current_followedBy (hsuffix.ne_nil hne) (x.after 0)
    rw [manyTillFrom, TokenStream.view_current, hcurrent, if_neg hstop, hlocal hne x]
    simp only [TokenStream.view_remaining] at hlt ⊢
    simp only [TokenStream.remaining_followedBy, Nat.add_lt_add_iff_right, hlt, if_false]

/-! ## Expressions -/

namespace Grammar

open Parse

theorem primary_run_skipPoints (sub : Nested TokenStream) (s : TokenStream) :
    (primary sub).run s.skipPoints = (primary sub).run s := by
  simp [primary, TokenStream.skipPoints_skipPoints]

theorem form_run_skipPoints (sub : Nested TokenStream) (s : TokenStream) :
    (form sub).run s.skipPoints = (form sub).run s := by
  simp [form, TokenStream.skipPoints_skipPoints]

/-- The part of an expression behind its first operand. -/
def finish (sub : Nested TokenStream) (level : Precedence) (left : Node) :
    Parse TokenStream Node := do
  let whole ← operators sub level left
  let _ ← accept .point
  return whole

theorem expression_eq_finish (sub : Nested TokenStream) (level : Precedence) :
    expression sub level = primary sub >>= finish sub level := rfl

variable {e : Token} {sub : Nested TokenStream} {level : Precedence} {left n : Node}
    {s s' : TokenStream}

theorem finish_stop (h : ¬ level < s.precedence) :
    (finish sub level left).run s = .ok left s.pastPoint := by
  obtain ⟨b, hb⟩ := run_accept_point s
  simp [finish, operators_stop h, hb]

theorem call_run_of_not_name (h : ∀ p name, n ≠ .identifier p name) :
    (call sub n).run s = .error (.error ⟨.calleeNotName, s.current⟩) s := by
  unfold call
  split
  · exact absurd rfl (h _ _)
  · rfl

theorem kind_ne_end_of_lt (h : level < s.precedence) : s.current.kind ≠ .endOfInput := by
  intro hend
  rw [TokenStream.precedence, hend] at h
  exact not_lt_lowest level h

section Reads

variable (hsub : sub.Reads)

include hsub

theorem ExtendRead.shrinks (hs : s.EndsAt e) (hlevel : level < s.precedence)
    (h : ExtendRead sub s left n s') : s'.EndsAt e ∧ s'.remaining < s.remaining := by
  have hadvance := s.remaining_advance_lt (hs.upcoming_ne_nil (kind_ne_end_of_lt hlevel))
  cases h with
  | binary h hright =>
    have hread := (hsub.expression hs.advance.ended hright).1
    exact ⟨hread.endsAt hs.advance, Nat.lt_of_le_of_lt hread.suffix.length_le hadvance⟩
  | @call _ _ _ s₁ h harguments hclose =>
    have hread := manyTillFrom_expression_reads hsub hs.advance.ended harguments
    refine ⟨(hread.endsAt hs.advance).advance, ?_⟩
    have hle := s₁.remaining_advance_le
    have hle' : s₁.remaining ≤ s.advance.remaining := hread.suffix.length_le
    omega

/-- One extension moves on, so that the loop goes on behind it. -/
theorem finish_extend (hs : s.EndsAt e) (hlevel : level < s.precedence) :
    (finish sub level left).run s = (extend sub left >>= finish sub level).run s := by
  simp only [finish, operators, Attempt.run_bind]
  rw [operatorsFrom, TokenStream.view_precedence, if_pos hlevel]
  cases hx : (extend sub left).run s with
  | error fault s₁ => rfl
  | ok extended s₁ =>
    have hlt := ((extend_eq_ok.1 hx).shrinks hsub hs hlevel).2
    simp only [TokenStream.view_remaining, hlt, if_true]

theorem finish_shrinks (hs : s.EndsAt e) (h : (finish sub level left).run s = .ok n s') :
    s'.EndsAt e ∧ s'.remaining ≤ s.remaining := by
  simp only [finish, operators, Attempt.bind_eq_ok, Attempt.pure_eq_ok] at h
  obtain ⟨whole, s₁, hwhole, b, s₂, hpoint, rfl, rfl⟩ := h
  obtain ⟨b', hb'⟩ := run_accept_point s₁
  rw [hb'] at hpoint
  cases hpoint
  obtain ⟨hs₁, hle⟩ := operatorsFrom_invariant
    (P := fun _ s₁ => s₁.EndsAt e ∧ s₁.remaining ≤ s.remaining)
    (fun left s₁ node s₂ hdone hlevel hx =>
      have hnext := hx.shrinks hsub hdone.1 hlevel
      ⟨hnext.1, Nat.le_trans (Nat.le_of_lt hnext.2) hdone.2⟩) ⟨hs, Nat.le_refl _⟩ hwhole
  have hread := hs₁.ended.reads_pastPoint
  exact ⟨hread.endsAt hs₁, Nat.le_trans hread.suffix.length_le hle⟩

/-- An open expression that meets the other text is lost to it, unless it binds too tightly. -/
theorem finish_meets (x : Sequel e) (hx : x.Glues) (hname : ∀ p name, n ≠ .identifier p name) :
    x.Glued ((finish sub level n).run ⟨x.rest, e⟩) ∨
      ¬ level < .ofKind x.head ∧ (finish sub level n).run ⟨x.rest, e⟩ = .ok n ⟨x.rest, e⟩ := by
  have hends : (TokenStream.mk x.rest e).EndsAt e := ⟨x.ended, rfl⟩
  by_cases hlevel : level < (TokenStream.mk x.rest e).precedence
  · left
    rw [finish_extend hsub hends hlevel]
    obtain hminus | hopen := hx
    · cases hrun : (extend sub n).run ⟨x.rest, e⟩ with
      | error fault s₁ => exact .inl ⟨fault, s₁, by rw [Attempt.run_bind, hrun]⟩
      | ok m s₁ =>
        obtain ⟨hs₁, hlt⟩ := (extend_eq_ok.1 hrun).shrinks hsub hends hlevel
        have hglued : x.Glued ((extend sub n).run ⟨x.rest, e⟩) :=
          .inr ⟨hminus, m, s₁, hrun, hs₁, hlt⟩
        exact hglued.bind fun _ _ _ _ => finish_shrinks hsub
    · -- only a name can be called
      refine .inl ⟨.error ⟨.calleeNotName, (TokenStream.mk x.rest e).current⟩, ⟨x.rest, e⟩, ?_⟩
      have hopen' : (TokenStream.mk x.rest e).current.kind = .openParen := hopen
      simp [extend, hopen', call_run_of_not_name hname]
  · exact .inr ⟨hlevel, by
      rw [finish_stop hlevel, TokenStream.pastPoint_eq_self x.starts.point]⟩

/-- An operand at the end of the text: the expression takes one point more than the operand. -/
theorem absorbs_bind_finish {p : Parse TokenStream Node} {k : Nat}
    (h : Absorbs e p s n s' k fun _ => True) (hs' : s'.EndsAt e) (hend : s'.upcoming = [])
    (hname : 0 < k → ∀ p name, n ≠ .identifier p name) :
    Absorbs e (p >>= finish sub level) s n s' (k + 1) fun kind => ¬ level < .ofKind kind := by
  have hstream : ∀ ts, s'.followedBy ts = ⟨ts, e⟩ := fun ts => by
    rw [TokenStream.followedBy_eq hend, hs'.last]
  refine ⟨fun hne => absurd hend hne, fun x hx => ?_, fun x hk hx => ?_⟩
  · rw [Attempt.run_bind, h.takes x (hx.imp_left (by omega)), hstream, hstream]
    exact (finish_stop (x.not_lt_precedence (hx.imp_left (by omega)) level)).trans
      (congrArg _ (x.pastPoint_after k))
  · have hmeets : p.run (s.followedBy (x.after 0)) = .ok n ⟨x.rest, e⟩ →
        x.Glued ((p >>= finish sub level).run (s.followedBy (x.after 0))) ∨
          ¬ level < .ofKind x.head ∧
            (p >>= finish sub level).run (s.followedBy (x.after 0)) = .ok n ⟨x.rest, e⟩ := by
      intro hrun
      have hpos := List.length_pos_iff.2 x.nonempty
      rw [Attempt.run_bind, hrun]
      exact finish_meets hsub x hx (hname (by omega))
    by_cases hlt : x.points.length < k
    · obtain hglued | ⟨-, hrun⟩ := h.glues x hlt hx
      · exact .inl (hglued.bind fun _ _ _ _ => finish_shrinks hsub)
      · exact hmeets hrun
    · refine hmeets ?_
      rw [h.takes x (.inl (by omega)), hstream, x.after_eq_rest (by omega)]

end Reads

/-- At the end of the text, the steps for what stands inside take points. -/
structure Nested.Absorbs (e : Token) (sub : Nested TokenStream) : Prop where
  expression : ∀ {level : Precedence} {s s' : TokenStream} {n : Node}, s.EndsAt e →
    (sub.expression level).run s = .ok n s' → ∃ k ≤ s.remaining,
      Castellano.Absorbs e (sub.expression level) s n s' k fun kind => ¬ level < .ofKind kind
  block : ∀ {s s' : TokenStream} {b : Block Node}, s.EndsAt e → sub.block.run s = .ok b s' →
    ∃ k ≤ s.remaining, Castellano.Absorbs e sub.block s b s' k fun _ => False
  block_ne_nil : ∀ {s s' : TokenStream} {b : Block Node}, s.EndsAt e →
    sub.block.run s = .ok b s' → s.upcoming ≠ []

section Rules

variable (hsub : sub.Reads) (habs : sub.Absorbs e)

include hsub

theorem expression_ne_nil (hs : s.EndsAt e) (h : (sub.expression level).run s = .ok n s') :
    s.upcoming ≠ [] := by
  obtain ⟨hread, hne⟩ := hsub.expression hs.ended h
  exact hread.upcoming_ne_nil hne

theorem form_ne_nil (hs : s.EndsAt e) (h : (form sub).run s = .ok n s') : s.upcoming ≠ [] := by
  obtain ⟨hread, hne⟩ := form_reads hsub hs.ended h
  exact hread.upcoming_ne_nil hne

include habs

theorem expression_local (level : Precedence) : (sub.expression level).Local e := by
  intro s n s' hs hrun
  have hread := (hsub.expression hs.ended hrun).1
  obtain ⟨k, -, h⟩ := habs.expression hs hrun
  exact ⟨hread.endsAt hs, hread.suffix, h.run⟩

theorem parameter_local : (parameter sub).Local e := by
  intro s p s' hs hrun
  obtain ⟨hs', hsuffix, hlocal⟩ :=
    expression_local hsub habs .lowest _ _ _ hs (parameter_eq_ok.1 hrun)
  exact ⟨hs', hsuffix, fun hne x => parameter_eq_ok.2 (hlocal hne x)⟩

omit hsub habs in
/-- A rule for a primary expression is tried at its first token, whatever follows. -/
theorem primary_of_read (hpoint : s.current.kind ≠ .point) (h : PrimaryRead sub s n s') :
    (primary sub).run s = .ok n s' :=
  primary_eq_ok.2 (by rwa [TokenStream.skipPoints_eq_self hpoint])

omit hsub habs in
/-- A single token that is an expression. -/
theorem absorbs_token (hne : s.upcoming ≠ []) (hpoint : s.current.kind ≠ .point)
    (hread : ∀ s₁ : TokenStream, s₁.current = s.current → PrimaryRead sub s₁ n s₁.advance) :
    Castellano.Absorbs e (primary sub) s n s.advance 0 fun _ => True := by
  refine .of_run fun x => ?_
  have hcurrent := TokenStream.current_followedBy hne (x.after 0)
  rw [← TokenStream.advance_followedBy hne]
  exact primary_of_read (by rwa [hcurrent]) (hread _ hcurrent)

theorem function_absorbs {parameters : List Parameter} {body : Block Node} {s₁ : TokenStream}
    (hs : s.EndsAt e) (hopen : s.advance.current.kind = .openParen)
    (hparameters : manyTillFrom closesList (parameter sub) s.advance.advance = .ok parameters s₁)
    (hclose : s₁.current.kind = .closeParen) (hbody : sub.block.run s₁.advance = .ok body s') :
    ∃ k ≤ s.advance.remaining, Castellano.Absorbs e (function sub) s
      (.function s.current.position parameters body) s' k fun _ => False := by
  have hne' := hs.advance.upcoming_ne_nil (by simp [hopen])
  have hne : s.upcoming ≠ [] := by
    rintro hnil
    simp [TokenStream.advance, hnil] at hne'
  obtain ⟨hs₁, hsuffix, hlocal⟩ := manyTill_local (parameter_local hsub habs) closesList
    _ _ _ hs.advance.advance hparameters
  have hne₁ := hs₁.upcoming_ne_nil (by simp [hclose])
  obtain ⟨k, hk, hbody'⟩ := habs.block hs₁.advance hbody
  have hbound : k ≤ s.advance.remaining := by
    have hle : s₁.remaining ≤ s.advance.advance.remaining := hsuffix.length_le
    have hle' := s₁.remaining_advance_le
    have hle'' := s.advance.remaining_advance_le
    omega
  refine ⟨k, hbound, (hbody'.map (Node.function s.current.position parameters)).of_run_eq
    fun x => ?_⟩
  simp [function, run_expect, TokenStream.current_followedBy hne,
    TokenStream.advance_followedBy hne, TokenStream.current_followedBy hne', hopen,
    TokenStream.advance_followedBy hne', hlocal hne₁ x, TokenStream.current_followedBy hne₁,
    hclose, TokenStream.advance_followedBy hne₁]

theorem PrimaryRead.absorbs (hs : s.EndsAt e) (h : PrimaryRead sub s n s') :
    ∃ k < s.remaining, Castellano.Absorbs e (primary sub) s n s' k (fun _ => True) ∧
      (0 < k → ∀ p name, n ≠ .identifier p name) := by
  have hne : s.upcoming ≠ [] := by
    refine hs.upcoming_ne_nil fun hend => ?_
    cases h <;> simp_all
  have hpos : 0 < s.remaining := List.length_pos_iff.2 hne
  have hadvance := s.remaining_advance_lt hne
  have hcurrent := TokenStream.current_followedBy hne
  have hnext := TokenStream.advance_followedBy hne
  cases h with
  | integer h =>
    refine ⟨0, hpos, absorbs_token hne (by simp [h]) fun s₁ hs₁ => ?_, by simp⟩
    rw [← hs₁] at h ⊢
    exact .integer h
  | identifier h =>
    refine ⟨0, hpos, absorbs_token hne (by simp [h]) fun s₁ hs₁ => ?_, by simp⟩
    rw [← hs₁] at h ⊢
    exact .identifier h
  | verdadero h =>
    refine ⟨0, hpos, absorbs_token hne (by simp [h]) fun s₁ hs₁ => ?_, by simp⟩
    rw [← hs₁] at h ⊢
    exact .verdadero h
  | falso h =>
    refine ⟨0, hpos, absorbs_token hne (by simp [h]) fun s₁ hs₁ => ?_, by simp⟩
    rw [← hs₁] at h ⊢
    exact .falso h
  | @parenthesised inner s₁ h hinner hclose =>
    obtain ⟨hs₁, -, hlocal⟩ := expression_local hsub habs .lowest _ _ _ hs.advance hinner
    have hne₁ := hs₁.upcoming_ne_nil (by simp [hclose])
    refine ⟨0, hpos, .of_run fun x => primary_of_read (by simp [hcurrent, h]) ?_, by simp⟩
    rw [← TokenStream.advance_followedBy hne₁]
    refine .parenthesised (by rwa [hcurrent]) ?_
      (by rwa [TokenStream.current_followedBy hne₁])
    rw [hnext]
    exact hlocal hne₁ x
  | @minus operand _ h hnot hoperand =>
    have hne' := expression_ne_nil hsub hs.advance hoperand
    obtain ⟨k, hk, hoperand'⟩ := habs.expression hs.advance hoperand
    refine ⟨k, by omega, ((hoperand'.map (Node.minus s.current.position)).mono
      fun _ _ _ => trivial).of_run_eq fun x => ?_, by simp⟩
    rw [primary_run_minus (by rwa [hcurrent])
      (by rwa [hnext, TokenStream.current_followedBy hne']), hnext, hcurrent]
  | @not operand _ h hnot hoperand =>
    have hne' := expression_ne_nil hsub hs.advance hoperand
    obtain ⟨k, hk, hoperand'⟩ := habs.expression hs.advance hoperand
    refine ⟨k, by omega, ((hoperand'.map (Node.not s.current.position)).mono
      fun _ _ _ => trivial).of_run_eq fun x => ?_, by simp⟩
    rw [primary_run_no (by rwa [hcurrent])
      (by rwa [hnext, TokenStream.current_followedBy hne']), hnext, hcurrent]
  | function h hopen hparameters hclose hbody =>
    obtain ⟨k, hk, hfunction⟩ := function_absorbs hsub habs hs hopen hparameters hclose hbody
    refine ⟨k, by omega, (hfunction.mono fun _ _ _ => trivial).of_run_eq fun x => ?_, by simp⟩
    rw [primary_run_funcion (by rwa [hcurrent])]

/-- A sign with its operand takes the points of the operand; a call ends at its parenthesis. -/
theorem ExtendRead.absorbs (hs : s.EndsAt e) (hlevel : level < s.precedence)
    (h : ExtendRead sub s left n s') :
    ∃ k < s.remaining, Castellano.Absorbs e (extend sub left) s n s' k (fun _ => True) ∧
      (0 < k → ∀ p name, n ≠ .identifier p name) := by
  have hne := hs.upcoming_ne_nil (kind_ne_end_of_lt hlevel)
  have hpos : 0 < s.remaining := List.length_pos_iff.2 hne
  have hadvance := s.remaining_advance_lt hne
  have hcurrent := TokenStream.current_followedBy hne
  have hnext := TokenStream.advance_followedBy hne
  cases h with
  | binary h hright =>
    obtain ⟨k, hk, hright'⟩ := habs.expression hs.advance hright
    refine ⟨k, by omega, ((hright'.map (Node.binary s.current.position s.current left)).mono
      fun _ _ _ => trivial).of_run_eq fun x => ?_, by simp⟩
    simp [extend, Grammar.binary, hcurrent, hnext, h]
  | @call p name arguments s₁ h harguments hclose =>
    obtain ⟨hs₁, -, hlocal⟩ := manyTill_local (expression_local hsub habs .lowest) closesList
      _ _ _ hs.advance harguments
    have hne₁ := hs₁.upcoming_ne_nil (by simp [hclose])
    refine ⟨0, hpos, .of_run fun x => extend_eq_ok.2 ?_, by simp⟩
    rw [← TokenStream.advance_followedBy hne₁]
    refine .call (by rwa [hcurrent]) ?_ (by rwa [TokenStream.current_followedBy hne₁])
    rw [hnext]
    exact hlocal hne₁ x

omit hsub habs in
theorem finish_at_end (hs : s.EndsAt e) (hend : s.upcoming = []) :
    (finish sub level left).run s = .ok left s := by
  have hkind := hs.kind_eq hend
  rw [finish_stop fun h => kind_ne_end_of_lt h hkind,
    TokenStream.pastPoint_eq_self (by simp [hkind])]

omit habs in
/-- An operand, and then the rest of the expression, if the rest is known to take points. -/
theorem absorbs_then_finish {p : Parse TokenStream Node} {m : Node} {s₁ : TokenStream} {k : Nat}
    (h : Castellano.Absorbs e p s m s₁ k fun _ => True)
    (hname : 0 < k → ∀ p name, m ≠ .identifier p name) (hk : k < s.remaining)
    (hs₁ : s₁.EndsAt e) (hlt : s₁.remaining < s.remaining)
    (hrun : (finish sub level m).run s₁ = .ok n s')
    (hrest : ∃ k ≤ s₁.remaining + 1, Castellano.Absorbs e (finish sub level m) s₁ n s' k
      fun kind => ¬ level < .ofKind kind) :
    ∃ k ≤ s.remaining, Castellano.Absorbs e (p >>= finish sub level) s n s' k
      fun kind => ¬ level < .ofKind kind := by
  by_cases hend : s₁.upcoming = []
  · rw [finish_at_end hs₁ hend] at hrun
    cases hrun
    exact ⟨k + 1, hk, absorbs_bind_finish hsub h hs₁ hend hname⟩
  · obtain ⟨k', hk', hrest⟩ := hrest
    exact ⟨k', by omega, h.bind hend hrest⟩

theorem finish_absorbs (hs : s.EndsAt e) (hrun : (finish sub level left).run s = .ok n s') :
    ∃ k ≤ s.remaining + 1, Castellano.Absorbs e (finish sub level left) s n s' k
      fun kind => ¬ level < .ofKind kind := by
  induction hN : s.remaining using Nat.strongRecOn generalizing s left with
  | _ N ih =>
    subst hN
    by_cases hlevel : level < s.precedence
    · rw [finish_extend hsub hs hlevel] at hrun
      obtain ⟨m, s₁, hx, hrest⟩ := Attempt.bind_eq_ok.1 hrun
      obtain ⟨hs₁, hlt⟩ := (extend_eq_ok.1 hx).shrinks hsub hs hlevel
      obtain ⟨k, hk, hm, hname⟩ := (extend_eq_ok.1 hx).absorbs hsub habs hs hlevel
      obtain ⟨k', hk', h⟩ := absorbs_then_finish hsub hm hname hk hs₁ hlt hrest
        (ih _ hlt hs₁ hrest rfl)
      refine ⟨k', by omega, h.of_run_eq fun x => finish_extend hsub (hs.followedBy x 0) ?_⟩
      rwa [TokenStream.precedence_followedBy (hs.upcoming_ne_nil (kind_ne_end_of_lt hlevel))]
    · by_cases hend : s.upcoming = []
      · rw [finish_at_end hs hend] at hrun
        cases hrun
        have hleft : Castellano.Absorbs e (pure n) s' n s' 0 fun _ => True := .of_run fun _ => rfl
        exact ⟨1, by omega,
          (absorbs_bind_finish hsub hleft hs hend (by simp)).of_run_eq fun _ => rfl⟩
      · rw [finish_stop hlevel] at hrun
        cases hrun
        refine ⟨0, by omega, .of_run fun x => ?_⟩
        rw [finish_stop (by rwa [TokenStream.precedence_followedBy hend]),
          TokenStream.pastPoint_followedBy hend]

theorem expression_absorbs (hs : s.EndsAt e) (hrun : (expression sub level).run s = .ok n s') :
    ∃ k ≤ s.remaining, Castellano.Absorbs e (expression sub level) s n s' k
      fun kind => ¬ level < .ofKind kind := by
  rw [expression_eq_finish] at hrun ⊢
  obtain ⟨first, s₁, hfirst, hrest⟩ := Attempt.bind_eq_ok.1 hrun
  have hread := primary_eq_ok.1 hfirst
  have hskip := s.reads_skipPoints.endsAt hs
  obtain ⟨k, hk, hprimary, hname⟩ := hread.absorbs hsub habs hskip
  obtain ⟨hreads, hnode⟩ := hread.reads hsub hskip.ended
  have hlt := hreads.remaining_lt hnode
  have hne := hreads.upcoming_ne_nil hnode
  have hle := s.remaining_skipPoints_le
  have hs₁ := hreads.endsAt hskip
  refine absorbs_then_finish hsub (hprimary.of_run_eq fun x => ?_) hname (by omega) hs₁ (by omega)
    hrest (finish_absorbs hsub habs hs₁ hrest)
  rw [← TokenStream.skipPoints_followedBy hne, primary_run_skipPoints]

/-! ## Forms -/

omit hsub habs in
theorem not_startsOtherwise_followedBy (hne : s.upcoming ≠ []) (h : ¬ startsOtherwise s)
    (x : Sequel e) : ¬ startsOtherwise (s.followedBy (x.after 0)) := by
  obtain ⟨upcoming, last⟩ := s
  obtain ⟨p, hp, hafter⟩ := x.exists_after_eq_cons (List.length_pos_iff.2 x.nonempty)
  match upcoming with
  | [] => exact absurd rfl hne
  | [a] => simp [startsOtherwise, TokenStream.followedBy, TokenStream.peek, hafter, hp]
  | [a, b] => simp [startsOtherwise, TokenStream.followedBy, TokenStream.peekTwice, hafter, hp]
  | a :: b :: c :: rest => exact h

omit hsub habs in
theorem alternative_run_sino (h : s.current.kind = .sino) :
    (alternative sub).run s =
      (do return some (← sub.block) : Parse TokenStream _).run s.advance := by
  simp [alternative, run_accept, h]

omit hsub habs in
theorem alternative_run_otherwise (h : startsOtherwise s) :
    (alternative sub).run s =
      (do return some (← sub.block) : Parse TokenStream _).run s.advance.advance.advance := by
  simp [alternative, run_accept, not_sino_of_startsOtherwise h, h]

omit hsub in
theorem AlternativeRead.absorbs {other : Option (Block Node)} (hs : s.EndsAt e)
    (hne : s.upcoming ≠ []) (h : AlternativeRead sub s other s') :
    ∃ k ≤ s.remaining, Castellano.Absorbs e (alternative sub) s other s' k fun _ => False := by
  have hcurrent := TokenStream.current_followedBy hne
  cases h with
  | sino h hblock =>
    obtain ⟨k, hk, hblock'⟩ := habs.block hs.advance hblock
    refine ⟨k, Nat.le_trans hk s.remaining_advance_le, (hblock'.map some).of_run_eq fun x => ?_⟩
    rw [alternative_run_sino (by rwa [hcurrent]), TokenStream.advance_followedBy hne]
  | otherwise h hblock =>
    obtain ⟨a, b, c, rest, hup, -⟩ := exists_cons_of_startsOtherwise hs.ended h
    obtain ⟨k, hk, hblock'⟩ := habs.block hs.advance.advance.advance hblock
    refine ⟨k, ?_, (hblock'.map some).of_run_eq fun x => ?_⟩
    · have h₁ := s.remaining_advance_le
      have h₂ := s.advance.remaining_advance_le
      have h₃ := s.advance.advance.remaining_advance_le
      omega
    · have hstarts : startsOtherwise (s.followedBy (x.after 0)) := by
        simpa [startsOtherwise, TokenStream.followedBy, TokenStream.current, TokenStream.peek,
          TokenStream.peekTwice, hup] using h
      rw [alternative_run_otherwise hstarts]
      simp [TokenStream.followedBy, TokenStream.advance, hup]
  | none h hnot =>
    exact ⟨0, Nat.zero_le _, .of_run fun x => alternative_eq_ok.2
      (.none (by rwa [hcurrent]) (not_startsOtherwise_followedBy hne hnot x))⟩

omit hsub habs in
theorem AlternativeRead.eq_none {other : Option (Block Node)} (hs : s.EndsAt e)
    (hend : s.upcoming = []) (h : AlternativeRead sub s other s') : other = .none ∧ s' = s := by
  have hkind := hs.kind_eq hend
  cases h with
  | sino h _ => simp [hkind] at h
  | otherwise h _ => simp [startsOtherwise, hkind] at h
  | none _ _ => exact ⟨rfl, rfl⟩

/-- The blocks of a conditional, with what is made of them. -/
theorem blocks_absorbs {α : Type} (make : Block Node → Option (Block Node) → α) {b : Block Node}
    {other : Option (Block Node)} {s₁ : TokenStream} (hs : s.EndsAt e)
    (hblock : sub.block.run s = .ok b s₁) (hother : AlternativeRead sub s₁ other s') :
    ∃ k ≤ s.remaining, Castellano.Absorbs e
      (do
        let consequence ← sub.block
        return make consequence (← alternative sub)) s (make b other) s' k fun _ => False := by
  obtain ⟨k, hk, hfirst⟩ := habs.block hs hblock
  have hreads := hsub.block hs.ended hblock
  have hs₁ := hreads.endsAt hs
  by_cases hend : s₁.upcoming = []
  · -- the points that are left, and then the other text, do not continue the conditional
    obtain ⟨rfl, rfl⟩ := hother.eq_none hs₁ hend
    refine ⟨k, hk, fun hne => absurd hend hne, fun x hx => ?_, fun x hlt hx => ?_⟩
    · have hnone : (alternative sub).run ⟨x.after k, e⟩ = .ok none ⟨x.after k, e⟩ :=
        alternative_eq_ok.2 (.none (x.not_sino k) (x.not_startsOtherwise k))
      simp [hfirst.takes x hx, TokenStream.followedBy_eq hend, hs₁.last, hnone]
    · obtain hglued | ⟨hfalse, -⟩ := hfirst.glues x hlt hx
      · refine .inl (hglued.bind fun c s₂ d s₃ hs₂ hrun => ?_)
        obtain ⟨other, s₄, halternative, hreturn⟩ := Attempt.bind_eq_ok.1 hrun
        cases hreturn
        have hread := (alternative_eq_ok.1 halternative).reads hsub hs₂.ended
        exact ⟨hread.endsAt hs₂, hread.suffix.length_le⟩
      · exact hfalse.elim
  · obtain ⟨k', hk', halternative⟩ := hother.absorbs habs hs₁ hend
    exact ⟨k', Nat.le_trans hk' hreads.suffix.length_le,
      hfirst.bind hend (halternative.map (make b))⟩

theorem FormRead.absorbs (hs : s.EndsAt e) (hpoint : s.current.kind ≠ .point)
    (h : FormRead sub s n s') :
    ∃ k ≤ s.remaining, Castellano.Absorbs e (form sub) s n s' k fun _ => False := by
  have hne : s.upcoming ≠ [] := by
    obtain ⟨hread, hnode⟩ := h.reads hsub hs.ended
    exact hread.upcoming_ne_nil hnode
  have hadvance := s.remaining_advance_lt hne
  have hcurrent := TokenStream.current_followedBy hne
  have hnext := TokenStream.advance_followedBy hne
  have hstay : ∀ ts, (s.followedBy ts).skipPoints = s.followedBy ts := fun ts =>
    TokenStream.skipPoints_eq_self (by rwa [hcurrent])
  cases h with
  | @assignment value _ h hassign hvalue =>
    rw [← TokenStream.current_advance] at hassign
    have hne' := hs.advance.upcoming_ne_nil (by simp [hassign])
    obtain ⟨k, hk, hvalue'⟩ := habs.expression hs.advance.advance hvalue
    have hle := s.advance.remaining_advance_le
    refine ⟨k, by omega, ((hvalue'.map (Node.assignment s.current.position s.current.literal)).mono
      fun x hx hlt => absurd hx.lowest_lt hlt).of_run_eq fun x => ?_⟩
    simp [form, Grammar.assignment, hstay, hcurrent, h, ← TokenStream.current_advance, hnext,
      TokenStream.current_followedBy hne', hassign, TokenStream.advance_followedBy hne']
  | @conditional condition consequence other s₁ s₂ _ h hcondition hconsequence hother =>
    obtain ⟨hs₁, hsuffix, hlocal⟩ :=
      expression_local hsub habs .lowest _ _ _ hs.advance hcondition
    have hne₁ := habs.block_ne_nil hs₁ hconsequence
    obtain ⟨k, hk, hblocks⟩ := blocks_absorbs hsub habs
      (Node.conditional s.current.position condition) hs₁ hconsequence hother
    have hle : s₁.remaining ≤ s.advance.remaining := hsuffix.length_le
    refine ⟨k, by omega, hblocks.of_run_eq fun x => ?_⟩
    simp [form, Grammar.conditional, hstay, hcurrent, h, hnext, hlocal hne₁ x]
  | @loop condition body s₁ _ h hcondition hbody =>
    obtain ⟨hs₁, hsuffix, hlocal⟩ :=
      expression_local hsub habs .lowest _ _ _ hs.advance hcondition
    have hne₁ := habs.block_ne_nil hs₁ hbody
    obtain ⟨k, hk, hbody'⟩ := habs.block hs₁ hbody
    have hle : s₁.remaining ≤ s.advance.remaining := hsuffix.length_le
    refine ⟨k, by omega, (hbody'.map (Node.loop s.current.position condition)).of_run_eq
      fun x => ?_⟩
    simp [form, Grammar.loop, hstay, hcurrent, h, hnext, hlocal hne₁ x]
  | expression hassign hsi hmientras hnode =>
    obtain ⟨k, hk, hnode'⟩ := habs.expression hs hnode
    refine ⟨k, hk, (hnode'.mono fun x hx hlt => absurd hx.lowest_lt hlt).of_run_eq fun x => ?_⟩
    refine form_run_expression (by rwa [hcurrent]) (fun hname hsign => ?_) (by rwa [hcurrent])
      (by rwa [hcurrent])
    -- behind the last token there is a point, which is no sign of assignment either
    rw [hcurrent] at hname
    rw [← TokenStream.current_advance, hnext] at hsign
    by_cases hend : s.advance.upcoming = []
    · rw [TokenStream.followedBy_eq hend, hs.advance.last, x.kind_after_zero] at hsign
      cases hsign
    · rw [TokenStream.current_followedBy hend, TokenStream.current_advance] at hsign
      exact hassign ⟨hname, hsign⟩

/-- A form at the end of the text takes points, and never passes another text by. -/
theorem form_absorbs (hs : s.EndsAt e) (hrun : (form sub).run s = .ok n s') :
    ∃ k ≤ s.remaining, Castellano.Absorbs e (form sub) s n s' k fun _ => False := by
  have hskip := s.reads_skipPoints.endsAt hs
  have hread := form_eq_ok.1 hrun
  obtain ⟨hreads, hnode⟩ := hread.reads hsub hskip.ended
  have hne := hreads.upcoming_ne_nil hnode
  obtain ⟨k, hk, h⟩ := hread.absorbs hsub habs hskip (s.kind_skipPoints_ne hne)
  refine ⟨k, Nat.le_trans hk s.remaining_skipPoints_le, h.of_run_eq fun x => ?_⟩
  rw [← TokenStream.skipPoints_followedBy hne, form_run_skipPoints]

theorem blockForm_local : (blockForm sub).Local e := by
  intro s n s' hs hrun
  obtain ⟨s₁, hform, rfl⟩ := blockForm_eq_ok.1 hrun
  have hrun₁ := form_eq_ok.2 hform
  have hread := (form_reads hsub hs.ended hrun₁).1
  have hskip := hread.trans s₁.reads_skipPoints
  refine ⟨hskip.endsAt hs, hskip.suffix, fun hne x => ?_⟩
  obtain ⟨k, -, h⟩ := form_absorbs hsub habs hs hrun₁
  have hne₁ := s₁.reads_skipPoints.suffix.ne_nil hne
  simp [blockForm, h.run hne₁ x, TokenStream.skipPoints_followedBy hne]

theorem block_absorbs {b : Block Node} (hs : s.EndsAt e) (hrun : (block sub).run s = .ok b s') :
    ∃ k ≤ s.remaining, Castellano.Absorbs e (block sub) s b s' k fun _ => False := by
  cases block_eq_ok.1 hrun with
  | @braces forms s₁ h hforms hclose =>
    have hne := hs.upcoming_ne_nil (by simp [h])
    have hskip := s.advance.reads_skipPoints.endsAt hs.advance
    obtain ⟨hs₁, hsuffix, hlocal⟩ := manyTill_local (blockForm_local hsub habs) closesBlock
      _ _ _ hskip hforms
    have hne₁ := hs₁.upcoming_ne_nil (by simp [hclose])
    refine ⟨0, Nat.zero_le _, .of_run fun x => block_eq_ok.2 ?_⟩
    rw [← TokenStream.advance_followedBy hne₁, ← TokenStream.current_followedBy hne (x.after 0)]
    refine .braces (by rwa [TokenStream.current_followedBy hne]) ?_
      (by rwa [TokenStream.current_followedBy hne₁])
    rw [TokenStream.advance_followedBy hne,
      TokenStream.skipPoints_followedBy (hsuffix.ne_nil hne₁)]
    exact hlocal hne₁ x
  | @bare f _ h hform =>
    have hrun₁ := form_eq_ok.2 hform
    obtain ⟨k, hk, h'⟩ := form_absorbs hsub habs hs hrun₁
    have hne := form_ne_nil hsub hs hrun₁
    refine ⟨k, hk, (h'.map fun f => (⟨[f], s.current.position⟩ : Block Node)).of_run_eq
      fun x => ?_⟩
    simp [block, run_accept, TokenStream.current_followedBy hne, h]

omit habs in
theorem block_ne_nil {b : Block Node} (hs : s.EndsAt e) (hrun : (block sub).run s = .ok b s') :
    s.upcoming ≠ [] := by
  cases block_eq_ok.1 hrun with
  | braces h _ _ => exact hs.upcoming_ne_nil (by simp [h])
  | bare _ hform => exact form_ne_nil hsub hs (form_eq_ok.2 hform)

end Rules

/-- At every depth, expressions and blocks at the end of the text take points. -/
theorem nested_absorbs (e : Token) (limit : Nat) : (nested limit).Absorbs e := by
  induction limit with
  | zero =>
    refine ⟨?_, ?_, ?_⟩
    · intro level s s' n _ h
      cases h
    · intro s s' b _ h
      cases h
    · intro s s' b _ h
      cases h
  | succ limit ih =>
    have hreads := nested_reads limit
    exact ⟨expression_absorbs hreads ih, block_absorbs hreads ih, block_ne_nil hreads⟩

end Grammar

end Castellano
