import Castellano.Proofs.Terminator
import Mathlib.Data.List.Infix

/-!
# More tokens where a stream ended

What a rule does when a stream goes on where it ended before. No rule looks further than three
tokens. A run that ended before the end of the stream therefore ends at the same place, unless all
that was left may still become `si no entonces`; and a run that failed at a token with two more
behind it fails again. It may fail elsewhere: a parameter that is no name is reported at its first
token, when its last token has been read.

* `TokenStream.Settled`: what is left of a stream is read alike, whatever follows.
* `Parse.Steady`: a step is not changed by what follows; closed under sequencing and repetition.
* `Grammar.expression_notName`: an expression that is no name does not become one.
* `Grammar.nested_steady`, `Grammar.form_steady`: at every depth, all rules are steady.
-/

namespace Castellano

/-! ## Streams that go on -/

namespace TokenStream

/-- The second stream is what is left of the first at some place. -/
structure LeadsTo (s s' : TokenStream) : Prop where
  suffix : s'.upcoming <:+ s.upcoming
  last : s'.last = s.last

/-- The tokens left are not used up, and they are not a part of `si no entonces` that lacks its
    end. -/
def Settled (s : TokenStream) : Prop :=
  s.upcoming.map Token.kind ∉ [[], [.si], [.no], [.si, .no]]

variable {s s' s₁ x : TokenStream}

namespace LeadsTo

theorem refl (s : TokenStream) : s.LeadsTo s := ⟨List.suffix_rfl, rfl⟩

theorem trans (h : s.LeadsTo s₁) (h' : s₁.LeadsTo s') : s.LeadsTo s' :=
  ⟨h'.suffix.trans h.suffix, h'.last.trans h.last⟩

theorem advance (s : TokenStream) : s.LeadsTo s.advance := ⟨List.tail_suffix _, rfl⟩

theorem skipPoints (s : TokenStream) : s.LeadsTo s.skipPoints := ⟨List.dropWhile_suffix _, rfl⟩

theorem remaining_le (h : s.LeadsTo s') : s'.remaining ≤ s.remaining := h.suffix.length_le

theorem ended (h : s.LeadsTo s') (hs : s.Ended) : s'.Ended :=
  ⟨fun t ht => hs.upcoming t (h.suffix.subset ht), h.last ▸ hs.last⟩

end LeadsTo

namespace Settled

theorem ne_nil (h : s.Settled) : s.upcoming ≠ [] := by
  intro hnil
  simp [Settled, hnil] at h

/-- What leads to something settled is settled. -/
theorem of_leadsTo (h : s'.Settled) (hlead : s.LeadsTo s') : s.Settled := by
  have hclosed : ∀ kinds ∈ [[], [.si], [.no], [TokenKind.si, .no]], ∀ rest ∈ kinds.tails,
      rest ∈ [[], [.si], [.no], [TokenKind.si, .no]] := by decide
  intro hmem
  exact h (hclosed _ hmem _ ((List.mem_tails _ _).2 (hlead.suffix.map _)))

theorem of_remaining (h : 3 ≤ s.remaining) : s.Settled := by
  have hlength : 3 ≤ (s.upcoming.map Token.kind).length := by rwa [List.length_map]
  intro hmem
  generalize s.upcoming.map Token.kind = kinds at hlength hmem
  simp only [List.mem_cons, List.not_mem_nil, or_false] at hmem
  obtain rfl | rfl | rfl | rfl := hmem <;> simp at hlength

theorem of_kind (hne : s.upcoming ≠ []) (hsi : s.current.kind ≠ .si) (hno : s.current.kind ≠ .no) :
    s.Settled := by
  obtain ⟨t, ts, hs⟩ := List.exists_cons_of_ne_nil hne
  simp_all [Settled, current]

theorem of_two (h : 2 ≤ s.remaining) (hsi : s.current.kind ≠ .si) : s.Settled := by
  obtain ⟨upcoming, last⟩ := s
  rcases upcoming with _ | ⟨a, _ | ⟨b, rest⟩⟩
  · simp at h
  · simp at h
  · simp_all [Settled]

end Settled

theorem Ended.append (hs : s.Ended) (hx : x.Ended) : (s ++ x).Ended :=
  ⟨fun t ht => (List.mem_append.1 ht).elim (hs.upcoming t) (hx.upcoming t), hx.last⟩

end TokenStream

open TokenStream

/-! ## Steady steps -/

namespace Parse

/-- The error is at a token of the stream, and `again` is a failure if two more tokens stand behind
    that one. -/
def FailsAgain (s : TokenStream) (e : ParseError) {α : Type}
    (again : Attempt.Result Failure TokenStream α) : Prop :=
  ∃ s₁, s.LeadsTo s₁ ∧ s₁.current = e.token ∧ (3 ≤ s₁.remaining → ∃ f s₂, again = .error f s₂)

/-- With `x` in place of the end of the stream, a run that ends at a settled place ends there again,
    and one that fails at a token with two more behind it fails again. -/
structure Steady (x : TokenStream) {α : Type} (p : Parse TokenStream α) : Prop where
  ok : ∀ {s s' : TokenStream} {a : α}, s.Ended → p.run s = .ok a s' →
    s.LeadsTo s' ∧ (s'.Settled → p.run (s ++ x) = .ok a (s' ++ x))
  error : ∀ {s s' : TokenStream} {e : ParseError}, s.Ended → p.run s = .error (.error e) s' →
    FailsAgain s e (p.run (s ++ x))

/-- What failed again fails as a part of something larger, which may have read more before. -/
theorem FailsAgain.imp {s s₀ : TokenStream} {e : ParseError} {α β : Type}
    {again : Attempt.Result Failure TokenStream α} {again' : Attempt.Result Failure TokenStream β}
    (h : FailsAgain s e again) (hlead : s₀.LeadsTo s)
    (himp : 3 ≤ s.remaining → ∀ f s₂, again = .error f s₂ → ∃ f s₂, again' = .error f s₂) :
    FailsAgain s₀ e again' := by
  obtain ⟨s₁, hlead', htoken, hfails⟩ := h
  refine ⟨s₁, hlead.trans hlead', htoken, fun hthree => ?_⟩
  obtain ⟨f, s₂, hfault⟩ := hfails hthree
  exact himp (Nat.le_trans hthree hlead'.remaining_le) f s₂ hfault

namespace Steady

variable {x : TokenStream} {α β : Type}

/-- A step that cannot fail. -/
theorem of_ok {p : Parse TokenStream α} {next : TokenStream → TokenStream} {value : TokenStream → α}
    (hrun : ∀ s, p.run s = .ok (value s) (next s))
    (hlead : ∀ s : TokenStream, s.LeadsTo (next s))
    (hsame : ∀ s, (next s).Settled → value (s ++ x) = value s ∧ next (s ++ x) = next s ++ x) :
    Steady x p where
  ok := by
    intro s s' a _ h
    rw [hrun] at h
    cases h
    refine ⟨hlead s, fun hset => ?_⟩
    rw [hrun, (hsame s hset).1, (hsame s hset).2]
  error := by
    intro s s' e _ h
    rw [hrun] at h
    cases h

theorem pure (a : α) : Steady x (pure a) :=
  of_ok (fun _ => rfl) .refl fun _ _ => ⟨rfl, rfl⟩

theorem current : Steady x current :=
  of_ok (fun _ => rfl) .refl fun _ hset => ⟨current_append hset.ne_nil x, rfl⟩

theorem advance : Steady x advance :=
  of_ok (fun _ => rfl) .advance fun s hset =>
    ⟨rfl, advance_append (hset.of_leadsTo (.advance s)).ne_nil x⟩

theorem skipPoints : Steady x skipPoints :=
  of_ok (fun _ => rfl) .skipPoints fun _ hset => ⟨rfl, skipPoints_append hset.ne_nil x⟩

theorem fail (fault : GrammarFault) : Steady x (fail fault : Parse TokenStream α) where
  ok := by
    intro s s' a _ h
    cases h
  error := by
    intro s s' e _ h
    cases h
    exact ⟨s, .refl s, rfl, fun _ => ⟨_, _, rfl⟩⟩

theorem bind {p : Parse TokenStream α} {f : α → Parse TokenStream β} (hp : Steady x p)
    (hf : ∀ a, Steady x (f a)) :
    Steady x (p >>= f) where
  ok := by
    intro s s' b hs hrun
    obtain ⟨a, s₁, ha, hb⟩ := Attempt.bind_eq_ok.1 hrun
    obtain ⟨hlead, hsame⟩ := hp.ok hs ha
    obtain ⟨hlead', hsame'⟩ := (hf a).ok (hlead.ended hs) hb
    refine ⟨hlead.trans hlead', fun hset => ?_⟩
    rw [Attempt.run_bind, hsame (hset.of_leadsTo hlead')]
    exact hsame' hset
  error := by
    intro s s' e hs hrun
    rw [Attempt.run_bind] at hrun
    cases ha : p.run s with
    | error fault s₁ =>
      rw [ha] at hrun
      cases hrun
      refine (hp.error hs ha).imp (.refl s) fun _ f s₂ hfault => ⟨f, s₂, ?_⟩
      rw [Attempt.run_bind, hfault]
    | ok a s₁ =>
      rw [ha] at hrun
      obtain ⟨hlead, hsame⟩ := hp.ok hs ha
      refine ((hf a).error (hlead.ended hs) hrun).imp hlead fun hthree f s₂ hfault => ⟨f, s₂, ?_⟩
      rw [Attempt.run_bind, hsame (.of_remaining hthree)]
      exact hfault

theorem ite {c : Prop} [Decidable c] {p q : Parse TokenStream α} (hp : Steady x p)
    (hq : Steady x q) :
    Steady x (if c then p else q) := by
  split
  · exact hp
  · exact hq

/-- A step that is chosen by what is in view, if the choice stays the same wherever the step has to
    end or fail alike. -/
theorem choose {f : TokenStream → Parse TokenStream α} (hf : ∀ s, Steady x (f s))
    (hok : ∀ {s s' : TokenStream} {a : α}, s.Ended → (f s).run s = .ok a s' → s.LeadsTo s' →
      s'.Settled → f (s ++ x) = f s)
    (herror : ∀ {s : TokenStream}, 3 ≤ s.remaining → f (s ++ x) = f s) :
    Steady x (Attempt.state >>= f) where
  ok := by
    intro s s' a hs hrun
    obtain ⟨hlead, hsame⟩ := (hf s).ok hs hrun
    refine ⟨hlead, fun hset => ?_⟩
    show (f (s ++ x)).run (s ++ x) = _
    rw [hok hs hrun hlead hset, hsame hset]
  error := by
    intro s s' e hs hrun
    refine ((hf s).error hs hrun).imp (.refl s) fun hthree fault s₂ hfault => ⟨fault, s₂, ?_⟩
    show (f (s ++ x)).run (s ++ x) = _
    rw [herror hthree, hfault]

theorem accept (kind : TokenKind) : Steady x (accept kind) :=
  .bind .current fun _ => .ite (.bind .advance fun _ => .pure _) (.pure _)

theorem expect (kind : TokenKind) (fault : GrammarFault) : Steady x (expect kind fault) :=
  .bind .current fun _ => .ite (.bind .advance fun _ => .pure _) (.fail _)

theorem manyTillFrom_ok {stop : TokenKind → Bool} {step : Parse TokenStream α}
    (hstep : Steady x step) {s s' : TokenStream} {as : List α} (hs : s.Ended)
    (hrun : manyTillFrom stop step s = .ok as s') :
    s.LeadsTo s' ∧ (s'.Settled → manyTillFrom stop step (s ++ x) = .ok as (s' ++ x)) := by
  fun_induction manyTillFrom stop step s generalizing as s' with
  | case1 s hstop =>
    cases hrun
    refine ⟨.refl s, fun hset => manyTillFrom_stop ?_⟩
    rwa [current_append hset.ne_nil]
  | case2 s hstop e s₁ hx => cases hrun
  | case3 s hstop a s₁ hx hlt e s₂ hrest ih => cases hrun
  | case4 s hstop a s₁ hx hlt as s₂ hrest ih =>
    cases hrun
    rw [view_current] at hstop
    obtain ⟨hlead, hsame⟩ := hstep.ok hs hx
    obtain ⟨hlead', hsame'⟩ := ih (hlead.ended hs) hrest
    refine ⟨hlead.trans hlead', fun hset => ?_⟩
    have hset₁ := hset.of_leadsTo hlead'
    rw [manyTillFrom, view_current, current_append (hset₁.of_leadsTo hlead).ne_nil, if_neg hstop,
      hsame hset₁]
    simp only [view_remaining] at hlt ⊢
    simp only [remaining_append, Nat.add_lt_add_iff_right, hlt, if_true, hsame' hset]
  | case5 s hstop a s₁ hx hlt =>
    cases hrun
    rw [view_current] at hstop
    obtain ⟨hlead, hsame⟩ := hstep.ok hs hx
    refine ⟨hlead, fun hset => ?_⟩
    rw [manyTillFrom, view_current, current_append (hset.of_leadsTo hlead).ne_nil, if_neg hstop,
      hsame hset]
    simp only [view_remaining] at hlt ⊢
    simp only [remaining_append, Nat.add_lt_add_iff_right, hlt, if_false]

theorem manyTillFrom_error {stop : TokenKind → Bool} {step : Parse TokenStream α}
    (hstep : Steady x step) {s s' : TokenStream} {e : ParseError} (hs : s.Ended)
    (hrun : manyTillFrom stop step s = .error (.error e) s') :
    FailsAgain s e (manyTillFrom stop step (s ++ x)) := by
  fun_induction manyTillFrom stop step s generalizing s' with
  | case1 s hstop => cases hrun
  | case2 s hstop fault s₁ hx =>
    cases hrun
    rw [view_current] at hstop
    refine (hstep.error hs hx).imp (.refl s) fun hthree f s₂ hfault => ⟨f, s₂, ?_⟩
    rw [manyTillFrom, view_current, current_append (Settled.of_remaining hthree).ne_nil,
      if_neg hstop, hfault]
  | case3 s hstop a s₁ hx hlt fault s₂ hrest ih =>
    cases hrun
    rw [view_current] at hstop
    obtain ⟨hlead, hsame⟩ := hstep.ok hs hx
    refine (ih (hlead.ended hs) hrest).imp hlead fun hthree f s₂ hfault => ⟨f, s₂, ?_⟩
    have hset := Settled.of_remaining hthree
    rw [manyTillFrom, view_current, current_append (hset.of_leadsTo hlead).ne_nil, if_neg hstop,
      hsame hset]
    simp only [view_remaining] at hlt ⊢
    simp only [remaining_append, Nat.add_lt_add_iff_right, hlt, if_true, hfault]
  | case4 s hstop a s₁ hx hlt as s₂ hrest ih => cases hrun
  | case5 s hstop a s₁ hx hlt => cases hrun

theorem manyTill (stop : TokenKind → Bool) {step : Parse TokenStream α} (hstep : Steady x step) :
    Steady x (manyTill stop step) :=
  ⟨manyTillFrom_ok hstep, manyTillFrom_error hstep⟩

end Steady

end Parse

/-! ## Expressions -/

/-- The node is not a mere name. -/
def Node.NotName (n : Node) : Prop := ∀ p name, n ≠ .identifier p name

namespace Grammar

open Parse

variable {x : TokenStream} {sub : Nested TokenStream} {level : Precedence} {left n n' : Node}
  {s s' s'' : TokenStream}

/-- The steps for what stands inside are steady. An expression that is no name does not become one
    when more tokens follow, even if it then reads on. -/
structure Nested.Steady (x : TokenStream) (sub : Nested TokenStream) : Prop where
  expression : ∀ level, Parse.Steady x (sub.expression level)
  block : Parse.Steady x sub.block
  notName : ∀ {level : Precedence} {s s' s'' : TokenStream} {n n' : Node}, s.Ended →
    (sub.expression level).run s = .ok n s' → n.NotName →
    (sub.expression level).run (s ++ x) = .ok n' s'' → n'.NotName

theorem parameter_run_of_notName (hn : n.NotName)
    (hrun : (sub.expression .lowest).run s = .ok n s') :
    (parameter sub).run s = .error (.error ⟨.parameterNotName, s.current⟩) s' := by
  simp only [parameter, Attempt.run_bind, run_current, hrun]
  split
  · exact absurd rfl (hn _ _)
  · rfl

theorem parameter_run_of_error {f : Failure}
    (hrun : (sub.expression .lowest).run s = .error f s') :
    (parameter sub).run s = .error f s' := by
  simp only [parameter, Attempt.run_bind, run_current, hrun]

section Rules

variable (h : sub.Steady x)

include h

/-- The error of a parameter that is no name is found behind the parameter, and reported in front of
    it. -/
theorem parameter_steady : Steady x (parameter sub) where
  ok := by
    intro s s' p hs hrun
    obtain ⟨hlead, hsame⟩ := (h.expression _).ok hs (parameter_eq_ok.1 hrun)
    exact ⟨hlead, fun hset => parameter_eq_ok.2 (hsame hset)⟩
  error := by
    intro s s' e hs hrun
    cases hx : (sub.expression .lowest).run s with
    | error f s₁ =>
      rw [parameter_run_of_error hx] at hrun
      cases hrun
      exact ((h.expression _).error hs hx).imp (.refl s) fun _ f s₂ hfault =>
        ⟨f, s₂, parameter_run_of_error hfault⟩
    | ok n s₁ =>
      have hn : n.NotName := by
        rintro p name rfl
        rw [parameter_eq_ok (p := ⟨name, p⟩) |>.2 hx] at hrun
        cases hrun
      rw [parameter_run_of_notName hn hx] at hrun
      cases hrun
      refine ⟨s, .refl s, rfl, fun _ => ?_⟩
      cases hx' : (sub.expression .lowest).run (s ++ x) with
      | error f s₂ => exact ⟨f, s₂, parameter_run_of_error hx'⟩
      | ok n' s₂ => exact ⟨_, s₂, parameter_run_of_notName (h.notName hs hx hn hx') hx'⟩

theorem function_steady : Steady x (function sub) :=
  .bind .current fun _ => .bind .advance fun _ => .bind (.expect _ _) fun _ =>
    .bind (.manyTill _ (parameter_steady h)) fun _ => .bind (.expect _ _) fun _ =>
      .bind h.block fun _ => .pure _

theorem primary_steady : Steady x (primary sub) := by
  refine .bind .skipPoints fun _ => .bind .current fun t => ?_
  split
  case h_1 | h_2 | h_3 | h_4 => exact .bind .advance fun _ => .pure _
  case h_5 =>
    exact .bind .advance fun _ => .bind (h.expression _) fun _ => .bind (.expect _ _) fun _ =>
      .pure _
  case h_6 | h_7 =>
    exact .bind .advance fun _ => .bind .current fun _ =>
      .ite (.fail _) (.bind (h.expression _) fun _ => .pure _)
  case h_8 => exact function_steady h
  case h_9 | h_10 => exact .fail _

theorem extend_steady (left : Node) : Steady x (extend sub left) := by
  refine .bind .current fun _ => .ite ?_ (.bind .current fun _ => .bind .advance fun _ =>
    .bind (h.expression _) fun _ => .pure _)
  cases left with
  | identifier p name =>
    exact .bind .advance fun _ => .bind (.manyTill _ (h.expression _)) fun _ =>
      .bind (.expect _ _) fun _ => .pure _
  | _ => exact .fail _

theorem operatorsFrom_ok (hs : s.Ended) (hrun : operatorsFrom sub level left s = .ok n s') :
    s.LeadsTo s' ∧ (s'.Settled → operatorsFrom sub level left (s ++ x) = .ok n (s' ++ x)) := by
  fun_induction operatorsFrom sub level left s with
  | case1 left s hlevel e s₁ hx => cases hrun
  | case2 left s hlevel extended s₁ hx hlt ih =>
    rw [view_precedence] at hlevel
    obtain ⟨hlead, hsame⟩ := (extend_steady h left).ok hs hx
    obtain ⟨hlead', hsame'⟩ := ih (hlead.ended hs) hrun
    refine ⟨hlead.trans hlead', fun hset => ?_⟩
    have hset₁ := hset.of_leadsTo hlead'
    rw [operatorsFrom, view_precedence, precedence_append (hset₁.of_leadsTo hlead).ne_nil,
      if_pos hlevel, hsame hset₁]
    simp only [view_remaining] at hlt ⊢
    simp only [remaining_append, Nat.add_lt_add_iff_right, hlt, if_true, hsame' hset]
  | case3 left s hlevel extended s₁ hx hlt =>
    cases hrun
    rw [view_precedence] at hlevel
    obtain ⟨hlead, hsame⟩ := (extend_steady h left).ok hs hx
    refine ⟨hlead, fun hset => ?_⟩
    rw [operatorsFrom, view_precedence, precedence_append (hset.of_leadsTo hlead).ne_nil,
      if_pos hlevel, hsame hset]
    simp only [view_remaining] at hlt ⊢
    simp only [remaining_append, Nat.add_lt_add_iff_right, hlt, if_false]
  | case4 left s hlevel =>
    cases hrun
    rw [view_precedence] at hlevel
    refine ⟨.refl _, fun hset => ?_⟩
    rw [operatorsFrom, view_precedence, precedence_append hset.ne_nil, if_neg hlevel]

theorem operatorsFrom_error {e : ParseError} (hs : s.Ended)
    (hrun : operatorsFrom sub level left s = .error (.error e) s') :
    FailsAgain s e (operatorsFrom sub level left (s ++ x)) := by
  fun_induction operatorsFrom sub level left s with
  | case1 left s hlevel fault s₁ hx =>
    cases hrun
    rw [view_precedence] at hlevel
    refine ((extend_steady h left).error hs hx).imp (.refl s) fun hthree f s₂ hfault =>
      ⟨f, s₂, ?_⟩
    rw [operatorsFrom, view_precedence, precedence_append (Settled.of_remaining hthree).ne_nil,
      if_pos hlevel, hfault]
  | case2 left s hlevel extended s₁ hx hlt ih =>
    rw [view_precedence] at hlevel
    obtain ⟨hlead, hsame⟩ := (extend_steady h left).ok hs hx
    refine (ih (hlead.ended hs) hrun).imp hlead fun hthree f s₂ hfault => ⟨f, s₂, ?_⟩
    have hset := Settled.of_remaining hthree
    rw [operatorsFrom, view_precedence, precedence_append (hset.of_leadsTo hlead).ne_nil,
      if_pos hlevel, hsame hset]
    simp only [view_remaining] at hlt ⊢
    simp only [remaining_append, Nat.add_lt_add_iff_right, hlt, if_true, hfault]
  | case3 left s hlevel extended s₁ hx hlt => cases hrun
  | case4 left s hlevel => cases hrun

theorem operators_steady (level : Precedence) (left : Node) : Steady x (operators sub level left) :=
  ⟨operatorsFrom_ok h, operatorsFrom_error h⟩

theorem expression_steady (level : Precedence) : Steady x (expression sub level) :=
  .bind (primary_steady h) fun first => .bind (operators_steady h level first) fun _ =>
    .bind (.accept _) fun _ => .pure _

/-! ## Names -/

omit h in
theorem ExtendRead.notName (hx : ExtendRead sub s left n s') : n.NotName := by
  cases hx <;> rintro p name ⟨⟩

omit h in
/-- An expression that goes on, and one that starts with more than a name, is no name. -/
theorem operatorsFrom_notName (hstart : left.NotName ∨ level < s.precedence)
    (hrun : operatorsFrom sub level left s = .ok n s') : n.NotName := by
  by_cases hlevel : level < s.precedence
  · rw [operatorsFrom, view_precedence, if_pos hlevel] at hrun
    split at hrun
    · cases hrun
    · rename_i extended s₁ hx
      have hextended := (extend_eq_ok.1 hx).notName
      split at hrun
      · exact operatorsFrom_invariant (P := fun n _ => n.NotName)
          (fun _ _ _ _ _ _ hx => hx.notName) hextended hrun
      · cases hrun
        exact hextended
  · rw [operatorsFrom, view_precedence, if_neg hlevel] at hrun
    cases hrun
    exact hstart.resolve_right hlevel

omit h in
theorem PrimaryRead.ne_nil (hs : s.Ended) (hread : PrimaryRead sub s n s') : s.upcoming ≠ [] := by
  have hmem := hread.kind_mem
  intro hnil
  rw [TokenStream.current, hnil] at hmem
  have hend : s.last.kind = .endOfInput := hs.last
  simp [hend, startsExpression] at hmem

/-- A primary expression that is no name does not become one. -/
theorem PrimaryRead.notName (hs : s.Ended) (hread : PrimaryRead sub s n s') (hn : n.NotName)
    (hread' : PrimaryRead sub (s ++ x) n' s'') : n'.NotName := by
  have hne := hread.ne_nil hs
  have hcurrent := current_append hne x
  cases hread' with
  | identifier hkind =>
    rw [hcurrent] at hkind
    cases hread with
    | identifier _ => exact absurd rfl (hn _ _)
    | _ => simp_all
  | @parenthesised inner' s₁' hkind hinner' hclose' =>
    rw [hcurrent] at hkind
    cases hread with
    | @parenthesised inner s₁ _ hinner hclose =>
      -- the closing parenthesis is in view, so that the same is read up to it
      obtain ⟨hlead, hsame⟩ := (h.expression _).ok ((LeadsTo.advance s).ended hs) hinner
      have hs₁ := hlead.ended ((LeadsTo.advance s).ended hs)
      obtain ⟨rest, hrest, -⟩ := hs₁.exists_cons (by simp [hclose])
      have hset : s₁.Settled := .of_kind (by simp [hrest]) (by simp [hclose]) (by simp [hclose])
      rw [advance_append hne, hsame hset] at hinner'
      cases hinner'
      exact hn
    | _ => simp_all
  | _ => rintro p name ⟨⟩

omit h in
/-- An operator in front decides how what is left is read. -/
theorem settled_of_lt (hs : s.Ended) (hlevel : level < s.precedence) : s.Settled := by
  obtain ⟨rest, hrest, -⟩ := hs.exists_cons (kind_ne_end_of_lt hlevel)
  have hoperator : ∀ kind, Precedence.ofKind kind = .lowest → s.current.kind ≠ kind := by
    rintro kind hlowest rfl
    rw [TokenStream.precedence, hlowest] at hlevel
    exact not_lt_lowest level hlevel
  exact .of_kind (by simp [hrest]) (hoperator _ rfl) (hoperator _ rfl)

theorem expression_notName (hs : s.Ended) (hrun : (expression sub level).run s = .ok n s')
    (hn : n.NotName) (hrun' : (expression sub level).run (s ++ x) = .ok n' s'') : n'.NotName := by
  obtain ⟨first, s₁, s₂, hfirst, hwhole, -⟩ := expression_eq_ok.1 hrun
  obtain ⟨first', s₁', s₂', hfirst', hwhole', -⟩ := expression_eq_ok.1 hrun'
  by_cases hname : first.NotName
  · have hskip := (LeadsTo.skipPoints s).ended hs
    rw [skipPoints_append (hfirst.ne_nil hskip)] at hfirst'
    exact operatorsFrom_notName (.inl (hfirst.notName h hskip hname hfirst')) hwhole'
  · -- only by going on did the expression become more than a name, and it goes on again
    have hlevel : level < s₁.precedence := by
      by_contra hstop
      rw [operatorsFrom, view_precedence, if_neg hstop] at hwhole
      cases hwhole
      exact hname hn
    obtain ⟨hlead, hsame⟩ := (primary_steady h).ok hs (primary_eq_ok.2 hfirst)
    have hset := settled_of_lt (hlead.ended hs) hlevel
    have hprimary := primary_eq_ok.2 hfirst'
    rw [hsame hset] at hprimary
    cases hprimary
    exact operatorsFrom_notName (.inr (by rwa [precedence_append hset.ne_nil])) hwhole'

/-! ## Forms -/

omit h in
theorem startsOtherwise_append (hset : s.Settled) :
    startsOtherwise (s ++ x) = startsOtherwise s := by
  obtain ⟨upcoming, last⟩ := s
  obtain ⟨more, e⟩ := x
  show startsOtherwise ⟨upcoming ++ more, e⟩ = _
  rcases upcoming with _ | ⟨a, _ | ⟨b, _ | ⟨c, rest⟩⟩⟩
  · simp [Settled] at hset
  · have ha : a.kind ≠ .si := by
      intro ha
      simp [Settled, ha] at hset
    simp [startsOtherwise, ha]
  · have hab : ¬ (a.kind = .si ∧ b.kind = .no) := by
      rintro ⟨ha, hb⟩
      simp [Settled, ha, hb] at hset
    by_cases ha : a.kind = .si <;> simp_all [startsOtherwise]
  · rfl

theorem alternative_steady : Steady x (alternative sub) := by
  have hblock : Steady x (some <$> sub.block) := .bind h.block fun _ => .pure _
  refine .bind (.accept _) fun _ => .ite hblock (.choose (fun _ => .ite ?_ (.pure _)) ?_ ?_)
  · exact .bind .advance fun _ => .bind .advance fun _ => .bind .advance fun _ => hblock
  · intro s s' a _ _ hlead hset
    rw [startsOtherwise_append (hset.of_leadsTo hlead)]
  · intro s hthree
    rw [startsOtherwise_append (.of_remaining hthree)]

/-- The rule for a form that starts at the front of the stream. -/
def formAt (sub : Nested TokenStream) (s : TokenStream) : Parse TokenStream Node :=
  if s.current.kind = .identifier && s.peek.kind = .assign then assignment sub
  else if s.current.kind = .si then conditional sub
  else if s.current.kind = .mientras then loop sub
  else sub.expression .lowest

omit h in
theorem formAt_append (hne : s.upcoming ≠ [])
    (hpeek : s.current.kind = .identifier → 2 ≤ s.remaining) :
    formAt sub (s ++ x) = formAt sub s := by
  unfold formAt
  rw [current_append hne]
  by_cases hname : s.current.kind = .identifier
  · rw [peek_append (hpeek hname)]
  · simp only [hname, decide_false, Bool.false_and]

theorem formAt_steady (s : TokenStream) : Steady x (formAt sub s) := by
  refine .ite ?_ (.ite ?_ (.ite ?_ (h.expression _)))
  · exact .bind .current fun _ => .bind .advance fun _ => .bind .advance fun _ =>
      .bind (h.expression _) fun _ => .pure _
  · exact .bind .current fun _ => .bind .advance fun _ => .bind (h.expression _) fun _ =>
      .bind h.block fun _ => .bind (alternative_steady h) fun _ => .pure _
  · exact .bind .current fun _ => .bind .advance fun _ => .bind (h.expression _) fun _ =>
      .bind h.block fun _ => .pure _

theorem form_steady (hsub : sub.Reads) : Steady x (form sub) := by
  refine .bind .skipPoints fun _ => .choose (formAt_steady h) ?_ ?_
  · intro s s' n hs hrun hlead hset
    refine formAt_append (hset.of_leadsTo hlead).ne_nil fun hname => ?_
    -- a token was read, and there are others left
    have hform : (form sub).run s = .ok n s' := by
      rw [← hrun]
      simp only [form, Attempt.run_bind, run_skipPoints, Attempt.run_state,
        TokenStream.skipPoints_eq_self (s := s) (by simp [hname])]
    obtain ⟨hread, hnode⟩ := form_reads hsub hs hform
    have hlt := hread.remaining_lt hnode
    have hpos : 0 < s'.remaining := List.length_pos_iff.2 hset.ne_nil
    omega
  · intro s hthree
    exact formAt_append (Settled.of_remaining hthree).ne_nil fun _ => by omega

theorem block_steady (hsub : sub.Reads) : Steady x (block sub) := by
  have hform := form_steady h hsub
  refine .bind .current fun _ => .bind (.accept _) fun _ => .ite ?_ (.bind hform fun _ => .pure _)
  exact .bind .skipPoints fun _ =>
    .bind (.manyTill _ (.bind hform fun _ => .bind .skipPoints fun _ => .pure _)) fun _ =>
      .bind (.expect _ _) fun _ => .pure _

end Rules

/-- At every depth, expressions and blocks are steady. -/
theorem nested_steady (x : TokenStream) (limit : Nat) : (nested limit).Steady x := by
  induction limit with
  | zero =>
    have htooDeep : ∀ {α : Type}, Steady x (Attempt.fail .tooDeep : Parse TokenStream α) := by
      refine ⟨?_, ?_⟩
      · intro s s' a _ h
        cases h
      · intro s s' e _ h
        cases h
    refine ⟨fun _ => htooDeep, htooDeep, ?_⟩
    intro level s s' s'' n n' _ h
    cases h
  | succ limit ih =>
    exact ⟨expression_steady ih, block_steady ih (nested_reads limit), expression_notName ih⟩

/-- Where a form can be read, the tokens left are settled. -/
theorem form_settled {limit : Nat} (hs : s.Ended)
    (hrun : (form (nested limit)).run s = .ok n s') : s.Settled := by
  have hskip := (LeadsTo.skipPoints s).ended hs
  have hreads := nested_reads limit
  obtain ⟨hread, hnode⟩ := (form_eq_ok.1 hrun).reads hreads hskip
  have hne := hread.upcoming_ne_nil hnode
  refine Settled.of_leadsTo ?_ (.skipPoints s)
  have hadvance := s.skipPoints.remaining_advance_lt hne
  have hnext := (LeadsTo.advance s.skipPoints).ended hskip
  cases form_eq_ok.1 hrun with
  | assignment hkind _ _ => exact .of_kind hne (by simp [hkind]) (by simp [hkind])
  | @conditional _ _ _ s₁ _ _ hkind hcondition hconsequence _ =>
    -- the keyword, the condition and the block are three tokens at least
    obtain ⟨hread₁, hnode₁⟩ := hreads.expression hnext hcondition
    have hlt := hread₁.remaining_lt hnode₁
    have hne₁ := (nested_absorbs s₁.last limit).block_ne_nil ⟨hread₁.ended hnext, rfl⟩ hconsequence
    have hpos : 0 < s₁.remaining := List.length_pos_iff.2 hne₁
    exact .of_remaining (by omega)
  | loop hkind _ _ => exact .of_kind hne (by simp [hkind]) (by simp [hkind])
  | expression _ hsi _ hexpression =>
    cases limit with
    | zero => cases hexpression
    | succ limit =>
      obtain ⟨first, s₁, s₂, hfirst, -, -⟩ := expression_eq_ok.1 hexpression
      rw [TokenStream.skipPoints_skipPoints] at hfirst
      by_cases hno : s.skipPoints.current.kind = .no
      · -- `no` has an operand
        cases hfirst with
        | not _ _ hoperand =>
          obtain ⟨hread₁, hnode₁⟩ := (nested_reads limit).expression hnext hoperand
          have hlt := hread₁.remaining_lt hnode₁
          exact .of_two (by omega) hsi
        | _ => simp_all
      · exact .of_kind hne hsi hno

end Grammar

end Castellano
