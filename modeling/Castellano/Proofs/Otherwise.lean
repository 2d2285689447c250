import Castellano.Proofs.Buffer
import Castellano.Proofs.ReadBack
import Castellano.Proofs.Respelling
import Castellano.Proofs.Windows

/-!
# The two spellings of an alternative

The other block of a conditional stands behind `sino` or behind `si no entonces`. The two can be
exchanged in every source. Where an alternative is expected, both lead to the same block. Everywhere
else both are errors: no form starts with `sino`, and one that starts with `si no entonces` lacks
its condition.

* `TokenStream.SpelledOut`: a stream with some `sino` replaced by the three words.
* `Parse.Agrees`: a step does the same on both streams, or fails on both; closed under sequencing
  and repetition. `Parse.AgreesInFront`: where both start with the same token.
* `Grammar.nested_agrees`, `Grammar.form_agrees`: at every depth, all rules agree.
* `Layout.SpellsOut`: a layout with some `sino` replaced, `Layout.spelledOut`: with all of them.
* `otherwise_spellings_agree`: both sources have the same forms, and both are faulty or neither is.
-/

namespace Castellano

/-! ## Streams -/

namespace TokenStream

/-- The second stream is the first with some `sino` replaced by `si no entonces`. -/
inductive SpelledOut : TokenStream → TokenStream → Prop
  | ended {last : Token} (h : last.kind = .endOfInput) : SpelledOut ⟨[], last⟩ ⟨[], last⟩
  | keep {t : Token} {ts us : List Token} {last : Token} (ht : t.kind ≠ .endOfInput)
    (h : SpelledOut ⟨ts, last⟩ ⟨us, last⟩) : SpelledOut ⟨t :: ts, last⟩ ⟨t :: us, last⟩
  | replace {ts us : List Token} {last : Token} (h : SpelledOut ⟨ts, last⟩ ⟨us, last⟩) :
    SpelledOut ⟨.word "sino" :: ts, last⟩
      ⟨.word "si" :: .word "no" :: .word "entonces" :: us, last⟩

/-- Both streams start with the same token. -/
structure SameFront (s s' : TokenStream) : Prop where
  spelledOut : s.SpelledOut s'
  current : s'.current = s.current
  advance : s.advance.SpelledOut s'.advance

/-- One stream starts with `sino` and the other with `si no entonces`. -/
structure OtherFront (s s' : TokenStream) : Prop where
  sino : s.current.kind = .sino
  otherwise : Grammar.startsOtherwise s'
  advance : s.advance.SpelledOut s'.advance.advance.advance

variable {s s' : TokenStream}

theorem OtherFront.si (h : s.OtherFront s') : s'.current.kind = .si :=
  (Grammar.startsOtherwise_iff.1 h.otherwise).1

namespace SpelledOut

theorem front (h : s.SpelledOut s') : s.SameFront s' ∨ s.OtherFront s' := by
  cases h with
  | ended hlast => exact .inl ⟨.ended hlast, rfl, .ended hlast⟩
  | keep ht h => exact .inl ⟨.keep ht h, rfl, h⟩
  | replace h => exact .inr ⟨rfl, rfl, h⟩

theorem sameFront (h : s.SpelledOut s') (hk : s.current.kind ≠ .sino) : s.SameFront s' := by
  rcases h.front with hsame | hother
  · exact hsame
  · exact absurd hother.sino hk

theorem ended_left (h : s.SpelledOut s') : s.Ended := by
  induction h with
  | ended hlast => exact ⟨by simp, hlast⟩
  | keep ht h ih => exact ⟨List.forall_mem_cons.2 ⟨ht, ih.upcoming⟩, ih.last⟩
  | replace h ih => exact ⟨List.forall_mem_cons.2 ⟨by decide, ih.upcoming⟩, ih.last⟩

theorem ended_right (h : s.SpelledOut s') : s'.Ended := by
  induction h with
  | ended hlast => exact ⟨by simp, hlast⟩
  | keep ht h ih => exact ⟨List.forall_mem_cons.2 ⟨ht, ih.upcoming⟩, ih.last⟩
  | replace h ih =>
    have hwords : ∀ t ∈ [Token.word "si", .word "no", .word "entonces"],
        t.kind ≠ .endOfInput := by decide
    exact ⟨List.forall_mem_append.2 ⟨hwords, ih.upcoming⟩, ih.last⟩

/-- Apart from the words in question, both streams start with the same kinds of tokens. -/
theorem kind_iff (h : s.SpelledOut s') {kind : TokenKind} (hkind : kind ≠ .sino ∧ kind ≠ .si) :
    s'.current.kind = kind ↔ s.current.kind = kind := by
  rcases h.front with hsame | hother
  · rw [hsame.current]
  · rw [hother.sino, hother.si]
    exact iff_of_false hkind.2.symm hkind.1.symm

theorem position_current (h : s.SpelledOut s') : s'.current.position = s.current.position := by
  cases h <;> rfl

theorem precedence_eq (h : s.SpelledOut s') : s'.precedence = s.precedence := by
  cases h <;> rfl

theorem upcoming_eq_nil_iff (h : s.SpelledOut s') : s'.upcoming = [] ↔ s.upcoming = [] := by
  cases h <;> simp

theorem skipPoints (h : s.SpelledOut s') : s.skipPoints.SpelledOut s'.skipPoints := by
  induction h with
  | ended hlast => exact .ended hlast
  | @keep t ts us last ht h ih =>
    by_cases hpoint : t.kind = .point
    · simpa [TokenStream.skipPoints, hpoint] using ih
    · rw [skipPoints_eq_self (by simpa using hpoint), skipPoints_eq_self (by simpa using hpoint)]
      exact .keep ht h
  | replace h ih => exact .replace h

end SpelledOut

namespace SameFront

theorem startsOtherwise_iff (h : s.SameFront s') :
    Grammar.startsOtherwise s' ↔ Grammar.startsOtherwise s := by
  rw [Grammar.startsOtherwise_iff, Grammar.startsOtherwise_iff, h.current,
    h.advance.kind_iff (by decide)]
  refine and_congr_right fun _ => and_congr_right fun hno => ?_
  exact (h.advance.sameFront (by simp [hno])).advance.kind_iff (by decide)

theorem advance_otherwise (h : s.SameFront s') (hs : Grammar.startsOtherwise s) :
    s.advance.advance.advance.SpelledOut s'.advance.advance.advance := by
  obtain ⟨-, hno, hentonces⟩ := Grammar.startsOtherwise_iff.1 hs
  have hsecond := h.advance.sameFront (by simp [hno])
  exact (hsecond.advance.sameFront (by simp [hentonces])).advance

end SameFront

end TokenStream

open TokenStream

/-! ## Steps -/

/-- Both runs succeed with the same result and leave streams of the same kind, or both fail. -/
inductive Alike {α : Type} : Attempt.Result Failure TokenStream α →
    Attempt.Result Failure TokenStream α → Prop
  | ok {a : α} {s s' : TokenStream} (h : s.SpelledOut s') : Alike (.ok a s) (.ok a s')
  | error {e e' : Failure} {s s' : TokenStream} : Alike (.error e s) (.error e' s')

namespace Parse

variable {α β : Type}

/-- The step fails. -/
def FailsAt (x : Parse TokenStream α) (s : TokenStream) : Prop := ∃ e s₁, x.run s = .error e s₁

theorem FailsAt.bind {x : Parse TokenStream α} {f : α → Parse TokenStream β} {s : TokenStream}
    (h : x.FailsAt s) :
    (x >>= f).FailsAt s := by
  obtain ⟨e, s₁, hrun⟩ := h
  exact ⟨e, s₁, by rw [Attempt.run_bind, hrun]⟩

theorem FailsAt.alike {x y : Parse TokenStream α} {s s' : TokenStream} (hx : x.FailsAt s)
    (hy : y.FailsAt s') :
    Alike (x.run s) (y.run s') := by
  obtain ⟨e, s₁, hx⟩ := hx
  obtain ⟨e', s₁', hy⟩ := hy
  rw [hx, hy]
  exact .error

/-- The step does the same on both streams. -/
def Agrees (x : Parse TokenStream α) : Prop :=
  ∀ ⦃s s' : TokenStream⦄, s.SpelledOut s' → Alike (x.run s) (x.run s')

/-- The step does the same on both streams if they start with the same token. -/
def AgreesInFront (x : Parse TokenStream α) : Prop :=
  ∀ ⦃s s' : TokenStream⦄, s.SameFront s' → Alike (x.run s) (x.run s')

/-- Steps one after the other; the second may be known to follow the first. -/
theorem alike_bind {x : Parse TokenStream α} {f f' : α → Parse TokenStream β} {s s' : TokenStream}
    (hx : Alike (x.run s) (x.run s'))
    (hf : ∀ a s₁ s₁', x.run s = .ok a s₁ → s₁.SpelledOut s₁' →
      Alike ((f a).run s₁) ((f' a).run s₁')) :
    Alike ((x >>= f).run s) ((x >>= f').run s') := by
  rw [Attempt.run_bind, Attempt.run_bind]
  generalize hr : x.run s = r at hx
  generalize x.run s' = r' at hx
  cases hx with
  | ok h => exact hf _ _ _ hr h
  | error => exact .error

namespace Agrees

theorem inFront {x : Parse TokenStream α} (h : Agrees x) : AgreesInFront x :=
  fun _ _ hs => h hs.spelledOut

theorem pure (a : α) : Agrees (pure a) := fun _ _ h => .ok h

theorem fail (fault : GrammarFault) : Agrees (fail fault : Parse TokenStream α) :=
  fun _ _ _ => .error

theorem skipPoints : Agrees skipPoints := fun _ _ h => .ok h.skipPoints

theorem bind {x : Parse TokenStream α} {f : α → Parse TokenStream β} (hx : Agrees x)
    (hf : ∀ a, Agrees (f a)) :
    Agrees (x >>= f) :=
  fun _ _ h => alike_bind (hx h) fun a _ _ _ h₁ => hf a h₁

theorem ite {c : Prop} [Decidable c] {x y : Parse TokenStream α} (hx : Agrees x) (hy : Agrees y) :
    Agrees (if c then x else y) := by
  split
  · exact hx
  · exact hy

/-- A choice by the kind of the current token. -/
theorem iteKind {kind : TokenKind} (hkind : kind ≠ .sino ∧ kind ≠ .si) {x y : Parse TokenStream α}
    (hx : AgreesInFront x) (hy : Agrees y) :
    Agrees (do if (← current).kind = kind then x else y) := by
  intro s s' h
  show Alike ((if s.current.kind = kind then x else y).run s)
    ((if s'.current.kind = kind then x else y).run s')
  by_cases hs : s.current.kind = kind
  · rw [if_pos hs, if_pos ((h.kind_iff hkind).2 hs)]
    exact hx (h.sameFront fun hsino => hkind.1 (hs.symm.trans hsino))
  · rw [if_neg hs, if_neg fun hs' => hs ((h.kind_iff hkind).1 hs')]
    exact hy h

end Agrees

namespace AgreesInFront

theorem current {f : Token → Parse TokenStream α} (hf : ∀ t, AgreesInFront (f t)) :
    AgreesInFront (current >>= f) := by
  intro s s' h
  show Alike ((f s.current).run s) ((f s'.current).run s')
  rw [h.current]
  exact hf _ h

theorem advance {x : Parse TokenStream α} (hx : Agrees x) : AgreesInFront (do advance; x) :=
  fun _ _ h => hx h.advance

end AgreesInFront

namespace Agrees

theorem bind_current {f : Token → Parse TokenStream α}
    (hf : ∀ ⦃s s' : TokenStream⦄, s.SpelledOut s' →
      Alike ((f s.current).run s) ((f s'.current).run s')) : Agrees (Parse.current >>= f) := hf

/-- A step that looks at the current token first. -/
theorem current {f : Token → Parse TokenStream α} (hf : ∀ t, AgreesInFront (f t))
    (hother : ∀ ⦃s s' : TokenStream⦄, s.OtherFront s' →
      Alike ((f s.current).run s) ((f s'.current).run s')) : Agrees (current >>= f) := by
  refine bind_current fun s s' h => ?_
  rcases h.front with hsame | hfront
  · exact AgreesInFront.current hf hsame
  · exact hother hfront

theorem accept {kind : TokenKind} (hkind : kind ≠ .sino ∧ kind ≠ .si) : Agrees (accept kind) :=
  iteKind hkind (.advance (.pure _)) (.pure _)

theorem expect {kind : TokenKind} (hkind : kind ≠ .sino ∧ kind ≠ .si) (fault : GrammarFault) :
    Agrees (expect kind fault) := by
  intro s s' h
  rw [run_expect, run_expect]
  by_cases hs : s.current.kind = kind
  · have hfront := h.sameFront fun hsino => hkind.1 (hs.symm.trans hsino)
    rw [if_pos hs, hfront.current, if_pos hs]
    exact .ok hfront.advance
  · rw [if_neg hs, if_neg fun hs' => hs ((h.kind_iff hkind).1 hs')]
    exact .error

theorem manyTill {stop : TokenKind → Bool} (hstop : stop .sino = false ∧ stop .si = false)
    {x : Parse TokenStream α} (hx : Agrees x) (hconsumes : Consumes x) :
    Agrees (manyTill stop x) := by
  intro s s' h
  induction hn : s.remaining using Nat.strongRecOn generalizing s s' with
  | ind n ih =>
    have hsame : stop s'.current.kind = stop s.current.kind := by
      rcases h.front with hsame | hother
      · rw [hsame.current]
      · rw [hother.sino, hother.si, hstop.1, hstop.2]
    by_cases hs : stop s.current.kind
    · show Alike (manyTillFrom stop x s) (manyTillFrom stop x s')
      rw [manyTillFrom_stop hs, manyTillFrom_stop (by rwa [hsame])]
      exact .ok h
    · rw [hconsumes.manyTill_run h.ended_left hs,
        hconsumes.manyTill_run h.ended_right (by rwa [hsame])]
      refine alike_bind (hx h) fun a s₁ s₁' hrun h₁ => alike_bind ?_ fun as _ _ _ h₂ => .ok h₂
      exact ih _ (hn ▸ hconsumes h.ended_left hrun) h₁ rfl

end Agrees

end Parse

/-! ## Rules -/

namespace Grammar

open Parse

theorem primary_failsAt {sub : Nested TokenStream} {s : TokenStream}
    (h : s.current.kind = .sino ∨ s.current.kind = .entonces) : (primary sub).FailsAt s := by
  refine ⟨.error ⟨.unexpectedToken s.current.lexeme, s.current⟩, s, ?_⟩
  rcases h with h | h <;> simp [primary, TokenStream.skipPoints_eq_self (s := s) (by simp [h]), h]

/-- What stands inside agrees, and no expression starts with `sino`, `entonces` or `no entonces`. -/
structure Nested.Agrees (sub : Nested TokenStream) : Prop where
  expression : ∀ level, Parse.Agrees (sub.expression level)
  block : Parse.Agrees sub.block
  failsAt : ∀ level {s : TokenStream}, s.current.kind = .sino ∨ s.current.kind = .entonces →
    (sub.expression level).FailsAt s
  failsAt_no : ∀ {s : TokenStream}, s.current.kind = .no → s.peek.kind = .entonces →
    (sub.expression .lowest).FailsAt s

section Rules

variable {sub : Nested TokenStream} (h : sub.Agrees) (hforward : sub.Forward) (hreads : sub.Reads)

include h

theorem parameter_agrees : Agrees (parameter sub) := by
  refine .bind_current fun s s' hs => alike_bind (h.expression _ hs) fun n s₁ s₁' _ h₁ => ?_
  cases n with
  | identifier => exact .ok h₁
  | _ => exact .error

theorem alternative_agrees : Agrees (alternative sub) := by
  have hblock : Agrees (do return some (← sub.block) : Parse TokenStream (Option (Block Node))) :=
    .bind h.block fun _ => .pure _
  intro s s' hs
  rcases hs.front with hsame | hother
  · by_cases hsino : s.current.kind = .sino
    · rw [alternative_run_sino hsino, alternative_run_sino (by rwa [hsame.current])]
      exact hblock hsame.advance
    by_cases hother : startsOtherwise s
    · rw [alternative_run_otherwise hother,
        alternative_run_otherwise (hsame.startsOtherwise_iff.2 hother)]
      exact hblock (hsame.advance_otherwise hother)
    · rw [alternative_eq_ok.2 (.none hsino hother), alternative_eq_ok.2
        (.none (by rwa [hsame.current]) fun hs' => hother (hsame.startsOtherwise_iff.1 hs'))]
      exact .ok hs
  · rw [alternative_run_sino hother.sino, alternative_run_otherwise hother.otherwise]
    exact hblock hother.advance

/-- No form starts with `sino`, nor with `si no entonces`. -/
theorem form_otherFront {s s' : TokenStream} (hs : s.OtherFront s') :
    Alike ((form sub).run s) ((form sub).run s') := by
  have hsino : (form sub).FailsAt s := by
    rw [FailsAt, form_run_expression (by simp [hs.sino]) (by simp [hs.sino]) (by simp [hs.sino])
      (by simp [hs.sino])]
    exact h.failsAt .lowest (.inl hs.sino)
  have hsi : (form sub).FailsAt s' := by
    obtain ⟨hsi, hno, hentonces⟩ := startsOtherwise_iff.1 hs.otherwise
    rw [TokenStream.current_advance] at hentonces
    obtain ⟨e, s₁, hrun⟩ := h.failsAt_no hno hentonces
    exact ⟨e, s₁, by simp [form_run, TokenStream.skipPoints_eq_self (s := s') (by simp [hsi]), hsi,
      conditional, hrun]⟩
  exact hsino.alike hsi

theorem assignment_agrees {s s' : TokenStream} (hs : s.SameFront s')
    (hassign : s.peek.kind = .assign) :
    Alike ((assignment sub).run s) ((assignment sub).run s') := by
  have hvalue : s.advance.advance.SpelledOut s'.advance.advance := by
    rw [← TokenStream.current_advance] at hassign
    exact (hs.advance.sameFront (by simp [hassign])).advance
  simp only [assignment, Attempt.run_bind, run_current, run_advance, hs.current]
  exact alike_bind (h.expression _ hvalue) fun _ _ _ _ h₁ => .ok h₁

theorem conditional_agrees : AgreesInFront (conditional sub) :=
  .current fun _ => .advance (.bind (h.expression _) fun _ => .bind h.block fun _ =>
    .bind (alternative_agrees h) fun _ => .pure _)

theorem loop_agrees : AgreesInFront (loop sub) :=
  .current fun _ => .advance (.bind (h.expression _) fun _ => .bind h.block fun _ => .pure _)

theorem form_agrees : Agrees (form sub) := by
  intro s s' hs
  rcases hs.skipPoints.front with hsame | hother
  · have hpeek : s'.skipPoints.peek.kind = .assign ↔ s.skipPoints.peek.kind = .assign := by
      rw [← TokenStream.current_advance, ← TokenStream.current_advance]
      exact hsame.advance.kind_iff (by decide)
    rw [form_run, form_run, hsame.current]
    simp only [hpeek]
    split
    · rename_i hassign
      exact assignment_agrees h hsame hassign.2
    · split
      · exact conditional_agrees h hsame
      · split
        · exact loop_agrees h hsame
        · exact h.expression _ hsame.spelledOut
  · rw [← form_run_skipPoints, ← form_run_skipPoints (s := s')]
    exact form_otherFront h hother

include hreads in
theorem block_agrees : Agrees (block sub) := by
  have hform : Agrees (blockForm sub) :=
    .bind (form_agrees h) fun _ => .bind .skipPoints fun _ => .pure _
  have hconsumes : Consumes (blockForm sub) :=
    .first (form_consumes hreads) fun _ => .bind .skipPoints fun _ => .pure _
  refine .bind_current fun s s' hs => ?_
  rw [hs.position_current]
  exact Agrees.bind (.accept (by decide)) (fun _ => .ite
    (.bind .skipPoints fun _ => .bind (.manyTill (by decide) hform hconsumes) fun _ =>
      .bind (.expect (by decide) _) fun _ => .pure _)
    (.bind (form_agrees h) fun _ => .pure _)) hs

include hreads

omit h in
theorem parameter_consumes : Consumes (parameter sub) := by
  refine .second .current fun _ => .first (expression_consumes hreads _) fun n => ?_
  cases n with
  | identifier => exact .pure _
  | _ => exact .refl

theorem function_agrees : AgreesInFront (function sub) :=
  .current fun _ => .advance (.bind (.expect (by decide) _) fun _ =>
    .bind (.manyTill (by decide) (parameter_agrees h) (parameter_consumes hreads))
      fun _ => .bind (.expect (by decide) _) fun _ => .bind h.block fun _ => .pure _)

theorem primary_agrees : Agrees (primary sub) := by
  refine .bind .skipPoints fun _ => .current (fun token => ?_) fun s s' hs => ?_
  · split
    case h_1 | h_2 | h_3 | h_4 => exact .advance (.pure _)
    case h_5 =>
      exact .advance (.bind (h.expression _) fun _ => .bind (.expect (by decide) _) fun _ =>
        .pure _)
    case h_6 | h_7 =>
      exact .advance (.iteKind (by decide) (Agrees.fail _).inFront
        (.bind (h.expression _) fun _ => .pure _))
    case h_8 => exact function_agrees h hreads
    case h_9 | h_10 => exact (Agrees.fail _).inFront
  · simp only [hs.sino, hs.si]
    exact .error

theorem extend_agrees (left : Node) : AgreesInFront (extend sub left) := by
  refine .current fun token => ?_
  split
  · cases left with
    | identifier p name =>
      exact .advance (.bind (.manyTill (by decide) (h.expression _) (expression_consumes hreads _))
        fun _ => .bind (.expect (by decide) _) fun _ => .pure _)
    | _ => exact (Agrees.fail _).inFront
  · exact .current fun _ => .advance (.bind (h.expression _) fun _ => .pure _)

include hforward

theorem operators_agrees (level : Precedence) (left : Node) :
    Agrees (operators sub level left) := by
  intro s s' hs
  induction hn : s.remaining using Nat.strongRecOn generalizing left s s' with
  | ind n ih =>
    by_cases hlevel : level < s.precedence
    · have hsino : s.current.kind ≠ .sino := by
        intro hsino
        rw [TokenStream.precedence, hsino] at hlevel
        exact not_lt_lowest level hlevel
      rw [operators_run hforward hreads left hs.ended_left hlevel,
        operators_run hforward hreads left hs.ended_right (by rwa [hs.precedence_eq])]
      refine alike_bind (extend_agrees h hreads left (hs.sameFront hsino))
        fun extended s₁ s₁' hrun h₁ => ?_
      exact ih _ (hn ▸ extend_consumes hforward hreads left hs.ended_left hrun) extended h₁ rfl
    · rw [operators_stop hlevel, operators_stop (by rwa [hs.precedence_eq])]
      exact .ok hs

theorem expression_agrees (level : Precedence) : Agrees (expression sub level) :=
  .bind (primary_agrees h hreads) fun first =>
    .bind (operators_agrees h hforward hreads level first) fun _ =>
      .bind (.accept (by decide)) fun _ => .pure _

end Rules

/-- At every depth, expressions and blocks agree. -/
theorem nested_agrees (limit : Nat) : (nested limit).Agrees := by
  induction limit with
  | zero =>
    exact ⟨fun _ _ _ _ => .error, fun _ _ _ => .error, fun _ _ _ => ⟨_, _, rfl⟩,
      fun _ _ => ⟨_, _, rfl⟩⟩
  | succ limit ih =>
    refine ⟨expression_agrees ih (nested_forward limit) (nested_reads limit),
      block_agrees ih (nested_reads limit), fun level s hs => (primary_failsAt hs).bind,
      fun {s} hno hentonces => ?_⟩
    have hprimary : (primary (nested limit)).FailsAt s := by
      rw [← TokenStream.current_advance] at hentonces
      rw [FailsAt, primary_run_no hno (by simp [hentonces])]
      exact (ih.failsAt .call (.inr hentonces)).bind
    exact hprimary.bind

/-- The forms of both streams are the same, and both lists of forms end with a failure or neither
    does. -/
theorem forms_agree (limit : Nat) {s s' : TokenStream} (hs : s.SpelledOut s') :
    (forms (nested limit) s).1 = (forms (nested limit) s').1 ∧
      ((forms (nested limit) s).2.1 = none ↔ (forms (nested limit) s').2.1 = none) := by
  induction hn : s.remaining using Nat.strongRecOn generalizing s s' with
  | ind n ih =>
    have hreads := nested_reads limit
    have hnil := hs.skipPoints.upcoming_eq_nil_iff
    by_cases hend : s.skipPoints.upcoming = []
    · rw [forms_of_end ⟨hs.ended_left, rfl⟩ hend, forms_of_end ⟨hs.ended_right, rfl⟩ (hnil.2 hend)]
      exact ⟨rfl, Iff.rfl⟩
    · have hform := form_agrees (nested_agrees limit) hs
      generalize hrun : (form (nested limit)).run s = r at hform
      generalize hrun' : (form (nested limit)).run s' = r' at hform
      cases hform with
      | ok h₁ =>
        rw [forms_of_ok hreads ⟨hs.ended_left, rfl⟩ hrun,
          forms_of_ok hreads ⟨hs.ended_right, rfl⟩ hrun']
        obtain ⟨hforms, hnone⟩ :=
          ih _ (hn ▸ form_consumes hreads hs.ended_left hrun) h₁ rfl
        exact ⟨by rw [hforms], hnone⟩
      | error =>
        rw [forms_eq_nil_of_error hrun, forms_eq_nil_of_error hrun']
        exact ⟨rfl, iff_of_false (forms_of_error ⟨hs.ended_left, rfl⟩ hend hrun)
          (forms_of_error ⟨hs.ended_right, rfl⟩ (mt hnil.1 hend) hrun')⟩

end Grammar

/-! ## Sources -/

namespace Token.IsRead

variable {t : Token}

theorem kind_ne_endOfInput (h : t.IsRead) : t.kind ≠ .endOfInput := by
  cases h with
  | number h => simp
  | word h => exact TokenKind.ofWord_ne_endOfInput _
  | assign => decide
  | sign hs hw => exact TokenKind.ofSign_ne_endOfInput _

/-- There is one way to spell `sino`. -/
theorem eq_sino (h : t.IsRead) (hk : t.kind = .sino) : t = .word "sino" := by
  cases h with
  | number h => cases hk
  | @word w h =>
    obtain hkey | ⟨-, hidentifier⟩ := ofWord_cases w
    · have hkeywords : ∀ entry ∈ TokenKind.keywords, entry.2 = .sino → entry.1 = "sino" := by
        decide
      exact congrArg Token.word (hkeywords _ hkey hk)
    · rw [Token.word, hidentifier] at hk
      cases hk
  | assign => cases hk
  | @sign ch hs hw =>
    have hsign : TokenKind.ofSign ch ≠ .sino := by
      unfold TokenKind.ofSign
      split <;> simp
    exact absurd hk hsign

end Token.IsRead

/-- Spacing, and some of it. -/
def IsGap (gap : List Char) : Prop := gap ≠ [] ∧ gap.all Token.isSpacing

instance (gap : List Char) : Decidable (IsGap gap) := inferInstanceAs (Decidable (_ ∧ _))

/-- The second row of pieces is the first with some `sino` replaced by `si no entonces`, with any
    spacing between the words. -/
inductive SpellsOut : List Piece → List Piece → Prop
  | nil : SpellsOut [] []
  | keep (p : Piece) {ps qs : List Piece} (h : SpellsOut ps qs) : SpellsOut (p :: ps) (p :: qs)
  | replace {gap first second : List Char} {ps qs : List Piece} (hfirst : IsGap first)
    (hsecond : IsGap second) (h : SpellsOut ps qs) :
    SpellsOut (⟨.word "sino", gap⟩ :: ps)
      (⟨.word "si", first⟩ :: ⟨.word "no", second⟩ :: ⟨.word "entonces", gap⟩ :: qs)

namespace SpellsOut

variable {ps qs : List Piece}

theorem head?_textOf_word {w : String} {c : Char} (h : w.toList.head? = some c) (gap : List Char)
    (pieces : List Piece) : (textOf (⟨.word w, gap⟩ :: pieces)).head? = some c := by
  rw [textOf_cons, List.head?_append, Token.word, h]
  rfl

theorem head?_textOf (h : SpellsOut ps qs) : (textOf qs).head? = (textOf ps).head? := by
  induction h with
  | nil => rfl
  | keep p h ih => simp only [textOf_cons, List.head?_append, ih]
  | replace hfirst hsecond h ih =>
    exact (head?_textOf_word rfl _ _).trans (head?_textOf_word (c := 's') rfl _ _).symm

theorem wellSpaced_gap {w : String} (hw : IsWord w) {gap : List Char} (hgap : IsGap gap)
    {pieces : List Piece} (h : WellSpaced pieces) : WellSpaced (⟨.word w, gap⟩ :: pieces) := by
  have hspacing := List.all_eq_true.1 hgap.2
  refine .cons (.word hw) hspacing (fun ch hch => ?_) h
  obtain ⟨first, rest, rfl⟩ := List.exists_cons_of_ne_nil hgap.1
  obtain rfl : first = ch := Option.some.inj hch
  rw [Token.continuedBy_of_isSpacing _ (hspacing first (by simp))]
  simp

theorem wellSpaced (h : SpellsOut ps qs) (hps : WellSpaced ps) : WellSpaced qs := by
  induction h with
  | nil => exact .nil
  | @keep p ps qs h ih =>
    cases hps with
    | cons ht hgap hnext hpieces =>
      refine .cons ht hgap ?_ (ih hpieces)
      rwa [List.head?_append, h.head?_textOf, ← List.head?_append]
  | @replace gap first second ps qs hfirst hsecond h ih =>
    cases hps with
    | cons ht hgap hnext hpieces =>
      refine wellSpaced_gap (by decide) hfirst (wellSpaced_gap (by decide) hsecond ?_)
      refine .cons (.word (by decide)) hgap (fun ch hch => ?_) (ih hpieces)
      rw [List.head?_append, h.head?_textOf, ← List.head?_append] at hch
      have hsino := hnext ch hch
      rwa [Token.continuedBy_word (by decide)] at hsino ⊢

/-- The tokens of such pieces. -/
theorem stream (h : SpellsOut ps qs) (hps : WellSpaced ps) {last : Token}
    (hlast : last.kind = .endOfInput) :
    TokenStream.SpelledOut ⟨ps.map Piece.token, last⟩ ⟨qs.map Piece.token, last⟩ := by
  induction h with
  | nil => exact .ended hlast
  | keep p h ih =>
    cases hps with
    | cons ht _ _ hpieces => exact .keep ht.kind_ne_endOfInput (ih hpieces)
  | replace _ _ h ih =>
    cases hps with
    | cons _ _ _ hpieces => exact .replace (ih hpieces)

end SpellsOut

/-- The piece with `si no entonces` in place of `sino`. -/
def Piece.spelledOut (p : Piece) : List Piece :=
  if p.token.kind = .sino then
    [⟨.word "si", [' ']⟩, ⟨.word "no", [' ']⟩, ⟨.word "entonces", p.gap⟩]
  else [p]

theorem spellsOut_flatMap {ps : List Piece} (h : WellSpaced ps) :
    SpellsOut ps (ps.flatMap Piece.spelledOut) := by
  have hgap : IsGap [' '] := by decide
  induction h with
  | nil => exact .nil
  | @cons t gap pieces ht _ _ _ ih =>
    rw [List.flatMap_cons, Piece.spelledOut]
    split
    · rename_i hsino
      rw [ht.eq_sino hsino]
      exact .replace hgap hgap ih
    · exact .keep _ ih

theorem kind_ne_sino_of_mem_spelledOut {ps : List Piece} {p : Piece}
    (h : p ∈ ps.flatMap Piece.spelledOut) : p.token.kind ≠ .sino := by
  obtain ⟨q, -, hp⟩ := List.mem_flatMap.1 h
  rw [Piece.spelledOut] at hp
  split at hp
  · have hwords : ∀ w ∈ ["si", "no", "entonces"], (Token.word w).kind ≠ .sino := by decide
    simp only [List.mem_cons, List.not_mem_nil, or_false] at hp
    rcases hp with rfl | rfl | rfl <;> exact hwords _ (by simp)
  · rename_i hkind
    rwa [List.mem_singleton.1 hp]

namespace Layout

/-- The second layout is the first with some `sino` replaced by `si no entonces`. -/
structure SpellsOut (l l' : Layout) : Prop where
  lead : l'.lead = l.lead
  pieces : Castellano.SpellsOut l.pieces l'.pieces

/-- The layout with `si no entonces` in place of every `sino`. -/
def spelledOut (l : Layout) : Layout := ⟨l.lead, l.pieces.flatMap Piece.spelledOut⟩

variable {source : String} {l : Layout}

theorem SpellsOut.scan_source (h : (ofSource source).SpellsOut l) :
    scan l.source.toList = l.tokens := by
  refine Layout.scan_source ?_ (h.pieces.wellSpaced (wellSpaced_ofSource source))
  rw [h.lead]
  exact List.all_eq_true.1 List.all_takeWhile

theorem SpellsOut.stream (h : (ofSource source).SpellsOut l) :
    (TokenStream.ofSource source).unplaced.SpelledOut (TokenStream.ofSource l.source).unplaced := by
  rw [TokenStream.unplaced_ofSource, TokenStream.unplaced_ofSource, h.scan_source,
    ← tokens_ofSource]
  exact h.pieces.stream (wellSpaced_ofSource source) rfl

end Layout

/-- Writing `sino` or `si no entonces` makes no difference. If in a source some or all `sino` are
    replaced by the three words, with any spacing between them, the forms are the same up to
    positions, and there is a diagnostic if and only if there was one before. -/
theorem otherwise_spellings_agree (source : String) :
    (Layout.ofSource source).source = source ∧
    (Layout.ofSource source).SpellsOut (Layout.ofSource source).spelledOut ∧
    (∀ t ∈ tokenize (Layout.ofSource source).spelledOut.source, t.kind ≠ .sino) ∧
    ∀ (limits : Limits) (l : Layout), (Layout.ofSource source).SpellsOut l →
      (parseSource limits l.source).1.forms.map Node.unplaced =
        (parseSource limits source).1.forms.map Node.unplaced ∧
      ((parseSource limits l.source).2 = [] ↔ (parseSource limits source).2 = []) := by
  have hall : (Layout.ofSource source).SpellsOut (Layout.ofSource source).spelledOut :=
    ⟨rfl, spellsOut_flatMap (Layout.wellSpaced_ofSource source)⟩
  refine ⟨Layout.source_ofSource source, hall, fun t ht => ?_, fun limits l h => ?_⟩
  · have hmem := List.mem_map_of_mem (f := Token.unplaced) ht
    rw [tokenize_unplaced, hall.scan_source, List.mem_append, List.mem_singleton] at hmem
    rw [← t.kind_unplaced]
    rcases hmem with hmem | hmem
    · obtain ⟨p, hp, heq⟩ := List.mem_map.1 hmem
      rw [← heq]
      exact kind_ne_sino_of_mem_spelledOut hp
    · rw [hmem]
      decide
  · have hsource := Grammar.forms_relabel .unplace limits.depth (.ofSource source)
    have hlayout := Grammar.forms_relabel .unplace limits.depth (.ofSource l.source)
    obtain ⟨hforms, hnone⟩ := Grammar.forms_agree limits.depth h.stream
    rw [TokenStream.unplaced, TokenStream.unplaced, hsource, hlayout] at hforms hnone
    simp only [Option.map_eq_none_iff] at hnone
    simp only [parseSource_eq, Grammar.program, Option.toList_eq_nil_iff]
    exact ⟨hforms.symm, hnone.symm⟩

/-- At a source with a second `sino` that continues nothing, of which the first is replaced. -/
theorem otherwise_spellings_agree_first :
    let source := "si a b sino c.sino"
    let l : Layout := ⟨[], [⟨.word "si", [' ']⟩, ⟨.word "a", [' ']⟩, ⟨.word "b", [' ']⟩,
      ⟨.word "si", ['\n']⟩, ⟨.word "no", ['\t', ' ']⟩, ⟨.word "entonces", [' ']⟩,
      ⟨.word "c", []⟩, ⟨.sign '.', []⟩, ⟨.word "sino", []⟩]⟩
    (Layout.ofSource source).SpellsOut l ∧ l.source = "si a b si\nno\t entonces c.sino" ∧
      (parseSource ⟨9, 0⟩ source).1.toNode.surface? 9 = some "si a \x7bb.\x7d sino \x7bc.\x7d" ∧
      (parseSource ⟨9, 0⟩ l.source).1.forms.map Node.unplaced =
        (parseSource ⟨9, 0⟩ source).1.forms.map Node.unplaced ∧
      (parseSource ⟨9, 0⟩ l.source).2 ≠ [] := by
  intro source l
  obtain ⟨hlayout, hsource, hsurface, hfault⟩ :
      Layout.ofSource source = ⟨[], [⟨.word "si", [' ']⟩, ⟨.word "a", [' ']⟩, ⟨.word "b", [' ']⟩,
        ⟨.word "sino", [' ']⟩, ⟨.word "c", []⟩, ⟨.sign '.', []⟩, ⟨.word "sino", []⟩]⟩ ∧
      l.source = "si a b si\nno\t entonces c.sino" ∧
      (parseSource ⟨9, 0⟩ source).1.toNode.surface? 9 = some "si a \x7bb.\x7d sino \x7bc.\x7d" ∧
      (parseSource ⟨9, 0⟩ source).2 ≠ [] := by decide +kernel
  have hspells : (Layout.ofSource source).SpellsOut l := by
    rw [hlayout]
    exact ⟨rfl, .keep _ (.keep _ (.keep _ (.replace (by decide) (by decide)
      (.keep _ (.keep _ (.keep _ .nil))))))⟩
  obtain ⟨-, -, -, hagree⟩ := otherwise_spellings_agree source
  obtain ⟨hforms, hnone⟩ := hagree ⟨9, 0⟩ l hspells
  exact ⟨hspells, hsource, hsurface, hforms, mt hnone.1 hfault⟩

end Castellano
