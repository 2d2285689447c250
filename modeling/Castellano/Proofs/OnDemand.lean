import Castellano.Proofs.Congruence
import Castellano.Proofs.Scan
import Mathlib.Logic.Function.Iterate

/-!
# Tokens read on demand

A window reads its source token by token, and no further than its movements ask for. What the rules
make of it is what they make of the stream of all tokens, which are read beforehand.

* `Window.Sound`: behind an end token, a window and its cursor have nothing but that token.
* `Window.stream`: the tokens in view and all those that are still to be read.
* `Window.stream_advance`, `stream_skipPoints`, `current_stream` and so on: a window shows its
  stream, and moves with it.
* `Parse.Mirrors`: a step on windows and one on streams return the same after the same number of
  movements; only a step that gives up for lack of depth has cut the next movement short.
* `Grammar.mirrors_congruence`, `Grammar.nested_mirrors`: every rule is mirrored.
* `parseSource_eq`: the program and the diagnostics of a source are those of its stream.
-/

namespace Castellano

/-! ## Streams of cursors -/

/-- The stream with one more token in front; an end token adds nothing. -/
def TokenStream.push (t : Token) (s : TokenStream) : TokenStream :=
  if t.kind = .endOfInput then s else { s with upcoming := t :: s.upcoming }

/-- The tokens from the cursor on. -/
def Cursor.stream (c : Cursor) : TokenStream := .ofTokens c.tokens.1

namespace TokenStream

variable {t : Token}

theorem push_of_end (h : t.kind = .endOfInput) (s : TokenStream) : push t s = s := if_pos h

theorem push_of_ne (h : t.kind ≠ .endOfInput) (s : TokenStream) :
    push t s = ⟨t :: s.upcoming, s.last⟩ := if_neg h

theorem current_push (h : t.kind ≠ .endOfInput) (s : TokenStream) : (push t s).current = t := by
  rw [push_of_ne h]
  rfl

theorem advance_push (h : t.kind ≠ .endOfInput) (s : TokenStream) : (push t s).advance = s := by
  rw [push_of_ne h]
  rfl

theorem Ended.push {s : TokenStream} (h : s.Ended) (t : Token) : (push t s).Ended := by
  by_cases ht : t.kind = .endOfInput
  · rwa [push_of_end ht]
  · rw [push_of_ne ht]
    exact ⟨List.forall_mem_cons.2 ⟨ht, h.upcoming⟩, h.last⟩

theorem peek_eq (s : TokenStream) : s.peek = s.advance.current := by
  simp [peek, current, advance, List.headD_eq_head?_getD]

theorem peekTwice_eq (s : TokenStream) : s.peekTwice = s.advance.advance.current := by
  simp [peekTwice, current, advance, List.headD_eq_head?_getD, List.head?_tail]

theorem skipPoints_of_point {s : TokenStream} (h : s.current.kind = .point) (hs : s.upcoming ≠ []) :
    s.skipPoints = s.advance.skipPoints := by
  obtain ⟨t, rest, hrest⟩ := List.exists_cons_of_ne_nil hs
  have ht : t.kind = .point := by simpa [current, hrest] using h
  simp [skipPoints, advance, hrest, ht]

end TokenStream

namespace Cursor

variable {c : Cursor}

/-- At the end of the text, every further token is the same end token. -/
theorem nextToken_of_end (h : c.nextToken.1.kind = .endOfInput) :
    c.nextToken.2.nextToken = c.nextToken := by
  have hrest : c.skipSpacing.rest = [] := kind_readToken_eq_endOfInput.1 h
  have hstay : c.skipSpacing.skipSpacing = c.skipSpacing := by
    rw [skipSpacing, pass, hrest]
    exact congrArg (Cursor.mk _ _) hrest.symm
  have hnext : c.nextToken = (.atEnd c.skipSpacing.position, c.skipSpacing) := readToken_end hrest
  rw [hnext, nextToken, hstay, readToken_end hrest]

theorem stream_of_end (h : c.nextToken.1.kind = .endOfInput) : c.stream = ⟨[], c.nextToken.1⟩ := by
  rw [stream, tokens_end h]
  rfl

theorem stream_eq_push (c : Cursor) : c.stream = .push c.nextToken.1 c.nextToken.2.stream := by
  by_cases h : c.nextToken.1.kind = .endOfInput
  · have hagain := nextToken_of_end h
    have hend : c.nextToken.2.nextToken.1.kind = .endOfInput := by rw [hagain, h]
    rw [TokenStream.push_of_end h, stream_of_end h, stream_of_end hend, hagain]
  · obtain ⟨init, p, heq, -⟩ := c.nextToken.2.exists_tokens_eq
    rw [TokenStream.push_of_ne h, stream, stream, tokens_next h, heq, ← List.cons_append]
    simp only [TokenStream.ofTokens, List.dropLast_concat, List.getLastD_concat]

theorem ended_stream (c : Cursor) : c.stream.Ended := by
  obtain ⟨init, p, heq, hinit⟩ := c.exists_tokens_eq
  simp only [stream, heq, TokenStream.ofTokens, List.dropLast_concat, List.getLastD_concat]
  exact ⟨hinit, rfl⟩

end Cursor

/-! ## Streams of windows -/

namespace Window

/-- Behind an end token nothing stands and nothing is read but that token. -/
structure Sound (w : Window) : Prop where
  peek : w.current.kind = .endOfInput → w.peek = w.current
  peekTwice : w.peek.kind = .endOfInput → w.peekTwice = w.peek
  next : w.peekTwice.kind = .endOfInput → w.cursor.nextToken = (w.peekTwice, w.cursor)

/-- The tokens in view, and those that are still to be read. -/
def stream (w : Window) : TokenStream :=
  .push w.current (.push w.peek (.push w.peekTwice w.cursor.stream))

variable {w : Window}

namespace Sound

theorem advance (h : w.Sound) : w.advance.Sound where
  peek := h.peekTwice
  peekTwice := fun hend => congrArg Prod.fst (h.next hend)
  next := Cursor.nextToken_of_end

theorem iterate (h : w.Sound) (n : Nat) : (Window.advance^[n] w).Sound := by
  induction n generalizing w with
  | zero => exact h
  | succ n ih => exact ih h.advance

theorem interrupt (h : w.Sound) : w.interrupt.Sound where
  peek := h.peekTwice
  peekTwice := fun _ => rfl
  next := h.next

/-- At its end, a window does not move. -/
theorem advance_eq_self (h : w.Sound) (hend : w.current.kind = .endOfInput) : w.advance = w := by
  have hpeek := h.peek hend
  have hpeekTwice := h.peekTwice (hpeek ▸ hend)
  have hnext := h.next (hpeekTwice ▸ hpeek ▸ hend)
  rw [Window.advance, hnext, hpeekTwice, hpeek]
  obtain ⟨current, _, _, cursor⟩ := w
  simp only at hpeek hpeekTwice
  rw [hpeekTwice, hpeek]

end Sound

/-- Three movements read all that is in view. -/
theorem sound_ofSource (source : String) : (ofSource source).Sound := by
  rw [ofSource, unread]
  generalize Cursor.ofSource source = c
  exact ⟨fun hend => congrArg Prod.fst (Cursor.nextToken_of_end hend),
    fun hend => congrArg Prod.fst (Cursor.nextToken_of_end hend), Cursor.nextToken_of_end⟩

theorem stream_ofSource (source : String) : (ofSource source).stream = .ofSource source := by
  have hread : ∀ c : Cursor, TokenStream.push c.nextToken.1 c.nextToken.2.stream = c.stream :=
    fun c => c.stream_eq_push.symm
  rw [stream, ofSource]
  simp only [advance, hread]
  rfl

theorem ended_stream (w : Window) : w.stream.Ended :=
  ((w.cursor.ended_stream.push w.peekTwice).push w.peek).push w.current

theorem stream_eq_push (w : Window) : w.stream = .push w.current w.advance.stream := by
  rw [stream, w.cursor.stream_eq_push]
  rfl

/-- At its end, a window shows the end token of its stream. -/
theorem Sound.stream_of_end (h : w.Sound) (hend : w.current.kind = .endOfInput) :
    w.stream = ⟨[], w.current⟩ := by
  have hpeek := h.peek hend
  have hpeekTwice := h.peekTwice (hpeek ▸ hend)
  have hnext := h.next (hpeekTwice ▸ hpeek ▸ hend)
  have hkind : w.cursor.nextToken.1.kind = .endOfInput := by rw [hnext, hpeekTwice, hpeek, hend]
  rw [stream, hpeekTwice, hpeek, TokenStream.push_of_end hend, TokenStream.push_of_end hend,
    TokenStream.push_of_end hend, Cursor.stream_of_end hkind, hnext, hpeekTwice, hpeek]

theorem current_stream (h : w.Sound) : w.stream.current = w.current := by
  by_cases hend : w.current.kind = .endOfInput
  · rw [h.stream_of_end hend]
    rfl
  · rw [stream_eq_push, TokenStream.current_push hend]

theorem stream_advance (h : w.Sound) : w.stream.advance = w.advance.stream := by
  by_cases hend : w.current.kind = .endOfInput
  · rw [h.advance_eq_self hend, h.stream_of_end hend]
    rfl
  · rw [stream_eq_push, TokenStream.advance_push hend]

theorem peek_stream (h : w.Sound) : w.stream.peek = w.peek := by
  rw [TokenStream.peek_eq, stream_advance h, current_stream h.advance]
  rfl

theorem peekTwice_stream (h : w.Sound) : w.stream.peekTwice = w.peekTwice := by
  rw [TokenStream.peekTwice_eq, stream_advance h, stream_advance h.advance,
    current_stream h.advance.advance]
  rfl

theorem stream_upcoming_ne_nil (hend : w.current.kind ≠ .endOfInput) : w.stream.upcoming ≠ [] := by
  rw [stream_eq_push, TokenStream.push_of_ne hend]
  exact List.cons_ne_nil _ _

/-- Moving over points is moving some steps, on both sides. -/
theorem exists_skipPoints_eq (h : w.Sound) :
    ∃ n, w.skipPoints = advance^[n] w ∧ w.stream.skipPoints = (advance^[n] w).stream := by
  fun_induction skipPoints w with
  | case1 w hpoint ih =>
    obtain ⟨n, hwindow, hstream⟩ := ih h.advance
    have hne : w.current.kind ≠ .endOfInput := by simp [hpoint]
    have hpoint' : w.stream.current.kind = .point := by rw [current_stream h, hpoint]
    refine ⟨n + 1, hwindow, ?_⟩
    rw [TokenStream.skipPoints_of_point hpoint' (stream_upcoming_ne_nil hne), stream_advance h,
      hstream]
    rfl
  | case2 w hpoint =>
    refine ⟨0, rfl, ?_⟩
    by_cases hend : w.current.kind = .endOfInput
    · show w.stream.skipPoints = w.stream
      rw [h.stream_of_end hend]
      rfl
    · show w.stream.skipPoints = w.stream
      rw [stream_eq_push, TokenStream.push_of_ne hend]
      simp [TokenStream.skipPoints, hpoint]

/-! ## How far it is to the end -/

theorem remaining_iterate_le (h : w.Sound) (n : Nat) :
    (advance^[n] w).remaining ≤ w.remaining := by
  induction n generalizing w with
  | zero => exact Nat.le_refl _
  | succ n ih =>
    refine Nat.le_trans (ih h.advance) ?_
    by_cases hend : w.current.kind = .endOfInput
    · exact Nat.le_of_eq (congrArg remaining (h.advance_eq_self hend))
    · exact Nat.le_of_lt (remaining_advance_lt hend)

theorem stream_remaining_iterate_le (h : w.Sound) (n : Nat) :
    (advance^[n] w).stream.remaining ≤ w.stream.remaining := by
  induction n generalizing w with
  | zero => exact Nat.le_refl _
  | succ n ih =>
    refine Nat.le_trans (ih h.advance) ?_
    rw [← stream_advance h]
    exact TokenStream.remaining_advance_le _

theorem stream_remaining_advance_lt (h : w.Sound) (hend : w.current.kind ≠ .endOfInput) :
    w.advance.stream.remaining < w.stream.remaining := by
  rw [← stream_advance h]
  have hne := List.length_pos_iff.2 (stream_upcoming_ne_nil hend)
  simp only [TokenStream.remaining, TokenStream.advance, List.length_tail]
  omega

/-- A window comes nearer to the end exactly if its stream does: if it moves at all, and is not at
    the end. -/
theorem remaining_lt_iff (h : w.Sound) (n : Nat) :
    (advance^[n] w).remaining < w.remaining ↔
      (advance^[n] w).stream.remaining < w.stream.remaining := by
  by_cases hend : w.current.kind = .endOfInput
  · rw [Function.iterate_fixed (h.advance_eq_self hend)]
    exact iff_of_false (Nat.lt_irrefl _) (Nat.lt_irrefl _)
  · cases n with
    | zero => exact iff_of_false (Nat.lt_irrefl _) (Nat.lt_irrefl _)
    | succ n =>
      refine iff_of_true ?_ ?_
      · exact Nat.lt_of_le_of_lt (remaining_iterate_le h.advance n) (remaining_advance_lt hend)
      · exact Nat.lt_of_le_of_lt (stream_remaining_iterate_le h.advance n)
          (stream_remaining_advance_lt h hend)

/-- The loops of the grammar go on if they have come nearer to the end. On both sides they do. -/
theorem Sound.ite_nearer (h : w.Sound) (n : Nat) {β γ : Type} {P : β → γ → Prop} {a b : β}
    {a' b' : γ} (hnearer : (Window.advance^[n] w).remaining < w.remaining → P a a')
    (hstays : P b b') :
    P (if TokenView.remaining (Window.advance^[n] w) < TokenView.remaining w then a else b)
      (if TokenView.remaining (Window.advance^[n] w).stream < TokenView.remaining w.stream
        then a' else b') := by
  have hiff := remaining_lt_iff h n
  by_cases hlt : (Window.advance^[n] w).remaining < w.remaining
  · rw [view_remaining, view_remaining, TokenStream.view_remaining, TokenStream.view_remaining,
      if_pos hlt, if_pos (hiff.1 hlt)]
    exact hnearer hlt
  · rw [view_remaining, view_remaining, TokenStream.view_remaining, TokenStream.view_remaining,
      if_neg hlt, if_neg (mt hiff.2 hlt)]
    exact hstays

/-- What comes nearer to the end has moved, over a token that is not at the end. -/
theorem Sound.of_stream_remaining_lt (h : w.Sound) {n : Nat}
    (hlt : (Window.advance^[n] w).stream.remaining < w.stream.remaining) :
    0 < n ∧ w.current.kind ≠ .endOfInput := by
  refine ⟨Nat.pos_of_ne_zero ?_, fun hend => ?_⟩
  · rintro rfl
    exact Nat.lt_irrefl _ hlt
  · rw [Function.iterate_fixed (h.advance_eq_self hend)] at hlt
    exact Nat.lt_irrefl _ hlt

/-! ## Steps -/

/-- What a step comes to on a window, and what one comes to on its stream: the same, after the same
    movements. Only for lack of depth the window is left in the middle of one more. -/
inductive Mirrored (w : Window) {α : Type} :
    Attempt.Result Failure Window α → Attempt.Result Failure TokenStream α → Prop
  | ok (n : Nat) (a : α) : Mirrored w (.ok a (advance^[n] w)) (.ok a (advance^[n] w).stream)
  | error (n : Nat) (e : ParseError) :
    Mirrored w (.error (.error e) (advance^[n] w)) (.error (.error e) (advance^[n] w).stream)
  | tooDeep (n : Nat) :
    Mirrored w (.error .tooDeep (advance^[n] w).interrupt)
      (.error .tooDeep (advance^[n] w).stream)

/-- What happens behind some movements happens behind these. -/
theorem Mirrored.of_iterate {n : Nat} {α : Type} {r : Attempt.Result Failure Window α}
    {r' : Attempt.Result Failure TokenStream α} (h : (advance^[n] w).Mirrored r r') :
    w.Mirrored r r' := by
  cases h with
  | ok m a =>
    rw [← Function.iterate_add_apply]
    exact .ok _ a
  | error m e =>
    rw [← Function.iterate_add_apply]
    exact .error _ e
  | tooDeep m =>
    rw [← Function.iterate_add_apply]
    exact .tooDeep _

end Window

/-- On every sound window, the first step comes to what the second comes to on its stream. -/
def Parse.Mirrors (α : Type) (x : Parse Window α) (y : Parse TokenStream α) : Prop :=
  ∀ w : Window, w.Sound → w.Mirrored (x.run w) (y.run w.stream)

namespace Parse.Mirrors

open Window

variable {α β : Type}

theorem bind {x : Parse Window α} {y : Parse TokenStream α} {f : α → Parse Window β}
    {g : α → Parse TokenStream β} (h : Mirrors α x y) (hf : ∀ a, Mirrors β (f a) (g a)) :
    Mirrors β (x >>= f) (y >>= g) := by
  intro w hw
  rw [Attempt.run_bind, Attempt.run_bind]
  have hx := h w hw
  generalize x.run w = r, y.run w.stream = r' at hx
  cases hx with
  | ok n a => exact (hf a _ (hw.iterate n)).of_iterate
  | error n e => exact .error n e
  | tooDeep n => exact .tooDeep n

theorem manyTill (stop : TokenKind → Bool) {x : Parse Window α} {y : Parse TokenStream α}
    (h : Mirrors α x y) : Mirrors (List α) (manyTill stop x) (manyTill stop y) := by
  intro w hw
  show w.Mirrored (manyTillFrom stop x w) (manyTillFrom stop y w.stream)
  -- on what is left of the window: each round brings it nearer to the end
  induction hm : w.remaining using Nat.strongRecOn generalizing w with
  | _ m ih =>
    rw [manyTillFrom.eq_1 stop x w, manyTillFrom.eq_1 stop y w.stream, TokenStream.view_current,
      current_stream hw, view_current]
    split
    · exact .ok 0 []
    · have hx := h w hw
      generalize x.run w = r, y.run w.stream = r' at hx
      cases hx with
      | error n e => exact .error n e
      | tooDeep n => exact .tooDeep n
      | ok n a =>
        refine hw.ite_nearer (P := w.Mirrored) n (fun hlt => ?_) (.ok n [a])
        have hrest := ih _ (hm ▸ hlt) _ (hw.iterate n) rfl
        generalize manyTillFrom stop x _ = r, manyTillFrom stop y _ = r' at hrest
        refine Mirrored.of_iterate (n := n) ?_
        cases hrest with
        | ok m as => exact .ok m (a :: as)
        | error m e => exact .error m e
        | tooDeep m => exact .tooDeep m

theorem operators {sub : Grammar.Nested Window} {sup : Grammar.Nested TokenStream}
    (level : Precedence)
    (h : ∀ left, Mirrors Node (Grammar.extend sub left) (Grammar.extend sup left)) (left : Node) :
    Mirrors Node (Grammar.operators sub level left) (Grammar.operators sup level left) := by
  intro w hw
  show w.Mirrored (Grammar.operatorsFrom sub level left w)
    (Grammar.operatorsFrom sup level left w.stream)
  induction hm : w.remaining using Nat.strongRecOn generalizing left w with
  | _ m ih =>
    rw [Grammar.operatorsFrom.eq_1 sub level left w,
      Grammar.operatorsFrom.eq_1 sup level left w.stream, TokenStream.view_precedence,
      TokenStream.precedence, current_stream hw, TokenView.precedence, view_current]
    split
    · have hx := h left w hw
      generalize (Grammar.extend sub left).run w = r,
        (Grammar.extend sup left).run w.stream = r' at hx
      cases hx with
      | error n e => exact .error n e
      | tooDeep n => exact .tooDeep n
      | ok n extended =>
        refine hw.ite_nearer (P := w.Mirrored) n (fun hlt => ?_) (.ok n extended)
        exact (ih _ (hm ▸ hlt) extended _ (hw.iterate n) rfl).of_iterate
    · exact .ok 0 left

end Parse.Mirrors

/-! ## Rules -/

namespace Grammar

open Parse Window

theorem mirrors_congruence : Congruence Mirrors where
  pure := fun a _ _ => .ok 0 a
  bind := .bind
  look := by
    intro α f g h w hw
    have hrun := h w.current w.peek w.peekTwice w hw
    rw [Attempt.run_bind, Attempt.run_bind, Attempt.run_state, Attempt.run_state]
    simp only [TokenStream.view_current, TokenStream.view_peek, TokenStream.view_peekTwice]
    rw [current_stream hw, peek_stream hw, peekTwice_stream hw]
    exact hrun
  advance := by
    intro w hw
    show w.Mirrored (.ok () w.advance) (.ok () w.stream.advance)
    rw [stream_advance hw]
    exact .ok 1 ()
  skipPoints := by
    intro w hw
    show w.Mirrored (.ok () w.skipPoints) (.ok () w.stream.skipPoints)
    obtain ⟨n, hwindow, hstream⟩ := exists_skipPoints_eq hw
    rw [hwindow, hstream]
    exact .ok n ()
  failAt := fun fault t _ _ => .error 0 ⟨fault, t⟩
  manyTill := .manyTill
  operators := .operators

/-- At every depth, expressions and blocks on a window are those on its stream. -/
theorem nested_mirrors (limit : Nat) :
    (nested limit : Nested Window).Related Mirrors (nested limit : Nested TokenStream) :=
  mirrors_congruence.nested (fun _ _ _ => .tooDeep 0) limit

/-- The forms on a window, and those on its stream: the same, up to the same place. -/
inductive FormsMirrored (w : Window) :
    List Node × Option Diagnostic × Window → List Node × Option Diagnostic × TokenStream → Prop
  | stopped (n : Nat) (fs : List Node) (diagnostic : Option Diagnostic) :
    FormsMirrored w (fs, diagnostic, Window.advance^[n] w)
      (fs, diagnostic, (Window.advance^[n] w).stream)
  | tooDeep (n : Nat) (fs : List Node) (p : Position) :
    FormsMirrored w (fs, some ⟨.grammar .nestedTooDeeply, p⟩, (Window.advance^[n] w).interrupt)
      (fs, some ⟨.grammar .nestedTooDeeply, p⟩, (Window.advance^[n] w).stream)

theorem FormsMirrored.of_iterate {w : Window} {n : Nat}
    {r : List Node × Option Diagnostic × Window}
    {r' : List Node × Option Diagnostic × TokenStream}
    (h : FormsMirrored (Window.advance^[n] w) r r') : FormsMirrored w r r' := by
  cases h with
  | stopped m fs diagnostic =>
    rw [← Function.iterate_add_apply]
    exact .stopped _ fs diagnostic
  | tooDeep m fs p =>
    rw [← Function.iterate_add_apply]
    exact .tooDeep _ fs p

theorem FormsMirrored.cons {w : Window} {r : List Node × Option Diagnostic × Window}
    {r' : List Node × Option Diagnostic × TokenStream} (h : FormsMirrored w r r') (f : Node) :
    FormsMirrored w (f :: r.1, r.2) (f :: r'.1, r'.2) := by
  cases h with
  | stopped n fs diagnostic => exact .stopped n (f :: fs) diagnostic
  | tooDeep n fs p => exact .tooDeep n (f :: fs) p

theorem forms_mirrored (limit : Nat) {w : Window} (hw : w.Sound) :
    FormsMirrored w (forms (nested limit) w) (forms (nested limit) w.stream) := by
  have hform := mirrors_congruence.form (nested_mirrors limit)
  induction hm : w.remaining using Nat.strongRecOn generalizing w with
  | _ m ih =>
    obtain ⟨k, hwindow, hstream⟩ := exists_skipPoints_eq hw
    have hk := hw.iterate k
    rw [forms.eq_1 (nested limit) w, forms.eq_1 (nested limit) w.stream, view_skipPoints, hwindow,
      view_current, TokenStream.view_skipPoints, hstream, TokenStream.view_current,
      current_stream hk]
    split
    · exact .stopped k [] none
    · have hx := hform _ hk
      generalize (form (nested limit)).run (Window.advance^[k] w) = r,
        (form (nested limit)).run (Window.advance^[k] w).stream = r' at hx
      cases hx with
      | error n e => exact FormsMirrored.of_iterate (.stopped n [] _)
      | tooDeep n => exact FormsMirrored.of_iterate (.tooDeep n [] _)
      | ok n f =>
        rw [← Function.iterate_add_apply]
        refine hw.ite_nearer (P := FormsMirrored w) (n + k) (fun hlt => ?_) (.stopped _ [f] none)
        exact (ih _ (hm ▸ hlt) (hw.iterate _) rfl).of_iterate.cons f

/-- The program on a window is that on its stream, with the same diagnostic. -/
theorem program_mirrored (limit : Nat) {w : Window} (hw : w.Sound) :
    (program limit w).1 = (program limit w.stream).1 ∧
      (program limit w).2.1 = (program limit w.stream).2.1 := by
  simp only [program, TokenStream.view_current]
  rw [current_stream hw]
  have hforms := forms_mirrored limit hw
  generalize forms (nested limit) w = r, forms (nested limit) w.stream = r' at hforms
  cases hforms <;> exact ⟨rfl, rfl⟩

/-- Behind a program without a diagnostic, the window stands where its stream stands. -/
theorem stream_program_of_none {limit : Nat} {w : Window} (hw : w.Sound)
    (hnone : (program limit w).2.1 = none) :
    (program limit w).2.2.stream = (program limit w.stream).2.2 := by
  simp only [program] at hnone ⊢
  have hforms := forms_mirrored limit hw
  generalize forms (nested limit) w = r, forms (nested limit) w.stream = r' at hforms hnone
  cases hforms with
  | stopped n fs diagnostic => rfl
  | tooDeep n fs p => cases hnone

end Grammar

/-- Reading on demand is reading beforehand. -/
theorem parseSource_eq (limits : Limits) (source : String) :
    parseSource limits source =
      ((Grammar.program limits.depth (TokenStream.ofSource source)).1,
        (Grammar.program limits.depth (TokenStream.ofSource source)).2.1.toList) := by
  obtain ⟨hprogram, hdiagnostic⟩ :=
    Grammar.program_mirrored limits.depth (Window.sound_ofSource source)
  rw [Window.stream_ofSource] at hprogram hdiagnostic
  simp only [parseSource, hprogram, hdiagnostic]

end Castellano
