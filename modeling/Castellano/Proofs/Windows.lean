import Castellano.Proofs.Depth
import Castellano.Proofs.Lookahead
import Castellano.Proofs.Positions
import Mathlib.Order.Monotone.Basic

/-!
# What a parser sees, and how it moves

However a parser is used, it sees three tokens in a row of its source, and it never goes back. The
rules may be called one by one, on tokens that they do not fit, and again after a failure. Only a
call that runs out of depth leaves the parser in the middle of a movement, with the last token in
view twice. A rule that returns a tree has moved over a token, which is why the loops of the grammar
come to an end.

* `Parse.Forward`: a step leaves a part of its stream, also if it fails; `Parse.Consumes`: a step
  that succeeds leaves less.
* `Parse.Consumes.manyTill_run`, `Grammar.operators_run`: the loops of the grammar go on until it is
  time to stop.
* `Grammar.nested_forward`: at every depth, expressions and blocks move forward.
* `Grammar.form_consumes`, `Grammar.block_consumes` and so on: every rule moves over a token, also
  where it does not fit.
* `Parser.perform_eq_lift`: every call but that for a program is a step that moves in this way.
* `Parser.exists_moves`: how a call moves the window.
* `Window.tokens_iterate_advance`: behind some movements, the window shows the tokens behind these.
* `parser_window_moves_on`: the window, the progress and the diagnostics of a parser in any use.
* `Parser.program_openings`: how a program with too many open parentheses leaves the window.
-/

namespace Castellano

open TokenStream

theorem TokenStream.Ended.upcoming_ne_nil {s : TokenStream} (h : s.Ended)
    (hk : s.current.kind ≠ .endOfInput) : s.upcoming ≠ [] := by
  obtain ⟨rest, hs, -⟩ := h.exists_cons hk
  simp [hs]

/-! ## Steps -/

namespace Parse

/-- Whether it succeeds or fails, the step leaves its stream at the same place or further on. -/
def Forward {α : Type} (x : Parse TokenStream α) : Prop :=
  ∀ s : TokenStream, s.LeadsTo (x.run s).state

/-- If it succeeds, the step has moved over a token before the end. -/
def Consumes {α : Type} (x : Parse TokenStream α) : Prop :=
  ∀ ⦃s s' : TokenStream⦄ ⦃a : α⦄, s.Ended → x.run s = .ok a s' → s'.remaining < s.remaining

variable {α β : Type}

namespace Forward

theorem leadsTo {x : Parse TokenStream α} (h : Forward x) {s s' : TokenStream} {a : α}
    (hrun : x.run s = .ok a s') : s.LeadsTo s' := by
  have hstate := h s
  rw [hrun] at hstate
  exact hstate

theorem leadsTo_of_error {x : Parse TokenStream α} (h : Forward x) {s s' : TokenStream}
    {e : Failure} (hrun : x.run s = .error e s') : s.LeadsTo s' := by
  have hstate := h s
  rw [hrun] at hstate
  exact hstate

theorem pure (a : α) : Forward (pure a) := .refl

theorem current : Forward current := .refl

theorem advance : Forward advance := LeadsTo.advance

theorem skipPoints : Forward skipPoints := LeadsTo.skipPoints

theorem bind {x : Parse TokenStream α} {f : α → Parse TokenStream β} (hx : Forward x)
    (hf : ∀ a, Forward (f a)) :
    Forward (x >>= f) := by
  intro s
  have hstart := hx s
  rw [Attempt.run_bind]
  cases hrun : x.run s with
  | ok a s' =>
    rw [hrun] at hstart
    exact hstart.trans (hf a s')
  | error e s' =>
    rw [hrun] at hstart
    exact hstart

theorem manyTill (stop : TokenKind → Bool) {x : Parse TokenStream α} (h : Forward x) :
    Forward (manyTill stop x) := by
  intro s
  show s.LeadsTo (manyTillFrom stop x s).state
  fun_induction manyTillFrom stop x s with
  | case1 s hstop => exact .refl s
  | case2 s hstop e s' hx => exact h.leadsTo_of_error hx
  | case3 s hstop a s' hx hlt e s'' hrest ih =>
    rw [hrest] at ih
    exact (h.leadsTo hx).trans ih
  | case4 s hstop a s' hx hlt as s'' hrest ih =>
    rw [hrest] at ih
    exact (h.leadsTo hx).trans ih
  | case5 s hstop a s' hx hlt => exact h.leadsTo hx

end Forward

namespace Consumes

/-- It is enough that the first of two steps moves over a token. -/
theorem first {x : Parse TokenStream α} {f : α → Parse TokenStream β} (hx : Consumes x)
    (hf : ∀ a, Forward (f a)) :
    Consumes (x >>= f) := by
  intro s s' b hs hrun
  obtain ⟨a, s₁, ha, hb⟩ := Attempt.bind_eq_ok.1 hrun
  exact Nat.lt_of_le_of_lt ((hf a).leadsTo hb).remaining_le (hx hs ha)

/-- It is enough that the second of two steps moves over a token. -/
theorem second {x : Parse TokenStream α} {f : α → Parse TokenStream β} (hx : Forward x)
    (hf : ∀ a, Consumes (f a)) :
    Consumes (x >>= f) := by
  intro s s' b hs hrun
  obtain ⟨a, s₁, ha, hb⟩ := Attempt.bind_eq_ok.1 hrun
  have hlead := hx.leadsTo ha
  exact Nat.lt_of_lt_of_le (hf a (hlead.ended hs) hb) hlead.remaining_le

theorem ite {c : Prop} [Decidable c] {x y : Parse TokenStream α} (hx : Consumes x)
    (hy : Consumes y) :
    Consumes (if c then x else y) := by
  split
  · exact hx
  · exact hy

theorem expect {kind : TokenKind} (hkind : kind ≠ .endOfInput) (fault : GrammarFault) :
    Consumes (expect kind fault) := by
  intro s s' t hs hrun
  obtain ⟨hk, -, rfl⟩ := expect_eq_ok.1 hrun
  exact s.remaining_advance_lt (hs.upcoming_ne_nil (by rwa [hk]))

/-- A step that moves over a token is repeated until it is time to stop: that it moves on needs no
    check. -/
theorem manyTill_run {stop : TokenKind → Bool} {x : Parse TokenStream α} (h : Consumes x)
    {s : TokenStream} (hs : s.Ended) (hstop : ¬ stop s.current.kind) :
    (manyTill stop x).run s = (do return (← x) :: (← manyTill stop x)).run s := by
  rw [Attempt.run_bind]
  show manyTillFrom stop x s = _
  rw [manyTillFrom, TokenStream.view_current, if_neg hstop]
  cases hrun : x.run s with
  | error e s' => rfl
  | ok a s' =>
    dsimp only [TokenStream.view_remaining]
    rw [if_pos (h hs hrun), Attempt.run_bind,
      show (manyTill stop x).run s' = manyTillFrom stop x s' from rfl]
    cases manyTillFrom stop x s' <;> rfl

end Consumes

end Parse

/-! ## Rules -/

namespace Grammar

open Parse

theorem operators_forward {sub : Nested TokenStream} (level : Precedence)
    (h : ∀ left, Forward (extend sub left)) (left : Node) :
    Forward (operators sub level left) := by
  intro s
  show s.LeadsTo (operatorsFrom sub level left s).state
  fun_induction operatorsFrom sub level left s with
  | case1 left s hlevel e s' hx => exact (h left).leadsTo_of_error hx
  | case2 left s hlevel extended s' hx hlt ih => exact ((h left).leadsTo hx).trans ih
  | case3 left s hlevel extended s' hx hlt => exact (h left).leadsTo hx
  | case4 left s hlevel => exact .refl s

theorem forward_congruence : Congruence fun α (x _ : Parse TokenStream α) => x.Forward where
  pure := .pure
  bind := .bind
  look := fun h s => h _ _ _ s
  advance := .advance
  skipPoints := .skipPoints
  failAt := fun _ _ => .refl
  manyTill := fun stop _ _ h => .manyTill stop h
  operators := operators_forward

/-- The steps for what stands inside move forward. -/
abbrev Nested.Forward (sub : Nested TokenStream) : Prop :=
  sub.Related (fun _ x _ => x.Forward) sub

/-- At every depth, expressions and blocks move forward. -/
theorem nested_forward (limit : Nat) : (nested limit).Forward :=
  forward_congruence.nested (fun _ => .refl) limit

section Consumes

variable {sub : Nested TokenStream} (h : sub.Forward) (hsub : sub.Reads)

include h in
theorem function_consumes : Consumes (function sub) :=
  .second .current fun _ => .second .advance fun _ => .first (.expect (by decide) _) fun _ =>
    .bind (.manyTill _ (forward_congruence.parameter h)) fun _ =>
      .bind (forward_congruence.expect _ _) fun _ => .bind h.block fun _ => .pure _

include h in
theorem call_consumes (callee : Node) : Consumes (call sub callee) := by
  cases callee with
  | identifier p name =>
    exact .second .advance fun _ => .second (.manyTill _ (h.expression _)) fun _ =>
      .first (.expect (by decide) _) fun _ => .pure _
  | _ =>
    intro s s' n _ hrun
    cases hrun

include hsub

/-- What is read as an expression has a node, which stands for a token. -/
theorem expression_consumes (level : Precedence) : Consumes (sub.expression level) := by
  intro s s' n hs hrun
  obtain ⟨hread, hne⟩ := hsub.expression hs hrun
  exact hread.remaining_lt hne

theorem primary_consumes : Consumes (primary sub) := by
  intro s s' n hs hrun
  have hskip := LeadsTo.skipPoints s
  obtain ⟨hread, hne⟩ := (primary_eq_ok.1 hrun).reads hsub (hskip.ended hs)
  exact Nat.lt_of_lt_of_le (hread.remaining_lt hne) hskip.remaining_le

theorem form_consumes : Consumes (form sub) := by
  intro s s' n hs hrun
  obtain ⟨hread, hne⟩ := form_reads hsub hs hrun
  exact hread.remaining_lt hne

theorem binary_consumes (left : Node) : Consumes (binary sub left) :=
  .second .current fun _ => .second .advance fun _ => .first (expression_consumes hsub _)
    fun _ => .pure _

theorem assignment_consumes : Consumes (assignment sub) :=
  .second .current fun _ => .second .advance fun _ => .second .advance fun _ =>
    .first (expression_consumes hsub _) fun _ => .pure _

include h

theorem conditional_consumes : Consumes (conditional sub) :=
  .second .current fun _ => .second .advance fun _ => .first (expression_consumes hsub _) fun _ =>
    .bind h.block fun _ => .bind (forward_congruence.alternative h) fun _ => .pure _

theorem loop_consumes : Consumes (loop sub) :=
  .second .current fun _ => .second .advance fun _ => .first (expression_consumes hsub _) fun _ =>
    .bind h.block fun _ => .pure _

/-- A block may have no forms, but then it has its braces. -/
theorem block_consumes : Consumes (block sub) := by
  intro s s' b hs hrun
  cases block_eq_ok.1 hrun with
  | @braces _ s₁ hopen hforms hclose =>
    have hform : Forward (blockForm sub) :=
      .bind (forward_congruence.form h) fun _ => .bind .skipPoints fun _ => .pure _
    have hforms' := (Forward.manyTill closesBlock hform).leadsTo hforms
    have hlead := (LeadsTo.skipPoints s.advance).trans (hforms'.trans (.advance s₁))
    refine Nat.lt_of_le_of_lt hlead.remaining_le (s.remaining_advance_lt ?_)
    exact hs.upcoming_ne_nil (by simp [hopen])
  | bare _ hform => exact form_consumes hsub hs (form_eq_ok.2 hform)

theorem extend_consumes (left : Node) : Consumes (extend sub left) :=
  .second .current fun _ => .ite (call_consumes h left) (binary_consumes hsub left)

/-- Operators are read as long as they bind tighter: that the stream moves on needs no check. -/
theorem operators_run {level : Precedence} (left : Node) {s : TokenStream} (hs : s.Ended)
    (hlevel : level < s.precedence) :
    (operators sub level left).run s = (extend sub left >>= operators sub level).run s := by
  rw [Attempt.run_bind]
  show operatorsFrom sub level left s = _
  rw [operatorsFrom, TokenStream.view_precedence, if_pos hlevel]
  cases hrun : (extend sub left).run s with
  | error e s' => rfl
  | ok extended s' =>
    dsimp only [TokenStream.view_remaining]
    rw [if_pos (extend_consumes h hsub left hs hrun)]
    rfl

end Consumes

end Grammar

/-! ## Calls -/

namespace Parser

open Parse

theorem lift_diagnostics {α : Type} {step : Parse Window α} (reply : α → Reply) (p : Parser) :
    (p.lift step reply).2.diagnostics = p.diagnostics := by
  unfold lift
  split <;> rfl

/-- The answer is a node. -/
def AnswersNode (answer : Except Failure Reply) : Prop := ∃ n, answer = .ok (.node n)

instance : DecidablePred AnswersNode
  | .ok (.node n) => isTrue ⟨n, rfl⟩
  | .ok .nothing | .ok (.token _) | .ok (.truth _) | .error _ => isFalse (by simp [AnswersNode])

/-- The answer is that the depth did not suffice. -/
def AnswersTooDeep (answer : Except Failure Reply) : Prop := answer = .error .tooDeep

instance : DecidablePred AnswersTooDeep
  | .error .tooDeep => isTrue rfl
  | .error (.error _) | .ok _ => isFalse (by simp [AnswersTooDeep])

variable (limits : Limits)

/-- The call runs out of depth: it fails for that, or reports it. -/
def RunsOut (p : Parser) (call : Call) : Prop :=
  AnswersTooDeep (p.perform limits call).1 ∨
    DepthReached ((p.perform limits call).2.diagnostics.drop p.diagnostics.length)

instance (p : Parser) : DecidablePred (p.RunsOut limits) :=
  fun _ => inferInstanceAs (Decidable (_ ∨ _))

/-- Every call but that for a program is a step on the window alone. It does what a step on the
    stream does, which moves over a token if it is to answer a node. -/
theorem perform_eq_lift {call : Call} (hcall : call ≠ .program) :
    ∃ (α : Type) (step : Parse Window α) (mirror : Parse TokenStream α) (reply : α → Reply),
      Mirrors α step mirror ∧ (mirror.Consumes ∨ ∀ a n, reply a ≠ .node n) ∧
      ∀ p : Parser, p.perform limits call = p.lift step reply := by
  have hM := Grammar.mirrors_congruence
  have hN := Grammar.nested_mirrors limits.depth
  have h := Grammar.nested_forward limits.depth
  have hsub := Grammar.nested_reads limits.depth
  cases call with
  | program => exact absurd rfl hcall
  | advance =>
    exact ⟨_, _, _, .token, hM.bind hM.advance fun _ => hM.current, .inr (by simp), fun _ => rfl⟩
  | skipPoints =>
    exact ⟨_, _, _, fun _ => .nothing, hM.skipPoints, .inr (by simp), fun _ => rfl⟩
  | accept kind => exact ⟨_, _, _, .truth, hM.accept kind, .inr (by simp), fun _ => rfl⟩
  | expect kind message =>
    exact ⟨_, _, _, .token, hM.expectWorded kind message, .inr (by simp), fun _ => rfl⟩
  | form => exact ⟨_, _, _, _, hM.form hN, .inl (Grammar.form_consumes hsub), fun _ => rfl⟩
  | block => exact ⟨_, _, _, _, hM.block hN, .inl (Grammar.block_consumes h hsub), fun _ => rfl⟩
  | primary =>
    exact ⟨_, _, _, _, hM.primary hN, .inl (Grammar.primary_consumes hsub), fun _ => rfl⟩
  | assignment =>
    exact ⟨_, _, _, _, hM.assignment hN, .inl (Grammar.assignment_consumes hsub), fun _ => rfl⟩
  | conditional =>
    exact ⟨_, _, _, _, hM.conditional hN, .inl (Grammar.conditional_consumes h hsub), fun _ => rfl⟩
  | loop => exact ⟨_, _, _, _, hM.loop hN, .inl (Grammar.loop_consumes h hsub), fun _ => rfl⟩
  | function =>
    exact ⟨_, _, _, _, hM.function hN, .inl (Grammar.function_consumes h), fun _ => rfl⟩
  | expression level =>
    exact ⟨_, _, _, _, hN.expression level, .inl (Grammar.expression_consumes hsub level),
      fun _ => rfl⟩
  | binary left =>
    exact ⟨_, _, _, _, hM.binary hN left, .inl (Grammar.binary_consumes hsub left), fun _ => rfl⟩
  | call callee =>
    exact ⟨_, _, _, _, hM.call hN callee, .inl (Grammar.call_consumes h callee), fun _ => rfl⟩

theorem perform_diagnostics {call : Call} (hcall : call ≠ .program) (p : Parser) :
    (p.perform limits call).2.diagnostics = p.diagnostics := by
  obtain ⟨α, step, mirror, reply, -, -, heq⟩ := perform_eq_lift limits hcall
  rw [heq]
  exact lift_diagnostics reply p

theorem exists_perform_diagnostics (p : Parser) (call : Call) :
    ∃ d : Option Diagnostic,
      (p.perform limits call).2.diagnostics = p.diagnostics ++ d.toList := by
  by_cases hcall : call = .program
  · subst hcall
    exact ⟨_, rfl⟩
  · exact ⟨none, by simp [perform_diagnostics limits hcall p]⟩

/-- The call makes that many movements; if it runs out of depth, it may be cut short in the middle
    of another. If it is to answer a node, the first movement is over a token before the end. -/
structure Moves (p : Parser) (call : Call) (n : Nat) : Prop where
  window : (p.perform limits call).2.window = Window.advance^[n] p.window ∨
    p.RunsOut limits call ∧
      (p.perform limits call).2.window = (Window.advance^[n] p.window).interrupt
  progress : call ≠ .program → AnswersNode (p.perform limits call).1 →
    0 < n ∧ p.window.current.kind ≠ .endOfInput

theorem exists_moves_program {p : Parser} (hp : p.window.Sound) :
    ∃ n, p.Moves limits .program n := by
  have hrunsOut : p.RunsOut limits .program ↔
      DepthReached (Grammar.forms (Grammar.nested limits.depth) p.window).2.1.toList := by
    simp [RunsOut, AnswersTooDeep, perform, Grammar.program]
  have hwindow : (p.perform limits .program).2.window =
    (Grammar.forms (Grammar.nested limits.depth) p.window).2.2 := rfl
  have hforms := Grammar.forms_mirrored limits.depth hp
  generalize Grammar.forms (Grammar.nested limits.depth) p.window = r,
    Grammar.forms (Grammar.nested limits.depth) p.window.stream = r' at hrunsOut hwindow hforms
  cases hforms with
  | stopped n fs diagnostic => exact ⟨n, .inl hwindow, fun h => absurd rfl h⟩
  | tooDeep n fs position =>
    have hreached := hrunsOut.2 ⟨_, List.mem_singleton_self _, rfl⟩
    exact ⟨n, .inr ⟨hreached, hwindow⟩, fun h => absurd rfl h⟩

theorem exists_moves_of_ne {call : Call} (hcall : call ≠ .program) {p : Parser}
    (hp : p.window.Sound) : ∃ n, p.Moves limits call n := by
  obtain ⟨α, step, mirror, reply, hstep, hconsumes, heq⟩ := perform_eq_lift limits hcall
  have hlift := heq p
  have hrun := hstep p.window hp
  unfold lift at hlift
  generalize step.run p.window = r, hr' : mirror.run p.window.stream = r' at hrun hlift
  cases hrun with
  | error n e => exact ⟨n, .inl (by rw [hlift]), fun _ h => by simp [AnswersNode, hlift] at h⟩
  | tooDeep n =>
    have hrunsOut : p.RunsOut limits call := .inl (by rw [hlift]; rfl)
    exact ⟨n, .inr ⟨hrunsOut, by rw [hlift]⟩, fun _ h => by simp [AnswersNode, hlift] at h⟩
  | ok n a =>
    refine ⟨n, .inl (by rw [hlift]), fun _ ⟨node, hnode⟩ => ?_⟩
    rw [hlift] at hnode
    obtain hconsumes | hreply := hconsumes
    · exact hp.of_stream_remaining_lt (hconsumes p.window.ended_stream hr')
    · exact absurd (Except.ok.inj hnode) (hreply a node)

theorem exists_moves {p : Parser} (hp : p.window.Sound) (call : Call) :
    ∃ n, p.Moves limits call n := by
  by_cases hcall : call = .program
  · subst hcall
    exact exists_moves_program limits hp
  · exact exists_moves_of_ne limits hcall hp

theorem sound_perform {p : Parser} (hp : p.window.Sound) (call : Call) :
    (p.perform limits call).2.window.Sound := by
  obtain ⟨n, hmoves⟩ := exists_moves limits hp call
  obtain hwindow | ⟨-, hwindow⟩ := hmoves.window
  · rw [hwindow]
    exact hp.iterate n
  · rw [hwindow]
    exact (hp.iterate n).interrupt

/-- What becomes of a parser with one call after another, whether they fail or not. -/
def performAll (p : Parser) (calls : List Call) : Parser :=
  calls.foldl (fun p call => (p.perform limits call).2) p

theorem performAll_take_succ (p : Parser) {calls : List Call} {k : Nat} {call : Call}
    (hk : calls[k]? = some call) :
    p.performAll limits (calls.take (k + 1))
      = ((p.performAll limits (calls.take k)).perform limits call).2 := by
  simp [performAll, List.take_add_one, hk]

theorem performAll_take_none (p : Parser) {calls : List Call} {k : Nat} (hk : calls[k]? = none) :
    p.performAll limits (calls.take (k + 1)) = p.performAll limits (calls.take k) := by
  rw [List.take_add_one, hk, Option.toList_none, List.append_nil]

theorem sound_performAll {p : Parser} (hp : p.window.Sound) (calls : List Call) :
    (p.performAll limits calls).window.Sound := by
  induction calls generalizing p with
  | nil => exact hp
  | cons call calls ih => exact ih (sound_perform limits hp call)

/-- How the next of some calls moves the window, if there is one. -/
theorem exists_moves_take {p : Parser} (hp : p.window.Sound) (calls : List Call) (k : Nat) :
    let parser := fun k => p.performAll limits (calls.take k)
    ∃ n, ((parser (k + 1)).window = Window.advance^[n] (parser k).window ∨
      (∃ call, calls[k]? = some call ∧ (parser k).RunsOut limits call) ∧
        (parser (k + 1)).window = (Window.advance^[n] (parser k).window).interrupt) ∧
      ∀ call, calls[k]? = some call → (parser k).Moves limits call n := by
  intro parser
  cases hk : calls[k]? with
  | none =>
    have hsame : parser (k + 1) = parser k := performAll_take_none limits p hk
    exact ⟨0, .inl (by rw [hsame]; rfl), by simp⟩
  | some call =>
    have hnext : parser (k + 1) = ((parser k).perform limits call).2 :=
      performAll_take_succ limits p hk
    obtain ⟨n, hn⟩ := exists_moves limits (sound_performAll limits hp (calls.take k)) call
    rw [hnext]
    refine ⟨n, hn.window.imp_right fun h => ⟨⟨call, rfl, h.1⟩, h.2⟩, ?_⟩
    rintro call ⟨⟩
    exact hn

end Parser

/-! ## Places in the source -/

/-- The tokens with endless copies of the last one behind them. -/
def tokenAt (tokens : List Token) (i : Nat) : Token :=
  tokens[i]?.getD (tokens.getLastD (Token.atEnd Position.start))

theorem getD_dropLast (tokens : List Token) (i : Nat) :
    tokens.dropLast[i]?.getD (tokens.getLastD (Token.atEnd Position.start)) = tokenAt tokens i := by
  rw [tokenAt, List.getElem?_dropLast]
  split
  next => rfl
  next hi =>
    -- from the last token on, both sides are the last token
    rw [Option.getD_none]
    obtain hlast | hout : i + 1 = tokens.length ∨ tokens.length ≤ i := by omega
    · rw [List.getLastD_eq_getLast?, List.getLast?_eq_getElem?, ← hlast,
        Nat.add_sub_cancel]
      cases tokens[i]? <;> rfl
    · rw [List.getElem?_eq_none hout, Option.getD_none]

theorem TokenStream.current_iterate_advance (tokens : List Token) (n : Nat) :
    (advance^[n] (ofTokens tokens)).current = tokenAt tokens n := by
  have hiterate : ∀ s : TokenStream, advance^[n] s = ⟨s.upcoming.drop n, s.last⟩ := by
    induction n with
    | zero => exact fun _ => rfl
    | succ n ih =>
      intro s
      rw [Function.iterate_succ_apply, ih, advance, List.drop_tail]
  rw [hiterate, current, List.headD_eq_head?_getD, List.head?_drop]
  exact getD_dropLast tokens n

namespace Window

theorem stream_iterate_advance {w : Window} (h : w.Sound) (n : Nat) :
    (advance^[n] w).stream = TokenStream.advance^[n] w.stream := by
  induction n generalizing w with
  | zero => rfl
  | succ n ih => rw [Function.iterate_succ_apply, Function.iterate_succ_apply, ih h.advance,
      stream_advance h]

theorem current_iterate_advance (source : String) (n : Nat) :
    (advance^[n] (ofSource source)).current = tokenAt (tokenize source) n := by
  have h := sound_ofSource source
  rw [← current_stream (h.iterate n), stream_iterate_advance h, stream_ofSource]
  exact TokenStream.current_iterate_advance _ n

/-- Behind some movements, the window shows the tokens behind these. -/
theorem tokens_iterate_advance (source : String) (n : Nat) :
    (advance^[n] (ofSource source)).tokens =
      [tokenAt (tokenize source) n, tokenAt (tokenize source) (n + 1),
        tokenAt (tokenize source) (n + 2)] := by
  simp only [← current_iterate_advance, Function.iterate_succ_apply']
  rfl

end Window

/-- However a parser is used, by whatever calls on whatever tokens and also after a failure, it sees
    three tokens in a row of its source, whose end token is repeated, as long as no call has run out
    of depth. It never goes back: each call makes some movements, and only one that runs out of
    depth may be cut short in the middle of another, which leaves the last token in view twice. A
    rule that answers a node has moved over a token before the end; and only whole programs are
    diagnosed, each at most once. -/
theorem parser_window_moves_on (limits : Limits) (source : String) (calls : List Parser.Call) :
    let token := tokenAt (tokenize source)
    let parser := fun k => (Parser.ofSource source).performAll limits (calls.take k)
    let runsOut := fun k => ∃ call, calls[k]? = some call ∧ (parser k).RunsOut limits call
    ∃ place : Nat → Nat, Monotone place ∧ place 0 = 0 ∧
      (∀ k, (∀ j < k, ¬ runsOut j) →
        (parser k).window.tokens =
          [token (place k), token (place k + 1), token (place k + 2)]) ∧
      (∀ k, let moved := Window.advance^[place (k + 1) - place k] (parser k).window
        (parser (k + 1)).window = moved ∨ runsOut k ∧
          (parser (k + 1)).window.tokens = [moved.peek, moved.peekTwice, moved.peekTwice]) ∧
      ∀ k call, calls[k]? = some call →
        (call ≠ .program → (parser (k + 1)).diagnostics = (parser k).diagnostics) ∧
        (∃ d : Option Diagnostic,
          (parser (k + 1)).diagnostics = (parser k).diagnostics ++ d.toList) ∧
        (call ≠ .program → Parser.AnswersNode ((parser k).perform limits call).1 →
          place k < place (k + 1) ∧ (parser k).window.current.kind ≠ .endOfInput) := by
  intro token parser runsOut
  have hnext : ∀ {k call}, calls[k]? = some call →
      parser (k + 1) = ((parser k).perform limits call).2 :=
    fun hk => Parser.performAll_take_succ limits _ hk
  choose moves hwindow hcalls using
    Parser.exists_moves_take limits (p := .ofSource source) (Window.sound_ofSource source) calls
  -- a parser's place is the number of movements that it has made
  let place := fun k => ((List.range k).map moves).sum
  have hplace : ∀ k, place (k + 1) = place k + moves k := by simp [place, List.range_succ]
  have hmoved : ∀ k, place (k + 1) - place k = moves k := by simp [hplace]
  have hreached : ∀ k, (∀ j < k, ¬ runsOut j) →
      (parser k).window = Window.advance^[place k] (Window.ofSource source) := by
    intro k
    induction k with
    | zero => exact fun _ => rfl
    | succ k ih =>
      intro hdeep
      have hstep := (hwindow k).resolve_right fun h => hdeep k (Nat.lt_succ_self k) h.1
      rw [hstep, ih fun j hj => hdeep j (Nat.lt_succ_of_lt hj), hplace, Nat.add_comm,
        Function.iterate_add_apply]
  refine ⟨place, monotone_nat_of_le_succ fun k => by simp [hplace], rfl, ?_, ?_, ?_⟩
  · intro k hdeep
    rw [hreached k hdeep]
    exact Window.tokens_iterate_advance source (place k)
  · intro k
    rw [hmoved]
    exact (hwindow k).imp_right fun h => ⟨h.1, congrArg Window.tokens h.2⟩
  · intro k call hk
    refine ⟨fun hcall => ?_, ?_, fun hcall hnode => ?_⟩
    · rw [hnext hk]
      exact Parser.perform_diagnostics limits hcall _
    · rw [hnext hk]
      exact Parser.exists_perform_diagnostics limits _ call
    · obtain ⟨hpos, hend⟩ := (hcalls k call hk).progress hcall hnode
      exact ⟨by rw [hplace]; omega, hend⟩

/-- A call that fails at the first token, a form that is read behind it, and a program with a
    diagnostic. -/
theorem parser_window_moves_on_after_failure :
    let parser := fun k => (Parser.ofSource ") 1 + 2 )").performAll ⟨9, 9⟩
      ([.primary, .advance, .form, .program].take k)
    (¬ Parser.AnswersNode ((parser 0).perform ⟨9, 9⟩ .primary).1 ∧
      Parser.AnswersNode ((parser 2).perform ⟨9, 9⟩ .form).1 ∧ (parser 3).diagnostics = []) ∧
      (∃ d : Option Diagnostic, (parser 4).diagnostics = d.toList) ∧
      ∃ i j, i < j ∧ (parser 2).window.current.kind ≠ .endOfInput ∧
        (parser 2).window.tokens = [i, i + 1, i + 2].map (tokenAt (tokenize ") 1 + 2 )")) ∧
        (parser 3).window.tokens = [j, j + 1, j + 2].map (tokenAt (tokenize ") 1 + 2 )")) := by
  intro parser
  obtain ⟨place, -, -, hwindow, -, hcalls⟩ := parser_window_moves_on ⟨9, 9⟩ ") 1 + 2 )"
    [.primary, .advance, .form, .program]
  have hevaluated : (¬ Parser.AnswersNode ((parser 0).perform ⟨9, 9⟩ .primary).1 ∧
      Parser.AnswersNode ((parser 2).perform ⟨9, 9⟩ .form).1 ∧ (parser 3).diagnostics = []) ∧
      ¬ (parser 0).RunsOut ⟨9, 9⟩ .primary ∧ ¬ (parser 1).RunsOut ⟨9, 9⟩ .advance ∧
      ¬ (parser 2).RunsOut ⟨9, 9⟩ .form := by
    decide +kernel
  obtain ⟨hanswers, hprimary, hadvance, hform⟩ := hevaluated
  have hdepth : ∀ j < 3, ¬ ∃ call,
      [Parser.Call.primary, .advance, .form, .program][j]? = some call ∧
        (parser j).RunsOut ⟨9, 9⟩ call := by
    rintro j hj ⟨call, hcall, hrunsOut⟩
    obtain rfl | rfl | rfl : j = 0 ∨ j = 1 ∨ j = 2 := by omega
    · obtain rfl := Option.some.inj hcall
      exact hprimary hrunsOut
    · obtain rfl := Option.some.inj hcall
      exact hadvance hrunsOut
    · obtain rfl := Option.some.inj hcall
      exact hform hrunsOut
  obtain ⟨d, hd⟩ := (hcalls 3 .program rfl).2.1
  obtain ⟨hlt, hkind⟩ := (hcalls 2 .form rfl).2.2 (by simp) hanswers.2.1
  refine ⟨hanswers, ⟨d, ?_⟩, place 2, place 3, hlt, hkind,
    hwindow 2 fun j hj => hdepth j (by omega), hwindow 3 hdepth⟩
  rw [hanswers.2.2] at hd
  exact hd

/-! ## Out of depth -/

namespace Grammar

/-- Behind as many open parentheses as the limit allows, an expression is given up. -/
theorem nested_expression_openings (depth : Nat) (level : Precedence) {w : Window}
    (h : ∀ k < depth, (Window.advance^[k] w).current.kind = .openParen) :
    ((nested depth).expression level).run w =
      .error .tooDeep (Window.advance^[depth] w).interrupt := by
  induction depth generalizing w level with
  | zero => rfl
  | succ depth ih =>
    have hopen : w.current.kind = .openParen := h 0 (Nat.succ_pos depth)
    have hskip : w.skipPoints = w := by rw [Window.skipPoints, if_neg (by simp [hopen])]
    have hinner := ih .lowest (w := w.advance) fun k hk => h (k + 1) (by omega)
    show (expression (nested depth) level).run w = _
    simp only [expression, primary, Parse.skipPoints, Parse.current, Parse.advance,
      Attempt.run_bind, Attempt.run_update, Attempt.run_state, Attempt.run_pure,
      Window.view_skipPoints, Window.view_current, Window.view_advance, hskip, hopen, hinner]
    rfl

/-- With so many open parentheses, the forms are given up in the middle of a movement. -/
theorem forms_openings {depth : Nat} {w : Window}
    (h : ∀ k ≤ depth, (Window.advance^[k] w).current.kind = .openParen) :
    (forms (nested depth) w).2.2 = (Window.advance^[depth] w).interrupt := by
  have hopen : w.current.kind = .openParen := h 0 (Nat.zero_le depth)
  have hskip : w.skipPoints = w := by rw [Window.skipPoints, if_neg (by simp [hopen])]
  have hform : (form (nested depth)).run w =
      .error .tooDeep (Window.advance^[depth] w).interrupt := by
    rw [← nested_expression_openings depth .lowest fun k hk => h k (Nat.le_of_lt hk)]
    simp [form, Parse.skipPoints, hskip, hopen]
  rw [forms]
  simp [hskip, hopen, hform]

end Grammar

/-- Before the end, no two tokens in a row are the same. -/
theorem tokenAt_ne_tokenAt_succ {source : String} {i : Nat}
    (h : (tokenAt (tokenize source) (i + 1)).kind ≠ .endOfInput) :
    tokenAt (tokenize source) i ≠ tokenAt (tokenize source) (i + 1) := by
  have hi : i + 1 < (tokenize source).length := by
    by_contra hout
    rw [tokenAt, List.getElem?_eq_none (Nat.le_of_not_lt hout)] at h
    exact h (TokenStream.ended_ofSource source).last
  have hlt := List.pairwise_iff_getElem.1 (Cursor.ofSource source).pairwise_tokens.2 i (i + 1)
    (Nat.lt_of_succ_lt hi) hi (Nat.lt_succ_self i)
  intro heq
  rw [tokenAt, tokenAt, List.getElem?_eq_getElem (Nat.lt_of_succ_lt hi),
    List.getElem?_eq_getElem hi] at heq
  exact absurd (congrArg (fun t => t.position.key) heq) hlt.ne

/-- A text of open parentheses. -/
def openings (count : Nat) : String := String.ofList (List.replicate count '(')

theorem scan_openings (count : Nat) :
    scan (openings count).toList = List.replicate count (Token.sign '(') := by
  rw [openings, String.toList_ofList]
  induction count with
  | zero => exact scan_nil
  | succ count ih => rw [List.replicate_succ, List.replicate_succ, scan_mark (by decide), ih]

theorem kind_tokenAt_openings {count i : Nat} (h : i < count) :
    (tokenAt (tokenize (openings count)) i).kind = .openParen := by
  have htoken : ((tokenize (openings count)).map Token.unplaced)[i]? = some (Token.sign '(') := by
    rw [tokenize_unplaced, scan_openings, List.getElem?_append_left (by simpa using h),
      List.getElem?_replicate_of_lt h]
  rw [List.getElem?_map, Option.map_eq_some_iff] at htoken
  obtain ⟨t, ht, hsign⟩ := htoken
  rw [tokenAt, ht, Option.getD_some]
  exact congrArg Token.kind hsign

/-- However deep a program may nest, with enough open parentheses the window comes to show no three
    tokens in a row. -/
theorem Parser.program_openings {limits : Limits} {count : Nat} (h : limits.depth + 2 < count)
    (i : Nat) :
    ((Parser.ofSource (openings count)).perform limits .program).2.window.tokens ≠
      [tokenAt (tokenize (openings count)) i, tokenAt (tokenize (openings count)) (i + 1),
        tokenAt (tokenize (openings count)) (i + 2)] := by
  have hopen : ∀ k ≤ limits.depth,
      (Window.advance^[k] (Window.ofSource (openings count))).current.kind = .openParen := by
    intro k hk
    rw [Window.current_iterate_advance]
    exact kind_tokenAt_openings (by omega)
  have hwindow : ((Parser.ofSource (openings count)).perform limits .program).2.window =
      (Window.advance^[limits.depth] (Window.ofSource (openings count))).interrupt :=
    Grammar.forms_openings hopen
  have htokens := Window.tokens_iterate_advance (openings count) limits.depth
  rw [hwindow]
  generalize Window.advance^[limits.depth] (Window.ofSource (openings count)) = w at htokens
  intro hrow
  simp only [Window.tokens, Window.interrupt, List.cons.injEq, and_true] at htokens hrow
  -- the token that stands twice is an open parenthesis, which no two tokens in a row are
  have hkind := kind_tokenAt_openings h
  have htwice := hrow.2.1.symm.trans hrow.2.2
  rw [← htokens.2.2, hrow.2.2] at hkind
  exact tokenAt_ne_tokenAt_succ (by simp [hkind]) htwice

/-- Three thousand open parentheses are too many for a program. -/
theorem parser_window_cut_short :
    ¬ ∃ i, ((Parser.ofSource (openings 3000)).perform {} .program).2.window.tokens =
      [tokenAt (tokenize (openings 3000)) i, tokenAt (tokenize (openings 3000)) (i + 1),
        tokenAt (tokenize (openings 3000)) (i + 2)] :=
  fun ⟨i, hi⟩ => Parser.program_openings (by decide) i hi

end Castellano
