import Castellano.Proofs.Windows

/-!
# Where a diagnostic stands

No rule steps over an illegal token: wherever a rule moves on without a look at the kind of the
token, that kind has been seen before. So a program with an illegal token is never parsed to its
end, and the diagnostic stands at that token or before it.

* `TokenStream.Clears`: one stream leads to another, and no illegal token lies between.
* `Parse.Careful`: a step clears what it reads, and it fails at a token that it has come to in this
  way; closed under sequencing and repetition. `Parse.CarefulAtLegal`: in front of a legal token.
* `Grammar.nested_careful`, `Grammar.form_careful`: at every depth, all rules are careful.
* `TokenKind.isUnused`: the kinds that no program has, `Accounts.not_unused`.
* `parse_diagnostic_well_placed`: when there is a diagnostic, where, and of which class.
-/

namespace Castellano

/-! ## Streams without illegal tokens -/

namespace TokenStream

variable {s s₁ s' : TokenStream}

/-- The second stream is what is left of the first, and no illegal token lies between. -/
def Clears (s s' : TokenStream) : Prop :=
  ∃ read, s.upcoming = read ++ s'.upcoming ∧ s'.last = s.last ∧ ∀ t ∈ read, t.kind ≠ .illegal

namespace Clears

theorem refl (s : TokenStream) : s.Clears s := ⟨[], rfl, rfl, by simp⟩

theorem trans (h : s.Clears s₁) (h' : s₁.Clears s') : s.Clears s' := by
  obtain ⟨read, hread, hlast, hlegal⟩ := h
  obtain ⟨read', hread', hlast', hlegal'⟩ := h'
  refine ⟨read ++ read', ?_, hlast'.trans hlast, List.forall_mem_append.2 ⟨hlegal, hlegal'⟩⟩
  rw [hread, hread', List.append_assoc]

theorem advance (h : s.current.kind ≠ .illegal) : s.Clears s.advance := by
  obtain ⟨upcoming, last⟩ := s
  cases upcoming with
  | nil => exact .refl _
  | cons t ts => exact ⟨[t], rfl, rfl, by simpa using h⟩

theorem skipPoints (s : TokenStream) : s.Clears s.skipPoints := by
  refine ⟨s.upcoming.takeWhile fun t => t.kind = .point, List.takeWhile_append_dropWhile.symm, rfl,
    fun t ht hillegal => ?_⟩
  have hpoint := List.mem_takeWhile_imp ht
  simp [hillegal] at hpoint

end Clears

end TokenStream

open TokenStream

/-! ## Careful steps -/

/-- From `s` on, the run has cleared what it read; an error is at a token that it had come to. -/
def ClearsFrom (s : TokenStream) {α : Type} : Attempt.Result Failure TokenStream α → Prop
  | .ok _ s' => s.Clears s'
  | .error (.error e) _ => ∃ s₁, s.Clears s₁ ∧ s₁.current = e.token
  | .error .tooDeep _ => True

namespace ClearsFrom

variable {α β : Type} {s s₁ s₂ : TokenStream}

theorem after {r : Attempt.Result Failure TokenStream α} (hr : ClearsFrom s₁ r)
    (h : s.Clears s₁) : ClearsFrom s r := by
  cases r with
  | ok a s' => exact h.trans hr
  | error e s' =>
    cases e with
    | error e =>
      obtain ⟨s₂, hs₂, htoken⟩ := hr
      exact ⟨s₂, h.trans hs₂, htoken⟩
    | tooDeep => trivial

theorem of_run {x : Parse TokenStream α} {r : Attempt.Result Failure TokenStream α}
    (h : ClearsFrom s (x.run s)) (hrun : x.run s = r) : ClearsFrom s r := by
  rwa [hrun] at h

/-- What fails in a part fails as a whole. -/
theorem error {e : Failure} (h : ClearsFrom s (.error e s₁ : Attempt.Result _ _ α)) :
    ClearsFrom s (.error e s₂ : Attempt.Result _ _ β) := by
  cases e <;> exact h

end ClearsFrom

namespace Parse

variable {α β : Type}

/-- The step steps over no illegal token, and fails at a token that it has come to. -/
def Careful (x : Parse TokenStream α) : Prop := ∀ s : TokenStream, ClearsFrom s (x.run s)

/-- The step is careful if the current token is legal. -/
def CarefulAtLegal (x : Parse TokenStream α) : Prop :=
  ∀ s : TokenStream, s.current.kind ≠ .illegal → ClearsFrom s (x.run s)

theorem clearsFrom_bind {x : Parse TokenStream α} {f : α → Parse TokenStream β} {s : TokenStream}
    (hx : ClearsFrom s (x.run s)) (hf : ∀ a s₁, s.Clears s₁ → ClearsFrom s ((f a).run s₁)) :
    ClearsFrom s ((x >>= f).run s) := by
  rw [Attempt.run_bind]
  cases hrun : x.run s with
  | ok a s₁ => exact hf a s₁ (hx.of_run hrun)
  | error e s₁ => exact (hx.of_run hrun).error

namespace Careful

theorem atLegal {x : Parse TokenStream α} (h : Careful x) : CarefulAtLegal x := fun s _ => h s

theorem pure (a : α) : Careful (pure a) := .refl

theorem current : Careful current := .refl

theorem skipPoints : Careful skipPoints := Clears.skipPoints

theorem fail (fault : GrammarFault) : Careful (fail fault : Parse TokenStream α) :=
  fun s => ⟨s, .refl s, rfl⟩

theorem bind {x : Parse TokenStream α} {f : α → Parse TokenStream β} (hx : Careful x)
    (hf : ∀ a, Careful (f a)) :
    Careful (x >>= f) :=
  fun s => clearsFrom_bind (hx s) fun a s₁ h => (hf a s₁).after h

theorem ite {c : Prop} [Decidable c] {x y : Parse TokenStream α} (hx : Careful x) (hy : Careful y) :
    Careful (if c then x else y) := by
  split
  · exact hx
  · exact hy

theorem accept {kind : TokenKind} (hkind : kind ≠ .illegal) : Careful (accept kind) := by
  intro s
  rw [run_accept]
  split
  · rename_i h
    exact Clears.advance (by rwa [h])
  · exact .refl s

theorem expect {kind : TokenKind} (hkind : kind ≠ .illegal) (fault : GrammarFault) :
    Careful (expect kind fault) := by
  intro s
  rw [run_expect]
  split
  · rename_i h
    exact Clears.advance (by rwa [h])
  · exact ⟨s, .refl s, rfl⟩

theorem manyTill (stop : TokenKind → Bool) {x : Parse TokenStream α} (h : Careful x) :
    Careful (manyTill stop x) := by
  intro s
  show ClearsFrom s (manyTillFrom stop x s)
  fun_induction manyTillFrom stop x s with
  | case1 s hstop => exact .refl s
  | case2 s hstop e s' hx => exact ((h s).of_run hx).error
  | case3 s hstop a s' hx hlt e s'' hrest ih =>
    rw [hrest] at ih
    exact (ih.after ((h s).of_run hx)).error
  | case4 s hstop a s' hx hlt as s'' hrest ih =>
    rw [hrest] at ih
    exact Clears.trans ((h s).of_run hx) ih
  | case5 s hstop a s' hx hlt => exact (h s).of_run hx

end Careful

namespace CarefulAtLegal

theorem current {f : Token → Parse TokenStream α} (hf : ∀ t, CarefulAtLegal (f t)) :
    CarefulAtLegal (current >>= f) :=
  fun s hs => hf s.current s hs

theorem advance {x : Parse TokenStream α} (hx : Careful x) : CarefulAtLegal (do advance; x) :=
  fun s hs => (hx s.advance).after (.advance hs)

end CarefulAtLegal

theorem Careful.bind_current {f : Token → Parse TokenStream α}
    (hf : ∀ s : TokenStream, ClearsFrom s ((f s.current).run s)) :
    Careful (Parse.current >>= f) := hf

/-- A step that looks at the current token first. -/
theorem Careful.ofCurrent {f : Token → Parse TokenStream α} (hf : ∀ t, CarefulAtLegal (f t))
    (hillegal : ∀ s : TokenStream, s.current.kind = .illegal →
      ClearsFrom s ((f s.current).run s)) : Careful (Parse.current >>= f) := by
  refine .bind_current fun s => ?_
  by_cases hs : s.current.kind = .illegal
  · exact hillegal s hs
  · exact hf s.current s hs

end Parse

/-! ## Rules -/

namespace Grammar

open Parse

/-- The steps for what stands inside are careful. -/
structure Nested.Careful (sub : Nested TokenStream) : Prop where
  expression : ∀ level, Parse.Careful (sub.expression level)
  block : Parse.Careful sub.block

section Rules

variable {sub : Nested TokenStream} (h : sub.Careful)

include h

/-- A parameter that is no name is reported at its first token. -/
theorem parameter_careful : Careful (parameter sub) := by
  refine .bind_current fun s => clearsFrom_bind (h.expression _ s) fun n s₁ hs => ?_
  cases n with
  | identifier => exact hs
  | _ => exact ⟨s, .refl s, rfl⟩

theorem function_careful : CarefulAtLegal (function sub) :=
  .current fun _ => .advance (.bind (.expect (by decide) _) fun _ =>
    .bind (.manyTill _ (parameter_careful h)) fun _ => .bind (.expect (by decide) _) fun _ =>
      .bind h.block fun _ => .pure _)

theorem primary_careful : Careful (primary sub) := by
  refine .bind .skipPoints fun _ => .ofCurrent (fun token => ?_) fun s hs => ?_
  · split
    case h_1 | h_2 | h_3 | h_4 => exact .advance (.pure _)
    case h_5 =>
      exact .advance (.bind (h.expression _) fun _ => .bind (.expect (by decide) _) fun _ =>
        .pure _)
    case h_6 | h_7 =>
      exact .advance (.bind .current fun _ => .ite (.fail _)
        (.bind (h.expression _) fun _ => .pure _))
    case h_8 => exact function_careful h
    case h_9 | h_10 => exact (Careful.fail _).atLegal
  · simp only [hs]
    exact Careful.fail _ s

theorem extend_careful (left : Node) : CarefulAtLegal (extend sub left) := by
  refine .current fun token => ?_
  split
  · cases left with
    | identifier p name =>
      exact .advance (.bind (.manyTill _ (h.expression _)) fun _ =>
        .bind (.expect (by decide) _) fun _ => .pure _)
    | _ => exact (Careful.fail _).atLegal
  · exact .current fun _ => .advance (.bind (h.expression _) fun _ => .pure _)

theorem operators_careful (level : Precedence) (left : Node) :
    Careful (operators sub level left) := by
  have hlegal : ∀ s : TokenStream, level < s.precedence → s.current.kind ≠ .illegal := by
    intro s hlevel hillegal
    rw [TokenStream.precedence, hillegal] at hlevel
    exact not_lt_lowest level hlevel
  intro s
  show ClearsFrom s (operatorsFrom sub level left s)
  fun_induction operatorsFrom sub level left s with
  | case1 left s hlevel e s' hx =>
    exact (extend_careful h left s (hlegal s hlevel)).of_run hx
  | case2 left s hlevel extended s' hx hlt ih =>
    exact ih.after ((extend_careful h left s (hlegal s hlevel)).of_run hx)
  | case3 left s hlevel extended s' hx hlt =>
    exact (extend_careful h left s (hlegal s hlevel)).of_run hx
  | case4 left s hlevel => exact .refl s

theorem expression_careful (level : Precedence) : Careful (expression sub level) :=
  .bind (primary_careful h) fun first => .bind (operators_careful h level first) fun _ =>
    .bind (.accept (by decide)) fun _ => .pure _

theorem assignment_careful {s : TokenStream} (hname : s.current.kind = .identifier)
    (hassign : s.peek.kind = .assign) : ClearsFrom s ((assignment sub).run s) := by
  have hclears : s.Clears s.advance.advance :=
    .trans (.advance (by simp [hname])) (.advance (by simp [TokenStream.current_advance, hassign]))
  exact (Careful.bind (h.expression _) (fun _ => .pure _) s.advance.advance).after hclears

theorem alternative_careful : Careful (alternative sub) := by
  have hblock : Careful (do return some (← sub.block) : Parse TokenStream (Option (Block Node))) :=
    .bind h.block fun _ => .pure _
  intro s
  by_cases hsino : s.current.kind = .sino
  · rw [alternative_run_sino hsino]
    exact (hblock _).after (.advance (by simp [hsino]))
  by_cases hother : startsOtherwise s
  · rw [alternative_run_otherwise hother]
    obtain ⟨hsi, hno, hentonces⟩ := startsOtherwise_iff.1 hother
    have hclears : s.Clears s.advance.advance.advance :=
      .trans (.advance (by simp [hsi]))
        (.trans (.advance (by simp [hno])) (.advance (by simp [hentonces])))
    exact (hblock _).after hclears
  · rw [alternative_eq_ok.2 (.none hsino hother)]
    exact .refl s

theorem conditional_careful : CarefulAtLegal (conditional sub) :=
  .current fun _ => .advance (.bind (h.expression _) fun _ => .bind h.block fun _ =>
    .bind (alternative_careful h) fun _ => .pure _)

theorem loop_careful : CarefulAtLegal (loop sub) :=
  .current fun _ => .advance (.bind (h.expression _) fun _ => .bind h.block fun _ => .pure _)

theorem form_careful : Careful (form sub) := by
  intro s
  refine ClearsFrom.after ?_ (.skipPoints s)
  rw [form_run]
  split
  · rename_i hassign
    exact assignment_careful h hassign.1 hassign.2
  · split
    · rename_i hsi
      exact conditional_careful h _ (by simp [hsi])
    · split
      · rename_i hmientras
        exact loop_careful h _ (by simp [hmientras])
      · exact h.expression _ _

theorem block_careful : Careful (block sub) :=
  .bind .current fun _ => .bind (.accept (by decide)) fun _ => .ite
    (.bind .skipPoints fun _ => .bind (.manyTill _ (.bind (form_careful h) fun _ =>
      .bind .skipPoints fun _ => .pure _)) fun _ => .bind (.expect (by decide) _) fun _ => .pure _)
    (.bind (form_careful h) fun _ => .pure _)

end Rules

/-- At every depth, expressions and blocks are careful. -/
theorem nested_careful (limit : Nat) : (nested limit).Careful := by
  induction limit with
  | zero => exact ⟨fun _ _ => trivial, fun _ => trivial⟩
  | succ limit ih => exact ⟨expression_careful ih, block_careful ih⟩

/-! ## Programs -/

/-- Where nothing may be nested, nothing but the depth is reported. -/
theorem form_run_zero (s : TokenStream) :
    ∃ s', (form (nested 0)).run s = .error .tooDeep s' := by
  rw [form_run]
  split
  · exact ⟨_, rfl⟩
  · split
    · exact ⟨_, rfl⟩
    · split <;> exact ⟨_, rfl⟩

/-- An illegal token is seen before anything is nested. -/
theorem form_run_illegal (limit : Nat) {s : TokenStream} (hs : s.current.kind = .illegal) :
    ∃ e, (form (nested (limit + 1))).run s = .error (.error e) s := by
  rw [form_run_expression (by simp [hs]) (by simp [hs]) (by simp [hs]) (by simp [hs])]
  refine ⟨⟨.unexpectedToken s.current.lexeme, s.current⟩, ?_⟩
  simp [nested, expression, primary, TokenStream.skipPoints_eq_self (s := s) (by simp [hs]), hs]

theorem label_cause (e : ParseError) :
    e.cause.label = if e.token.kind = .illegal then "lexical" else "syntactic" := by
  rw [ParseError.cause]
  split <;> rfl

/-- Where the diagnostic of a program stands, and its class. -/
theorem forms_diagnostic_clears {limit : Nat} {s : TokenStream} {d : Diagnostic}
    (h : (forms (nested limit) s).2.1 = some d) :
    ∃ s₁, s.Clears s₁ ∧ s₁.current.position = d.position ∧
      d.fault.label =
        if s₁.current.kind = .illegal ∧ 0 < limit then "lexical" else "syntactic" := by
  have hform := form_careful (nested_careful limit)
  fun_induction forms (nested limit) s with
  | case1 s start hend => cases h
  | case2 s start hend e s' hrun =>
    cases h
    have hlimit : 0 < limit := by
      cases limit with
      | zero =>
        obtain ⟨s₁, hdeep⟩ := form_run_zero start
        rw [hdeep] at hrun
        cases hrun
      | succ limit => exact Nat.succ_pos limit
    obtain ⟨s₁, hclears, htoken⟩ := (hform start).of_run hrun
    refine ⟨s₁, (Clears.skipPoints s).trans hclears, by rw [htoken]; rfl, ?_⟩
    rw [htoken, ParseError.diagnostic, label_cause]
    simp only [hlimit, and_true]
  | case3 s start hend s' hrun =>
    cases h
    refine ⟨start, .skipPoints s, rfl, (if_neg ?_).symm⟩
    rintro ⟨hillegal, hlimit⟩
    obtain ⟨k, rfl⟩ := Nat.exists_eq_succ_of_ne_zero (Nat.ne_of_gt hlimit)
    obtain ⟨e, herror⟩ := form_run_illegal k hillegal
    rw [herror] at hrun
    cases hrun
  | case4 s start hend f s' hrun hlt fs diagnostic s'' hrest ih =>
    have hread : start.Clears s' := (hform start).of_run hrun
    rw [hrest] at ih
    obtain ⟨s₁, hclears, hplace⟩ := ih h
    exact ⟨s₁, ((Clears.skipPoints s).trans hread).trans hclears, hplace⟩
  | case5 s start hend f s' hrun hlt => cases h

/-- Without a diagnostic, a program is parsed to the end. -/
theorem forms_ends {sub : Nested TokenStream} (hreads : sub.Reads) {s : TokenStream} (hs : s.Ended)
    (h : (forms sub s).2.1 = none) : (forms sub s).2.2.upcoming = [] := by
  fun_induction forms sub s with
  | case1 s start hend =>
    by_contra hne
    exact kind_skipPoints_ne_end ⟨hs, rfl⟩ hne hend
  | case2 s start hend e s' hrun => cases h
  | case3 s start hend s' hrun => cases h
  | case4 s start hend f s' hrun hlt fs diagnostic s'' hrest ih =>
    have hended := (LeadsTo.skipPoints s).ended hs
    rw [hrest] at ih
    exact ih ((form_reads hreads hended hrun).1.ended hended) h
  | case5 s start hend f s' hrun hlt =>
    have hskip := LeadsTo.skipPoints s
    exact absurd (Nat.lt_of_lt_of_le (form_consumes hreads (hskip.ended hs) hrun)
      hskip.remaining_le) hlt

end Grammar

/-! ## Tokens without a use -/

namespace TokenKind

/-- The kinds of tokens that stand in no program. -/
def isUnused : TokenKind → Bool
  | illegal | comma | semicolon | y | o | para | hacer => true
  | _ => false

theorem not_isUnused_of_isMark {kind : TokenKind} (h : kind.isMark) : kind.isUnused = false := by
  cases kind <;> first | rfl | cases h

theorem not_isUnused_of_isOperator {kind : TokenKind} (h : kind.isOperator) :
    kind.isUnused = false := by
  cases kind <;> first | rfl | cases h

end TokenKind

theorem Node.StandsFor.not_unused {n : Node} {t : Token} (h : n.StandsFor t) :
    t.kind.isUnused = false := by
  cases n with
  | boolean p value =>
    rw [h.1]
    cases value <;> rfl
  | binary p operator left right => exact TokenKind.not_isUnused_of_isOperator h.1
  | block b => exact h.elim
  | program p forms => exact h.elim
  | bare p kind => exact h.elim
  | _ =>
    rw [h.1]
    rfl

theorem Accounts.not_unused {ts : List Token} {nodes : List Node} (h : Accounts ts nodes) :
    ∀ t ∈ ts, t.kind.isUnused = false := by
  induction h with
  | nil => simp
  | mark h _ ih => exact List.forall_mem_cons.2 ⟨TokenKind.not_isUnused_of_isMark h, ih⟩
  | otherwise ha hb hc _ ih =>
    simp only [List.forall_mem_cons, ha, hb, hc]
    exact ⟨rfl, rfl, rfl, ih⟩
  | node h _ ih => exact List.forall_mem_cons.2 ⟨h.not_unused, ih⟩

theorem TokenStream.exists_current_cons (s : TokenStream) :
    ∃ rest, s.upcoming ++ [s.last] = s.current :: rest := by
  obtain ⟨upcoming, last⟩ := s
  cases upcoming with
  | nil => exact ⟨[], rfl⟩
  | cons t ts => exact ⟨ts ++ [last], rfl⟩

/-- A place that is reached without an illegal token, among the tokens of the source. -/
theorem TokenStream.Clears.tokenize_eq {source : String} {s : TokenStream}
    (h : (TokenStream.ofSource source).Clears s) :
    ∃ read rest, tokenize source = read ++ s.current :: rest ∧ ∀ t ∈ read, t.kind ≠ .illegal := by
  obtain ⟨init, p, htokens, -⟩ := (Cursor.ofSource source).exists_tokens_eq
  obtain ⟨read, hread, hlast, hlegal⟩ := h
  rw [TokenStream.ofSource_eq htokens] at hread hlast
  obtain ⟨rest, hrest⟩ := s.exists_current_cons
  refine ⟨read, rest, ?_, hlegal⟩
  calc tokenize source = init ++ [Token.atEnd p] := htokens
    _ = read ++ (s.upcoming ++ [s.last]) := by rw [hlast, ← List.append_assoc, ← hread]
    _ = read ++ s.current :: rest := by rw [hrest]

/-- A token that stands in no program is not passed over. -/
theorem Grammar.forms_ne_none_of_unused (limit : Nat) {source : String} {t : Token}
    (ht : t ∈ tokenize source) (hunused : t.kind.isUnused) :
    (forms (nested limit) (TokenStream.ofSource source)).2.1 ≠ none := by
  intro hnone
  obtain ⟨init, p, htokens, -⟩ := (Cursor.ofSource source).exists_tokens_eq
  obtain ⟨s₁, ⟨read, hread, -, haccounts⟩, hend⟩ :=
    forms_reads (nested_reads limit) (TokenStream.ended_ofSource source)
  rw [TokenStream.ofSource_eq htokens, hend hnone, List.append_nil] at hread
  rw [tokenize, htokens, List.mem_append, List.mem_singleton] at ht
  rcases ht with ht | rfl
  · rw [haccounts.not_unused t (hread ▸ ht)] at hunused
    cases hunused
  · cases hunused

/-- There is at most one diagnostic, and none only if all tokens have been read. A token that stands
    in no program is always reported. The diagnostic stands at a token before which there is no
    illegal one; it is lexical if that token is illegal, and syntactic otherwise. The one exception
    is a limit that allows no nesting at all: then nothing but the depth is reported. -/
theorem parse_diagnostic_well_placed (limits : Limits) (source : String) :
    (parseSource limits source).2.length ≤ 1 ∧
    ((parseSource limits source).2 = [] →
      (Grammar.program limits.depth (Window.ofSource source)).2.2.stream.upcoming = []) ∧
    ((∃ t ∈ tokenize source, t.kind.isUnused) → (parseSource limits source).2.length = 1) ∧
    ∀ d ∈ (parseSource limits source).2, ∃ read t rest,
      tokenize source = read ++ t :: rest ∧ (∀ u ∈ read, u.kind ≠ .illegal) ∧
      t.position = d.position ∧
      d.fault.label =
        if t.kind = .illegal ∧ 0 < limits.depth then "lexical" else "syntactic" := by
  have hdiagnostics : (parseSource limits source).2 =
      (Grammar.forms (Grammar.nested limits.depth) (TokenStream.ofSource source)).2.1.toList := by
    rw [parseSource_eq]
    rfl
  refine ⟨Option.length_toList_le, fun hnone => ?_, ?_⟩
  · rw [Grammar.stream_program_of_none (Window.sound_ofSource source)
      (Option.toList_eq_nil_iff.1 hnone), Window.stream_ofSource]
    exact Grammar.forms_ends (Grammar.nested_reads limits.depth)
      (TokenStream.ended_ofSource source) (Option.toList_eq_nil_iff.1 (hdiagnostics ▸ hnone))
  rw [hdiagnostics]
  refine ⟨?_, fun d hd => ?_⟩
  · rintro ⟨t, ht, hunused⟩
    obtain ⟨d, hd⟩ := Option.ne_none_iff_exists'.1
      (Grammar.forms_ne_none_of_unused limits.depth ht hunused)
    rw [hd]
    rfl
  · obtain ⟨s, hclears, hposition, hlabel⟩ :=
      Grammar.forms_diagnostic_clears (Option.mem_toList.1 hd)
    obtain ⟨read, rest, htokens, hlegal⟩ := hclears.tokenize_eq
    exact ⟨read, s.current, rest, htokens, hlegal, hposition, hlabel⟩

/-- At a source without a fault, and at one with an illegal token before an unused one. -/
theorem parse_diagnostic_well_placed_illegal :
    let source := "x := 1 +\n$ y 2"
    let d : Diagnostic := ⟨.illegalCharacter "$", ⟨2, 0⟩⟩
    (parseSource ⟨9, 0⟩ "x := 1").2 = [] ∧
      (Grammar.program 9 (Window.ofSource "x := 1")).2.2.stream.upcoming = [] ∧
      ⟨.y, "y", ⟨2, 2⟩⟩ ∈ tokenize source ∧ (parseSource ⟨9, 0⟩ source).2.length = 1 ∧
      d ∈ (parseSource ⟨9, 0⟩ source).2 ∧
      ∃ read t rest, tokenize source = read ++ t :: rest ∧ (∀ u ∈ read, u.kind ≠ .illegal) ∧
        t.position = d.position ∧
        d.fault.label = if t.kind = .illegal ∧ 0 < 9 then "lexical" else "syntactic" := by
  intro source d
  obtain ⟨hnone, hy, hd⟩ : (parseSource ⟨9, 0⟩ "x := 1").2 = [] ∧
      ⟨.y, "y", ⟨2, 2⟩⟩ ∈ tokenize source ∧ d ∈ (parseSource ⟨9, 0⟩ source).2 := by
    decide +kernel
  obtain ⟨-, hend, -, -⟩ := parse_diagnostic_well_placed ⟨9, 0⟩ "x := 1"
  obtain ⟨-, -, hunused, hplace⟩ := parse_diagnostic_well_placed ⟨9, 0⟩ source
  exact ⟨hnone, hend hnone, hy, hunused ⟨_, hy, rfl⟩, hd, hplace d hd⟩

end Castellano
