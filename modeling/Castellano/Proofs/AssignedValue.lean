import Castellano.Proofs.Frame
import Castellano.Proofs.Respelling
import Castellano.Proofs.RunLimits
import Castellano.Proofs.Terminator

/-!
# A name that is assigned and read

Instead of an expression, one can write an assignment of it to a name, a point and the name. The
grammar reads the expression as it does alone: all that follows it is a point and a name, which no
expression takes up. The run evaluates it one level deeper, binds the name to whatever comes of it,
a value or none, and finds that again.

* `tokensOf_assigned`, `parseSource_assigned`: the tokens and the tree of such a text.
* `run_assigned`: the run of such a tree.
* `assigned_value_same`: both texts come to the same.
-/

namespace Castellano

open Evaluation

/-- The text that assigns what the other text comes to, and then reads the name. -/
def assignedText (name text : String) : String := name ++ " := " ++ text ++ ". " ++ name

/-! ## Tokens -/

theorem tokensOf_assigned {name : String} (hname : IsName name) (text : String) :
    tokensOf (assignedText name text) =
      ⟨Token.word name :: Token.assignSign ::
        ((tokensOf text).upcoming ++ [Token.sign '.', Token.word name]), Token.atEnd {}⟩ := by
  have hchars : (assignedText name text).toList =
      name.toList ++ ' ' :: ':' :: '=' :: ' ' :: (text.toList ++ '.' :: ' ' :: name.toList) := by
    simp [assignedText]
  simp only [tokensOf, TokenStream.unplaced_ofSource, hchars]
  rw [scan_append_space, hname.toIsWord.scan, scan_assign, scan_spacing (by decide),
    scan_append_mark (by decide) (by decide), scan_spacing (by decide), hname.toIsWord.scan]
  rfl

/-- A point and a name, as what follows another text. -/
def Sequel.name {name : String} (hname : IsName name) : Sequel (Token.atEnd {}) where
  points := [Token.sign '.']
  rest := [Token.word name]
  point := by
    intro t ht
    rw [List.mem_singleton.1 ht]
    rfl
  nonempty := by simp
  starts := by
    have hkind : (Token.word name).kind = .identifier := hname.ofWord
    apply Grammar.starts_of_mem
    · show (Token.word name).kind ∈ _
      rw [hkind]
      decide
    · simp [Grammar.startsOtherwise, hkind]
  ended := by
    refine ⟨fun t ht => ?_, rfl⟩
    rw [List.mem_singleton.1 ht]
    exact TokenKind.ofWord_ne_endOfInput name

theorem Sequel.not_glues_name {name : String} (hname : IsName name) :
    ¬ (Sequel.name hname).Glues := by
  have hhead : (Sequel.name hname).head = .identifier := hname.ofWord
  simp [Sequel.Glues, hhead]

/-! ## Trees -/

namespace Grammar

variable {e : Token} {limit : Nat} {s s' : TokenStream} {f : Node}

/-- An expression is read alike behind points. -/
theorem expression_of_skipPoints {level : Precedence}
    (h : ((nested limit).expression level).run s.skipPoints = .ok f s') :
    ((nested limit).expression level).run s = .ok f s' := by
  cases limit with
  | zero => cases h
  | succ limit =>
    obtain ⟨first, s₁, s₂, hfirst, hrest⟩ := expression_eq_ok.1 h
    rw [TokenStream.skipPoints_skipPoints] at hfirst
    exact expression_eq_ok.2 ⟨first, s₁, s₂, hfirst, hrest⟩

/-- A form that is an expression was read as one. -/
theorem expression_of_form (hf : f.IsExpression) (h : (form (nested limit)).run s = .ok f s') :
    ((nested limit).expression .lowest).run s = .ok f s' := by
  apply expression_of_skipPoints
  cases form_eq_ok.1 h with
  | expression _ _ _ hnode => exact hnode
  | assignment | conditional | loop => simp [Node.IsExpression, Node.kind] at hf

/-- A text without forms and without a diagnostic consists of points. -/
theorem skipPoints_of_forms_eq_nil (hs : s.EndsAt e) (hforms : (forms (nested limit) s).1 = [])
    (hnone : (forms (nested limit) s).2.1 = none) : s.skipPoints.upcoming = [] := by
  by_contra hne
  cases hrun : (form (nested limit)).run s with
  | error fault s' => exact forms_of_error hs hne hrun hnone
  | ok f s' =>
    rw [forms_of_ok (nested_reads limit) hs hrun] at hforms
    cases hforms

/-- A text that is one expression, without a diagnostic, has nothing but points behind it. -/
theorem exists_expression_of_forms (hs : s.EndsAt e) (hforms : (forms (nested limit) s).1 = [f])
    (hnone : (forms (nested limit) s).2.1 = none) (hf : f.IsExpression) :
    ∃ s', ((nested limit).expression .lowest).run s = .ok f s' ∧ s'.EndsAt e ∧
      s'.skipPoints.upcoming = [] := by
  have hne : s.skipPoints.upcoming ≠ [] := by
    intro hend
    rw [forms_of_end hs hend] at hforms
    cases hforms
  cases hrun : (form (nested limit)).run s with
  | error fault s' => exact absurd hnone (forms_of_error hs hne hrun)
  | ok f' s' =>
    have hends := (form_reads (nested_reads limit) hs.ended hrun).1.endsAt hs
    rw [forms_of_ok (nested_reads limit) hs hrun] at hforms hnone
    obtain ⟨rfl, hrest⟩ := List.cons.inj hforms
    exact ⟨s', expression_of_form hf hrun, hends, skipPoints_of_forms_eq_nil hends hrest hnone⟩

theorem forms_name {name : String} (hname : IsName name) :
    (forms (nested (limit + 1)) ⟨[Token.word name], Token.atEnd {}⟩).1 = [.identifier {} name] ∧
      (forms (nested (limit + 1)) ⟨[Token.word name], Token.atEnd {}⟩).2.1 = none := by
  have hkind : (Token.word name).kind = .identifier := hname.ofWord
  have hrun : (form (nested (limit + 1))).run ⟨[Token.word name], Token.atEnd {}⟩ =
      .ok (.identifier {} name) ⟨[], Token.atEnd {}⟩ := by
    rw [form_run_expression (by simp [hkind]) (by simp [TokenStream.peek, Token.atEnd])
      (by simp [hkind]) (by simp [hkind])]
    refine expression_eq_ok.2 ⟨.identifier {} name, ⟨[], Token.atEnd {}⟩, ⟨[], Token.atEnd {}⟩,
      ?_, ?_, rfl⟩
    · rw [TokenStream.skipPoints_eq_self (by simp [hkind])]
      exact .identifier hkind
    · exact operators_stop (by decide)
  have hends : (TokenStream.mk [Token.word name] (Token.atEnd {})).EndsAt (Token.atEnd {}) := by
    refine ⟨⟨fun t ht => ?_, rfl⟩, rfl⟩
    rw [List.mem_singleton.1 ht]
    exact TokenKind.ofWord_ne_endOfInput name
  rw [forms_of_ok (nested_reads _) hends hrun,
    forms_of_end (e := Token.atEnd {}) ⟨⟨by simp, rfl⟩, rfl⟩ rfl]
  exact ⟨rfl, rfl⟩

end Grammar

theorem Node.kind_unplaced (n : Node) : n.unplaced.kind = n.kind := by
  cases n <;> simp [Node.unplaced, Node.relabel, Node.kind]

/-- The tree of an assignment of an expression, followed by the name. -/
theorem parseSource_assigned {limits : Limits} {name text : String} {f : Node}
    (hname : IsName name) (hparse : (parseSource limits text).2 = [])
    (hforms : (parseSource limits text).1.forms = [f]) (hf : f.IsExpression) :
    (parseSource limits (assignedText name text)).2 = [] ∧
      (parseSource limits (assignedText name text)).1.forms.map Node.unplaced =
        [.assignment {} name f.unplaced, .identifier {} name] := by
  have hends := endsAt_tokensOf text
  have hends' := endsAt_tokensOf (assignedText name text)
  obtain ⟨hnodes, hnone⟩ := forms_tokensOf limits text
  rw [hforms] at hnodes
  have hf' : f.unplaced.IsExpression := by
    rw [Node.IsExpression, Node.kind_unplaced]
    exact hf
  obtain ⟨s', hexpression, hs', hend⟩ :=
    Grammar.exists_expression_of_forms hends hnodes (hnone.2 hparse) hf'
  obtain ⟨k, -, habsorbs⟩ :=
    (Grammar.nested_absorbs (Token.atEnd {}) limits.depth).expression hends hexpression
  have hvalue := habsorbs.takes (.name hname) (.inr (Sequel.not_glues_name hname))
  have hkind : (Token.word name).kind = .identifier := hname.ofWord
  have hrun : (Grammar.form (Grammar.nested limits.depth)).run (tokensOf (assignedText name text)) =
      .ok (.assignment {} name f.unplaced) (s'.followedBy ((Sequel.name hname).after k)) := by
    rw [tokensOf_assigned hname]
    apply Grammar.form_eq_ok.2
    rw [TokenStream.skipPoints_eq_self (by simp [hkind])]
    refine .assignment hkind rfl ?_
    rw [TokenStream.followedBy, hends.last] at hvalue
    exact hvalue
  -- behind the assignment, points may be left before the name
  have hrest := Grammar.forms_followedBy_after (Grammar.nested_reads limits.depth) hs' hend
    (.name hname) k
  obtain ⟨limit, hlimit⟩ : ∃ limit, limits.depth = limit + 1 := by
    cases hdepth : limits.depth with
    | zero =>
      rw [hdepth] at hexpression
      cases hexpression
    | succ limit => exact ⟨limit, rfl⟩
  obtain ⟨hlast, hlastNone⟩ := @Grammar.forms_name limit name hname
  obtain ⟨hnodes', hnone'⟩ := forms_tokensOf limits (assignedText name text)
  rw [Grammar.forms_of_ok (Grammar.nested_reads limits.depth) hends' hrun, hrest, hlimit]
    at hnodes' hnone'
  refine ⟨hnone'.1 hlastNone, ?_⟩
  rw [← hnodes']
  exact congrArg _ hlast

/-! ## Runs -/

namespace Evaluation

/-- The result with the name bound to the value, if the run came to its end. -/
def binding (name : String) :
    Attempt.Result Halt State (Option Value) → Attempt.Result Halt State (Option Value)
  | .ok value t => .ok value { t with env := t.env.set name value }
  | .error halt t => .error halt t

section Assigned

variable {node : Node} {name : String} {s : State} (p q : Position)

/-- Inside the assignment there is one level less. -/
theorem run_assigned_succ (rounds depth : Nat) :
    (runSequence (evaluate ⟨depth + 1, rounds⟩) none
      [.assignment p name node, .identifier q name]).run s =
      binding name ((evaluateAt rounds depth node).run s) := by
  show (layer rounds (evaluateAt rounds depth) (.assignment p name node) >>= fun _ =>
    layer rounds (evaluateAt rounds depth) (.identifier q name) >>= fun value =>
      pure value).run s = _
  simp only [layer, assign, Attempt.run_bind]
  cases (evaluateAt rounds depth node).run s with
  | error halt t => rfl
  | ok value t =>
    simp only [Attempt.run_update, Attempt.run_pure, Attempt.run_state, Environment.find?_set,
      if_true, binding]

/-- Unless there is too little depth, an assignment of a node and then the name come to what the
    node comes to alone, and the name is bound to that. -/
theorem run_assigned {limits : Limits}
    (h : ∀ t, (runSequence (evaluate limits) none
      [.assignment p name node, .identifier q name]).run s ≠ .error .tooDeep t) :
    (∀ t, (evaluate limits node).run s ≠ .error .tooDeep t) ∧
    (runSequence (evaluate limits) none [.assignment p name node, .identifier q name]).run s =
      binding name ((evaluate limits node).run s) := by
  obtain ⟨depth, rounds⟩ := limits
  cases depth with
  | zero => exact absurd rfl (h s)
  | succ depth =>
    rw [run_assigned_succ p q rounds depth] at h ⊢
    obtain ⟨halt, t, rfl, hrun⟩ | hrun := @evaluate_refines (· = .tooDeep) rfl ⟨depth, rounds⟩
      ⟨depth + 1, rounds⟩ (Nat.le_succ depth) (Nat.le_refl rounds) (.inl rfl) node s
    · refine absurd ?_ (h t)
      rw [show (evaluateAt rounds depth node).run s = _ from hrun]
      rfl
    · have hsame : (evaluateAt rounds depth node).run s =
          (evaluate ⟨depth + 1, rounds⟩ node).run s := hrun
      rw [hsame] at h ⊢
      refine ⟨fun t ht => h t ?_, rfl⟩
      rw [ht]
      rfl

end Assigned

theorem run_runSequence_singleton (eval : Node → Evaluation (Option Value)) (node : Node)
    (s : State) : (runSequence eval none [node]).run s = (eval node).run s := by
  rw [runSequence, Attempt.run_bind]
  cases (eval node).run s <;> rfl

end Evaluation

theorem Run.runDiagnostics_ofEvaluation (env : Environment)
    (evaluation : Evaluation (Option Value)) :
    (ofEvaluation env evaluation).runDiagnostics =
      (evaluation.run { env }).state.diagnostics := by
  rw [ofEvaluation]
  cases evaluation.run { env } <;> rfl

/-- Programs of one node, and of an assignment of that node with the name behind it. -/
theorem Run.ofEvaluation_assigned {limits : Limits} {plain assigned : Program} {node : Node}
    {name : String} {p q : Position} (hplain : plain.forms = [node])
    (hassigned : assigned.forms = [.assignment p name node, .identifier q name])
    (hdeep : ¬ CallsTooDeep (ofEvaluation {} (evaluateProgram limits assigned)).runDiagnostics) :
    (ofEvaluation {} (evaluateProgram limits assigned)).value =
        (ofEvaluation {} (evaluateProgram limits plain)).value ∧
      (ofEvaluation {} (evaluateProgram limits assigned)).halt =
        (ofEvaluation {} (evaluateProgram limits plain)).halt ∧
      (ofEvaluation {} (evaluateProgram limits assigned)).runDiagnostics =
        (ofEvaluation {} (evaluateProgram limits plain)).runDiagnostics := by
  rw [runDiagnostics_ofEvaluation] at hdeep
  have hends := ne_tooDeep_of_not_callsTooDeep hdeep
  have hrun := run_evaluateProgram hends
  rw [hassigned] at hends hrun
  obtain ⟨hends', hsame⟩ := run_assigned p q hends
  have hrun' : (evaluateProgram limits plain).run {} = (evaluate limits node).run {} := by
    rw [run_evaluateProgram, hplain, run_runSequence_singleton]
    intro t
    rw [hplain, run_runSequence_singleton]
    exact hends' t
  simp only [ofEvaluation, hrun, hsame, hrun']
  cases (evaluate limits node).run {} with
  | ok value t => exact ⟨rfl, rfl, rfl⟩
  | error halt t => exact ⟨rfl, rfl, rfl⟩

/-- Forgetting positions does not hide that a run nested too deeply. -/
theorem Evaluation.callsTooDeep_unplace (diagnostics : List Diagnostic) :
    CallsTooDeep (diagnostics.map (Diagnostic.rename .unplace)) ↔ CallsTooDeep diagnostics := by
  have hfaults : ∀ ds : List Diagnostic,
      CallsTooDeep ds ↔ .meaning .callsTooDeep ∈ ds.map Diagnostic.fault := by
    intro ds
    simp [CallsTooDeep]
  rw [hfaults, hfaults, Diagnostic.map_fault_unplace]

/-- Assigning an expression to a name and reading the name is like the expression itself. Let a text
    be parsed alone to one form, an expression, without a diagnostic. With an assignment of it to
    any name, a point and that name, it is parsed without a diagnostic too. If the run of this does
    not nest too deeply, both end in the same way, with equal values up to positions, which are
    shown alike, and with the same faults in the same order. -/
theorem assigned_value_same (limits : Limits) (name text : String) (f : Node) (hname : IsName name)
    (hparse : (parseSource limits text).2 = [])
    (hforms : (parseSource limits text).1.forms = [f]) (hf : f.IsExpression)
    (hdeep : ¬ CallsTooDeep
      (runSource limits (name ++ " := " ++ text ++ ". " ++ name)).runDiagnostics) :
    let assigned := runSource limits (name ++ " := " ++ text ++ ". " ++ name)
    let plain := runSource limits text
    assigned.parseDiagnostics = [] ∧
    assigned.halt = plain.halt ∧
    assigned.value.map Value.unplaced = plain.value.map Value.unplaced ∧
    render assigned.value = render plain.value ∧
    assigned.diagnostics.map Diagnostic.fault = plain.diagnostics.map Diagnostic.fault := by
  intro assigned plain
  obtain ⟨hparse', hforms'⟩ := parseSource_assigned hname hparse hforms hf
  have hassigned : assigned.relabel .unplace = _ :=
    relabel_runSource limits (assignedText name text) unplace_injective
  have hplain : plain.relabel .unplace = _ := relabel_runSource limits text unplace_injective
  rw [hparse', List.map_nil] at hassigned
  rw [hparse, List.map_nil] at hplain
  obtain ⟨hvalue, hhalt, hdiagnostics⟩ :
      (assigned.relabel .unplace).value = (plain.relabel .unplace).value ∧
      (assigned.relabel .unplace).halt = (plain.relabel .unplace).halt ∧
      (assigned.relabel .unplace).diagnostics = (plain.relabel .unplace).diagnostics := by
    have hdeep' : ¬ CallsTooDeep (assigned.relabel .unplace).runDiagnostics := by
      rwa [Run.relabel, callsTooDeep_unplace]
    have hnode : ((parseSource limits text).1.relabel .unplace).forms = [f.unplaced] :=
      congrArg (List.map Node.unplaced) hforms
    rw [hassigned] at hdeep'
    obtain ⟨hvalue, hhalt, hdiagnostics⟩ := Run.ofEvaluation_assigned hnode hforms' hdeep'
    rw [hassigned, hplain]
    exact ⟨hvalue, hhalt, hdiagnostics⟩
  refine ⟨hparse', hhalt, hvalue, ?_, ?_⟩
  · rw [← Run.render_relabel .unplace assigned, hvalue, Run.render_relabel]
  · rw [← Diagnostic.map_fault_unplace, ← Run.diagnostics_relabel, hdiagnostics,
      Run.diagnostics_relabel, Diagnostic.map_fault_unplace]

/-- An expression that uses the name itself before it is bound and divides by zero, with points
    around it. -/
theorem assigned_value_same_unbound :
    let text := ". x + (1 / 0). ."
    let assigned := runSource ⟨9, 3⟩ ("x" ++ " := " ++ text ++ ". " ++ "x")
    let plain := runSource ⟨9, 3⟩ text
    (parseSource ⟨9, 3⟩ text).2 = [] ∧ ¬ CallsTooDeep assigned.runDiagnostics ∧
    plain.diagnostics.map Diagnostic.fault = [.meaning (.unbound "x"), .meaning .divisionByZero] ∧
    assigned.diagnostics.map Diagnostic.fault = plain.diagnostics.map Diagnostic.fault ∧
    assigned.value.map Value.unplaced = plain.value.map Value.unplaced := by
  intro text assigned plain
  obtain ⟨hname, hparse, hkinds, hdeep, hfaults⟩ :
      IsName "x" ∧ (parseSource ⟨9, 3⟩ text).2 = [] ∧
      (parseSource ⟨9, 3⟩ text).1.forms.map Node.kind = [.binary] ∧
      ¬ CallsTooDeep assigned.runDiagnostics ∧
      plain.diagnostics.map Diagnostic.fault =
        [.meaning (.unbound "x"), .meaning .divisionByZero] := by
    decide +kernel
  obtain ⟨f, hforms, hkind⟩ := List.map_eq_singleton_iff.1 hkinds
  have hexpression : f.IsExpression := by simp [Node.IsExpression, hkind]
  obtain ⟨-, -, hvalue, -, hdiagnostics⟩ :=
    assigned_value_same ⟨9, 3⟩ "x" text f hname hparse hforms hexpression hdeep
  exact ⟨hparse, hdeep, hfaults, hdiagnostics, hvalue⟩

end Castellano
