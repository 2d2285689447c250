import Castellano.Grammar.Program
import Castellano.Proofs.Stream

/-!
# Positions and names play no part in parsing

A relabelling moves every token to another position and gives names other spellings. Parsing decides
by the kinds of tokens alone, so that it takes a relabelled stream to the relabelled tree, and fails
on it with the relabelled fault.

* `Relabelling`, `Node.relabel`, `TokenStream.relabel`: relabellings and what they do.
* `Node.unplaced`, `Program.unplaced`: a tree with all positions forgotten. Two trees are equal up
  to positions if these are equal.
* `Parse.Equivariant`: a step commutes with a relabelling; closed under sequencing and repetition.
* `Grammar.nested_equivariant`, `Grammar.forms_relabel`: so do all rules and whole programs.
-/

namespace Castellano

/-! ## Relabellings -/

/-- A change of positions and of the spelling of names. -/
structure Relabelling where
  place : Position → Position
  name : String → String

/-- Forgets all positions and keeps the names. -/
def Relabelling.unplace : Relabelling := ⟨fun _ => {}, id⟩

/-- The token at its new position; only an identifier is spelled anew. -/
def Token.relabel (ρ : Relabelling) (t : Token) : Token :=
  ⟨t.kind, if t.kind = .identifier then ρ.name t.literal else t.literal, ρ.place t.position⟩

/-- The parameter under its new name, at its new position. -/
def Parameter.relabel (ρ : Relabelling) (p : Parameter) : Parameter :=
  ⟨ρ.name p.name, ρ.place p.position⟩

mutual

/-- The tree with all its positions and names changed. -/
def Node.relabel (ρ : Relabelling) : Node → Node
  | .integer p value => .integer (ρ.place p) value
  | .boolean p value => .boolean (ρ.place p) value
  | .identifier p name => .identifier (ρ.place p) (ρ.name name)
  | .binary p operator left right =>
    .binary (ρ.place p) (operator.relabel ρ) (left.relabel ρ) (right.relabel ρ)
  | .minus p operand => .minus (ρ.place p) (operand.relabel ρ)
  | .not p operand => .not (ρ.place p) (operand.relabel ρ)
  | .call p name arguments => .call (ρ.place p) (ρ.name name) (Node.relabelAll ρ arguments)
  | .function p parameters body =>
    .function (ρ.place p) (parameters.map (Parameter.relabel ρ)) (Block.relabel ρ body)
  | .assignment p name value => .assignment (ρ.place p) (ρ.name name) (value.relabel ρ)
  | .conditional p condition consequence alternative =>
    .conditional (ρ.place p) (condition.relabel ρ) (Block.relabel ρ consequence)
      (Block.relabelOption ρ alternative)
  | .loop p condition body => .loop (ρ.place p) (condition.relabel ρ) (Block.relabel ρ body)
  | .block b => .block (Block.relabel ρ b)
  | .program p forms => .program (ρ.place p) (Node.relabelAll ρ forms)
  | .bare p kind => .bare (ρ.place p) kind

/-- The trees with all their positions and names changed. -/
def Node.relabelAll (ρ : Relabelling) : List Node → List Node
  | [] => []
  | node :: nodes => node.relabel ρ :: Node.relabelAll ρ nodes

/-- The block with all its positions and names changed. -/
def Block.relabel (ρ : Relabelling) : Block Node → Block Node
  | ⟨forms, position⟩ => ⟨Node.relabelAll ρ forms, ρ.place position⟩

/-- The block, if there is one, with all its positions and names changed. -/
def Block.relabelOption (ρ : Relabelling) : Option (Block Node) → Option (Block Node)
  | none => none
  | some b => some (Block.relabel ρ b)

end

@[simp]
theorem Node.relabelAll_eq_map (ρ : Relabelling) (nodes : List Node) :
    Node.relabelAll ρ nodes = nodes.map (Node.relabel ρ) := by
  induction nodes with
  | nil => rfl
  | cons node nodes ih => rw [Node.relabelAll, ih, List.map_cons]

@[simp]
theorem Block.relabelOption_eq_map (ρ : Relabelling) (b : Option (Block Node)) :
    Block.relabelOption ρ b = b.map (Block.relabel ρ) := by
  cases b <;> rfl

/-- The stream of the relabelled tokens. -/
def TokenStream.relabel (ρ : Relabelling) (s : TokenStream) : TokenStream :=
  ⟨s.upcoming.map (Token.relabel ρ), s.last.relabel ρ⟩

/-- The same failure, at the relabelled token. -/
def Failure.relabel (ρ : Relabelling) : Failure → Failure
  | .error e => .error ⟨e.fault, e.token.relabel ρ⟩
  | .tooDeep => .tooDeep

/-- The diagnostic at its new position. -/
def Diagnostic.relabel (ρ : Relabelling) (d : Diagnostic) : Diagnostic :=
  ⟨d.fault, ρ.place d.position⟩

/-- The same outcome on relabelled tokens. -/
def Attempt.Result.relabel {α β : Type} (ρ : Relabelling) (f : α → β) :
    Attempt.Result Failure TokenStream α → Attempt.Result Failure TokenStream β
  | .ok a s => .ok (f a) (s.relabel ρ)
  | .error e s => .error (e.relabel ρ) (s.relabel ρ)

/-! ## Trees without positions -/

/-- The token without its position. -/
def Token.unplaced (t : Token) : Token := t.relabel .unplace

/-- The tree without its positions. -/
def Node.unplaced (node : Node) : Node := node.relabel .unplace

/-- The program without its positions. -/
def Program.unplaced (p : Program) : Program := ⟨p.forms.map Node.unplaced, {}⟩

/-- The stream without its positions. -/
def TokenStream.unplaced (s : TokenStream) : TokenStream := s.relabel .unplace

theorem Token.unplaced_eq (t : Token) : t.unplaced = ⟨t.kind, t.literal, {}⟩ := by
  simp [Token.unplaced, Token.relabel, Relabelling.unplace]

/-! ## What a relabelled stream shows -/

section Streams

variable (ρ : Relabelling)

@[simp]
theorem Token.kind_relabel (t : Token) : (t.relabel ρ).kind = t.kind := rfl

@[simp]
theorem Token.position_relabel (t : Token) : (t.relabel ρ).position = ρ.place t.position := rfl

theorem Token.literal_relabel {t : Token} (h : t.kind ≠ .identifier) :
    (t.relabel ρ).literal = t.literal := by
  simp [Token.relabel, h]

theorem Token.literal_relabel_identifier {t : Token} (h : t.kind = .identifier) :
    (t.relabel ρ).literal = ρ.name t.literal := by
  simp [Token.relabel, h]

theorem Token.lexeme_relabel {t : Token} (h : t.kind ≠ .identifier) :
    (t.relabel ρ).lexeme = t.lexeme := by
  simp [Token.lexeme, Token.literal_relabel ρ h]

@[simp]
theorem TokenStream.current_relabel (s : TokenStream) :
    (s.relabel ρ).current = s.current.relabel ρ := by
  cases h : s.upcoming <;> simp [TokenStream.current, TokenStream.relabel, h]

@[simp]
theorem TokenStream.peek_relabel (s : TokenStream) :
    (s.relabel ρ).peek = s.peek.relabel ρ := by
  simp only [TokenStream.peek, TokenStream.relabel, List.getElem?_map]
  cases s.upcoming[1]? <;> rfl

@[simp]
theorem TokenStream.peekTwice_relabel (s : TokenStream) :
    (s.relabel ρ).peekTwice = s.peekTwice.relabel ρ := by
  simp only [TokenStream.peekTwice, TokenStream.relabel, List.getElem?_map]
  cases s.upcoming[2]? <;> rfl

@[simp]
theorem TokenStream.advance_relabel (s : TokenStream) :
    (s.relabel ρ).advance = s.advance.relabel ρ := by
  simp [TokenStream.advance, TokenStream.relabel, List.map_tail]

@[simp]
theorem TokenStream.skipPoints_relabel (s : TokenStream) :
    (s.relabel ρ).skipPoints = s.skipPoints.relabel ρ := by
  simp only [TokenStream.skipPoints, TokenStream.relabel, List.dropWhile_map]
  rfl

@[simp]
theorem TokenStream.remaining_relabel (s : TokenStream) :
    (s.relabel ρ).remaining = s.remaining := by
  simp [TokenStream.remaining, TokenStream.relabel]

@[simp]
theorem TokenStream.precedence_relabel (s : TokenStream) :
    (s.relabel ρ).precedence = s.precedence := by
  simp [TokenStream.precedence]

end Streams

/-! ## Steps that commute with a relabelling -/

namespace Parse

variable {α β γ δ : Type} {ρ : Relabelling}

/-- On a relabelled stream `y` does what `x` does on the stream itself, and `f` says how the answers
    are related. -/
def Equivariant (ρ : Relabelling) (f : α → β) (x : Parse TokenStream α) (y : Parse TokenStream β) :
    Prop :=
  ∀ s, y.run (s.relabel ρ) = (x.run s).relabel ρ f

theorem equivariant_pure (f : α → β) (a : α) : Equivariant ρ f (pure a) (pure (f a)) :=
  fun _ => rfl

theorem equivariant_bind {f : α → β} {g : γ → δ} {x : Parse TokenStream α} {y : Parse TokenStream β}
    {k : α → Parse TokenStream γ} {l : β → Parse TokenStream δ} (hx : Equivariant ρ f x y)
    (hk : ∀ a, Equivariant ρ g (k a) (l (f a))) :
    Equivariant ρ g (x >>= k) (y >>= l) := by
  intro s
  rw [Attempt.run_bind, Attempt.run_bind, hx s]
  cases x.run s with
  | ok a s' => exact hk a s'
  | error e s' => rfl

theorem equivariant_current : Equivariant ρ (Token.relabel ρ) current current := by
  intro s
  simp [current, Attempt.Result.relabel]

theorem equivariant_advance : Equivariant ρ id advance advance := by
  intro s
  simp [advance, Attempt.Result.relabel]

theorem equivariant_skipPoints : Equivariant ρ id skipPoints skipPoints := by
  intro s
  simp [skipPoints, Attempt.Result.relabel]

theorem equivariant_failAt (f : α → β) (fault : GrammarFault) (t : Token) :
    Equivariant ρ f (failAt fault t) (failAt fault (t.relabel ρ)) :=
  fun _ => rfl

theorem equivariant_fail (f : α → β) (fault : GrammarFault) :
    Equivariant ρ f (fail fault) (fail fault) :=
  equivariant_bind equivariant_current fun t => equivariant_failAt f fault t

theorem equivariant_accept (kind : TokenKind) : Equivariant ρ id (accept kind) (accept kind) := by
  refine equivariant_bind equivariant_current fun t => ?_
  rw [Token.kind_relabel]
  split
  · exact equivariant_bind equivariant_advance fun _ => equivariant_pure id true
  · exact equivariant_pure id false

theorem equivariant_expect (kind : TokenKind) (fault : GrammarFault) :
    Equivariant ρ (Token.relabel ρ) (expect kind fault) (expect kind fault) := by
  refine equivariant_bind equivariant_current fun t => ?_
  rw [Token.kind_relabel]
  split
  · exact equivariant_bind equivariant_advance fun _ => equivariant_pure _ t
  · exact equivariant_fail _ fault

theorem equivariant_manyTill (stop : TokenKind → Bool) {f : α → β} {x : Parse TokenStream α}
    {y : Parse TokenStream β} (h : Equivariant ρ f x y) :
    Equivariant ρ (List.map f) (manyTill stop x) (manyTill stop y) := by
  intro s
  show manyTillFrom stop y (s.relabel ρ) = (manyTillFrom stop x s).relabel ρ (List.map f)
  fun_induction manyTillFrom stop x s with
  | case1 s hstop =>
    rw [TokenStream.view_current] at hstop
    rw [manyTillFrom]
    simp [hstop, Attempt.Result.relabel]
  | case2 s hstop e s' hx =>
    rw [TokenStream.view_current] at hstop
    rw [manyTillFrom, h s, hx]
    simp [hstop, Attempt.Result.relabel]
  | case3 s hstop a s' hx hlt e s'' hrest ih =>
    simp only [TokenStream.view_current, TokenStream.view_remaining] at hstop hlt
    rw [manyTillFrom, h s, hx]
    rw [hrest] at ih
    simp [hstop, Attempt.Result.relabel, hlt, ih]
  | case4 s hstop a s' hx hlt as s'' hrest ih =>
    simp only [TokenStream.view_current, TokenStream.view_remaining] at hstop hlt
    rw [manyTillFrom, h s, hx]
    rw [hrest] at ih
    simp [hstop, Attempt.Result.relabel, hlt, ih]
  | case5 s hstop a s' hx hlt =>
    simp only [TokenStream.view_current, TokenStream.view_remaining] at hstop hlt
    rw [manyTillFrom, h s, hx]
    simp [hstop, Attempt.Result.relabel, hlt]

end Parse

/-! ## Rules -/

namespace Grammar

open Parse

/-- The steps for what stands inside commute with the relabelling. -/
structure Nested.Equivariant (ρ : Relabelling) (sub : Nested TokenStream) : Prop where
  expression : ∀ level,
    Parse.Equivariant ρ (Node.relabel ρ) (sub.expression level) (sub.expression level)
  block : Parse.Equivariant ρ (Block.relabel ρ) sub.block sub.block

section Rules

variable {ρ : Relabelling} {sub : Nested TokenStream} (hsub : sub.Equivariant ρ)

include hsub

theorem parameter_equivariant :
    Equivariant ρ (Parameter.relabel ρ) (parameter sub) (parameter sub) := by
  refine equivariant_bind equivariant_current fun start => ?_
  refine equivariant_bind (hsub.expression _) fun node => ?_
  cases node with
  | identifier p name => exact equivariant_pure (Parameter.relabel ρ) ⟨name, p⟩
  | _ => exact equivariant_failAt _ _ start

theorem function_equivariant :
    Equivariant ρ (Node.relabel ρ) (function sub) (function sub) := by
  refine equivariant_bind equivariant_current fun start => ?_
  refine equivariant_bind equivariant_advance fun _ => ?_
  refine equivariant_bind (equivariant_expect _ _) fun _ => ?_
  refine equivariant_bind (equivariant_manyTill _ (parameter_equivariant hsub)) fun parameters => ?_
  refine equivariant_bind (equivariant_expect _ _) fun _ => ?_
  refine equivariant_bind hsub.block fun body => ?_
  exact equivariant_pure (Node.relabel ρ) (.function start.position parameters body)

theorem primary_equivariant : Equivariant ρ (Node.relabel ρ) (primary sub) (primary sub) := by
  refine equivariant_bind equivariant_skipPoints fun _ => ?_
  refine equivariant_bind equivariant_current fun t => ?_
  rw [Token.kind_relabel]
  split
  · rename_i h
    rw [Token.literal_relabel ρ (by simp [h])]
    exact equivariant_bind equivariant_advance fun _ =>
      equivariant_pure _ (Node.integer t.position (Word64.ofDecimal t.literal))
  · rename_i h
    rw [Token.literal_relabel_identifier ρ h]
    exact equivariant_bind equivariant_advance fun _ =>
      equivariant_pure _ (Node.identifier t.position t.literal)
  · exact equivariant_bind equivariant_advance fun _ =>
      equivariant_pure _ (Node.boolean t.position true)
  · exact equivariant_bind equivariant_advance fun _ =>
      equivariant_pure _ (Node.boolean t.position false)
  · refine equivariant_bind equivariant_advance fun _ => ?_
    refine equivariant_bind (hsub.expression _) fun inner => ?_
    refine equivariant_bind (equivariant_expect _ _) fun _ => ?_
    exact equivariant_pure _ inner
  · refine equivariant_bind equivariant_advance fun _ => ?_
    refine equivariant_bind equivariant_current fun next => ?_
    rw [Token.kind_relabel]
    split
    · exact equivariant_fail _ _
    · refine equivariant_bind (hsub.expression _) fun operand => ?_
      exact equivariant_pure _ (Node.minus t.position operand)
  · refine equivariant_bind equivariant_advance fun _ => ?_
    refine equivariant_bind equivariant_current fun next => ?_
    rw [Token.kind_relabel]
    split
    · exact equivariant_fail _ _
    · refine equivariant_bind (hsub.expression _) fun operand => ?_
      exact equivariant_pure _ (Node.not t.position operand)
  · exact function_equivariant hsub
  · exact equivariant_fail _ _
  · rename_i h _ _ _ _ _ _ _
    rw [Token.lexeme_relabel ρ h]
    exact equivariant_fail _ _

theorem binary_equivariant (left : Node) :
    Equivariant ρ (Node.relabel ρ) (binary sub left) (binary sub (left.relabel ρ)) := by
  refine equivariant_bind equivariant_current fun operator => ?_
  refine equivariant_bind equivariant_advance fun _ => ?_
  refine equivariant_bind (hsub.expression _) fun right => ?_
  exact equivariant_pure _ (Node.binary operator.position operator left right)

theorem call_equivariant (callee : Node) :
    Equivariant ρ (Node.relabel ρ) (call sub callee) (call sub (callee.relabel ρ)) := by
  cases callee with
  | identifier p name =>
    refine equivariant_bind equivariant_advance fun _ => ?_
    refine equivariant_bind (equivariant_manyTill _ (hsub.expression _)) fun arguments => ?_
    refine equivariant_bind (equivariant_expect _ _) fun _ => ?_
    rw [← Node.relabelAll_eq_map]
    exact equivariant_pure _ (Node.call p name arguments)
  | _ => exact equivariant_fail _ _

theorem extend_equivariant (left : Node) :
    Equivariant ρ (Node.relabel ρ) (extend sub left) (extend sub (left.relabel ρ)) := by
  refine equivariant_bind equivariant_current fun t => ?_
  rw [Token.kind_relabel]
  split
  · exact call_equivariant hsub left
  · exact binary_equivariant hsub left

theorem operators_equivariant (level : Precedence) (left : Node) :
    Equivariant ρ (Node.relabel ρ) (operators sub level left)
      (operators sub level (left.relabel ρ)) := by
  intro s
  show operatorsFrom sub level (left.relabel ρ) (s.relabel ρ) =
    (operatorsFrom sub level left s).relabel ρ (Node.relabel ρ)
  fun_induction operatorsFrom sub level left s with
  | case1 left s hlevel e s' hx =>
    rw [TokenStream.view_precedence] at hlevel
    rw [operatorsFrom, extend_equivariant hsub left s, hx]
    simp [hlevel, Attempt.Result.relabel]
  | case2 left s hlevel extended s' hx hlt ih =>
    simp only [TokenStream.view_precedence, TokenStream.view_remaining] at hlevel hlt
    rw [operatorsFrom, extend_equivariant hsub left s, hx]
    simpa [hlevel, Attempt.Result.relabel, hlt] using ih
  | case3 left s hlevel extended s' hx hlt =>
    simp only [TokenStream.view_precedence, TokenStream.view_remaining] at hlevel hlt
    rw [operatorsFrom, extend_equivariant hsub left s, hx]
    simp [hlevel, Attempt.Result.relabel, hlt]
  | case4 left s hlevel =>
    rw [TokenStream.view_precedence] at hlevel
    rw [operatorsFrom]
    simp [hlevel, Attempt.Result.relabel]

theorem expression_equivariant (level : Precedence) :
    Equivariant ρ (Node.relabel ρ) (expression sub level) (expression sub level) := by
  refine equivariant_bind (primary_equivariant hsub) fun first => ?_
  refine equivariant_bind (operators_equivariant hsub level first) fun whole => ?_
  refine equivariant_bind (equivariant_accept _) fun _ => ?_
  exact equivariant_pure _ whole

/-- The name of an assignment is a name only if the current token is one, which the rule itself does
    not check. -/
theorem assignment_run_relabel {s : TokenStream} (h : s.current.kind = .identifier) :
    (assignment sub).run (s.relabel ρ) = ((assignment sub).run s).relabel ρ (Node.relabel ρ) := by
  have hvalue : Equivariant ρ (Node.relabel ρ)
      (sub.expression .lowest >>= fun value =>
        pure (.assignment s.current.position s.current.literal value))
      (sub.expression .lowest >>= fun value =>
        pure (.assignment (ρ.place s.current.position) (ρ.name s.current.literal) value)) :=
    equivariant_bind (hsub.expression _) fun value =>
      equivariant_pure _ (Node.assignment s.current.position s.current.literal value)
  have hrun := hvalue s.advance.advance
  simp only [assignment, current, advance, Attempt.run_bind, Attempt.run_state, Attempt.run_pure,
    Attempt.run_update, TokenStream.view_current, TokenStream.view_advance,
    TokenStream.current_relabel, TokenStream.advance_relabel, Token.position_relabel,
    Token.literal_relabel_identifier ρ h]
  exact hrun

theorem alternative_equivariant :
    Equivariant ρ (Option.map (Block.relabel ρ)) (alternative sub) (alternative sub) := by
  have hblock : Equivariant ρ (Option.map (Block.relabel ρ)) (do return some (← sub.block))
      (do return some (← sub.block)) :=
    equivariant_bind hsub.block fun b => equivariant_pure (Option.map (Block.relabel ρ)) (some b)
  refine equivariant_bind (equivariant_accept _) fun found => ?_
  cases found with
  | true => exact hblock
  | false =>
    intro s
    have hstarts : startsOtherwise (s.relabel ρ) = startsOtherwise s := by
      simp [startsOtherwise]
    simp only [id_eq, Bool.false_eq_true, if_false, Attempt.run_bind, Attempt.run_state, hstarts]
    split
    · exact equivariant_bind equivariant_advance (fun _ =>
        equivariant_bind equivariant_advance fun _ =>
        equivariant_bind equivariant_advance fun _ => hblock) s
    · rfl

theorem conditional_equivariant :
    Equivariant ρ (Node.relabel ρ) (conditional sub) (conditional sub) := by
  refine equivariant_bind equivariant_current fun start => ?_
  refine equivariant_bind equivariant_advance fun _ => ?_
  refine equivariant_bind (hsub.expression _) fun condition => ?_
  refine equivariant_bind hsub.block fun consequence => ?_
  refine equivariant_bind (alternative_equivariant hsub) fun other => ?_
  rw [← Block.relabelOption_eq_map]
  exact equivariant_pure _ (Node.conditional start.position condition consequence other)

theorem loop_equivariant : Equivariant ρ (Node.relabel ρ) (loop sub) (loop sub) := by
  refine equivariant_bind equivariant_current fun start => ?_
  refine equivariant_bind equivariant_advance fun _ => ?_
  refine equivariant_bind (hsub.expression _) fun condition => ?_
  refine equivariant_bind hsub.block fun body => ?_
  exact equivariant_pure _ (Node.loop start.position condition body)

theorem form_equivariant : Equivariant ρ (Node.relabel ρ) (form sub) (form sub) := by
  refine equivariant_bind equivariant_skipPoints fun _ => ?_
  intro s
  simp only [Attempt.run_bind, Attempt.run_state, TokenStream.view_current, TokenStream.view_peek,
    TokenStream.current_relabel, TokenStream.peek_relabel, Token.kind_relabel]
  split
  · rename_i h
    exact assignment_run_relabel hsub (by simp at h; exact h.1)
  · split
    · exact conditional_equivariant hsub s
    · split
      · exact loop_equivariant hsub s
      · exact hsub.expression _ s

theorem block_equivariant : Equivariant ρ (Block.relabel ρ) (block sub) (block sub) := by
  have hforms : Equivariant ρ (Node.relabel ρ) (do let f ← form sub; skipPoints; return f)
      (do let f ← form sub; skipPoints; return f) :=
    equivariant_bind (form_equivariant hsub) fun f =>
      equivariant_bind equivariant_skipPoints fun _ => equivariant_pure _ f
  refine equivariant_bind equivariant_current fun start => ?_
  refine equivariant_bind (equivariant_accept _) fun found => ?_
  cases found with
  | true =>
    refine equivariant_bind equivariant_skipPoints fun _ => ?_
    refine equivariant_bind (equivariant_manyTill _ hforms) fun forms => ?_
    refine equivariant_bind (equivariant_expect _ _) fun _ => ?_
    rw [← Node.relabelAll_eq_map]
    exact equivariant_pure (Block.relabel ρ) ⟨forms, start.position⟩
  | false =>
    refine equivariant_bind (form_equivariant hsub) fun f => ?_
    exact equivariant_pure (Block.relabel ρ) ⟨[f], start.position⟩

end Rules

theorem nested_equivariant (ρ : Relabelling) (limit : Nat) : (nested limit).Equivariant ρ := by
  induction limit with
  | zero => exact ⟨fun _ _ => rfl, fun _ => rfl⟩
  | succ limit ih => exact ⟨expression_equivariant ih, block_equivariant ih⟩

/-! ## Programs -/

theorem diagnostic_relabel (ρ : Relabelling) (e : ParseError) :
    (ParseError.mk e.fault (e.token.relabel ρ)).diagnostic = e.diagnostic.relabel ρ := by
  by_cases h : e.token.kind = .illegal
  · simp [ParseError.diagnostic, ParseError.cause, Diagnostic.relabel, h,
      Token.literal_relabel ρ (show e.token.kind ≠ .identifier by simp [h])]
  · simp [ParseError.diagnostic, ParseError.cause, Diagnostic.relabel, h]

/-- A relabelled stream has the relabelled forms and diagnostic. -/
theorem forms_relabel (ρ : Relabelling) (limit : Nat) (s : TokenStream) :
    forms (nested limit) (s.relabel ρ) =
      ((forms (nested limit) s).1.map (Node.relabel ρ),
        (forms (nested limit) s).2.1.map (Diagnostic.relabel ρ),
        (forms (nested limit) s).2.2.relabel ρ) := by
  have hform : ∀ {start : TokenStream} {r : Attempt.Result Failure TokenStream Node},
      (form (nested limit)).run start = r →
        (form (nested limit)).run (start.relabel ρ) = r.relabel ρ (Node.relabel ρ) := by
    rintro start r rfl
    exact form_equivariant (nested_equivariant ρ limit) start
  fun_induction forms (nested limit) s with
  | case1 s start hend =>
    rw [forms]
    simp only [start, TokenStream.view_current, TokenStream.view_skipPoints] at hend
    simp [hend, start]
  | case2 s start hend e s' hrun =>
    have hrun' := hform hrun
    rw [forms]
    simp only [start, TokenStream.view_current, TokenStream.view_skipPoints] at hend hrun'
    simp [hend, hrun', Attempt.Result.relabel, Failure.relabel, diagnostic_relabel]
  | case3 s start hend s' hrun =>
    have hrun' := hform hrun
    rw [forms]
    simp only [start, TokenStream.view_current, TokenStream.view_skipPoints] at hend hrun'
    simp [hend, hrun', Attempt.Result.relabel, Failure.relabel, Diagnostic.relabel, start]
  | case4 s start hend f s' hrun hlt fs diagnostic s'' hrest ih =>
    have hrun' := hform hrun
    rw [forms]
    simp only [start, TokenStream.view_current, TokenStream.view_skipPoints,
      TokenStream.view_remaining] at hend hrun' hlt
    simp [hend, hrun', Attempt.Result.relabel, hlt, ih, hrest]
  | case5 s start hend f s' hrun hlt =>
    have hrun' := hform hrun
    rw [forms]
    simp only [start, TokenStream.view_current, TokenStream.view_skipPoints,
      TokenStream.view_remaining] at hend hrun' hlt
    simp [hend, hrun', Attempt.Result.relabel, hlt]

end Grammar

end Castellano
