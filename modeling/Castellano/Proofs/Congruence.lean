import Castellano.Grammar.Program

/-!
# Relations that the grammar keeps

The rules are made from few steps. A relation between steps, on views of one kind or of two, that
the basic steps have and that sequencing and the loops keep, is therefore one between all rules.

* `Grammar.Congruence`: such a relation.
* `Grammar.Nested.Related`: the steps for what stands inside are related.
* `Congruence.form`, `Congruence.block` and so on: then all rules are.
* `Congruence.nested`: and the rules are at every depth, if giving up is related to itself.
-/

namespace Castellano.Grammar

open Parse

variable {σ τ : Type} [TokenView σ] [TokenView τ]

/-- The steps with which the rules look, move, fail and go on keep the relation. -/
structure Congruence (R : ∀ α : Type, Parse σ α → Parse τ α → Prop) : Prop where
  pure : ∀ {α : Type} (a : α), R α (pure a) (pure a)
  bind : ∀ {α β : Type} {x : Parse σ α} {y : Parse τ α} {f : α → Parse σ β} {g : α → Parse τ β},
    R α x y → (∀ a, R β (f a) (g a)) → R β (x >>= f) (y >>= g)
  /-- What comes next may depend on the tokens in view, and on nothing else. -/
  look : ∀ {α : Type} {f : Token → Token → Token → Parse σ α}
    {g : Token → Token → Token → Parse τ α}, (∀ t₀ t₁ t₂, R α (f t₀ t₁ t₂) (g t₀ t₁ t₂)) →
    R α
      (Attempt.state >>= fun s =>
        f (TokenView.current s) (TokenView.peek s) (TokenView.peekTwice s))
      (Attempt.state >>= fun s =>
        g (TokenView.current s) (TokenView.peek s) (TokenView.peekTwice s))
  advance : R Unit advance advance
  skipPoints : R Unit skipPoints skipPoints
  failAt : ∀ {α : Type} (fault : GrammarFault) (t : Token), R α (failAt fault t) (failAt fault t)
  manyTill : ∀ {α : Type} (stop : TokenKind → Bool) {x : Parse σ α} {y : Parse τ α},
    R α x y → R (List α) (manyTill stop x) (manyTill stop y)
  operators : ∀ {sub : Nested σ} {sup : Nested τ} (level : Precedence),
    (∀ left, R Node (extend sub left) (extend sup left)) →
    ∀ left, R Node (operators sub level left) (operators sup level left)

/-- The form that starts with the given tokens. -/
def formFrom (sub : Nested σ) (t₀ t₁ : Token) : Parse σ Node :=
  if t₀.kind = .identifier && t₁.kind = .assign then assignment sub
  else if t₀.kind = .si then conditional sub
  else if t₀.kind = .mientras then loop sub
  else sub.expression .lowest

/-- The other block of a conditional, if the given tokens read `si no entonces`. -/
def otherwiseFrom (sub : Nested σ) (t₀ t₁ t₂ : Token) : Parse σ (Option (Block Node)) :=
  if t₀.kind = .si && t₁.kind = .no && t₂.kind = .entonces then do
    advance
    advance
    advance
    return some (← sub.block)
  else return none

/-- The steps for what stands inside are related. -/
structure Nested.Related (R : ∀ α : Type, Parse σ α → Parse τ α → Prop) (sub : Nested σ)
    (sup : Nested τ) : Prop where
  expression : ∀ level, R Node (sub.expression level) (sup.expression level)
  block : R (Block Node) sub.block sup.block

namespace Congruence

variable {R : ∀ α : Type, Parse σ α → Parse τ α → Prop} (hR : Congruence R) {α : Type}

include hR

/-! ## Single tokens -/

theorem current : R Token current current := hR.look fun t _ _ => hR.pure t

theorem fail (fault : GrammarFault) : R α (fail fault) (fail fault) :=
  hR.bind hR.current fun t => hR.failAt fault t

omit hR [TokenView σ] [TokenView τ] in
theorem ite {c : Prop} [Decidable c] {x x' : Parse σ α} {y y' : Parse τ α} (hx : R α x y)
    (hx' : R α x' y') : R α (if c then x else x') (if c then y else y') := by
  split
  · exact hx
  · exact hx'

theorem accept (kind : TokenKind) : R Bool (accept kind) (accept kind) :=
  hR.bind hR.current fun _ => ite (hR.bind hR.advance fun _ => hR.pure true) (hR.pure false)

theorem expect (kind : TokenKind) (fault : GrammarFault) :
    R Token (expect kind fault) (expect kind fault) :=
  hR.bind hR.current fun t => ite (hR.bind hR.advance fun _ => hR.pure t) (hR.fail fault)

theorem expectWorded (kind : TokenKind) (message : String) :
    R Token (expectWorded kind message) (expectWorded kind message) :=
  hR.bind hR.current fun _ => hR.expect kind _

/-! ## Rules -/

variable {sub : Nested σ} {sup : Nested τ} (h : sub.Related R sup)

include h

theorem parameter : R Parameter (parameter sub) (parameter sup) := by
  refine hR.bind hR.current fun start => hR.bind (h.expression _) fun n => ?_
  cases n with
  | identifier p name => exact hR.pure _
  | _ => exact hR.failAt _ start

theorem function : R Node (function sub) (function sup) :=
  hR.bind hR.current fun _ => hR.bind hR.advance fun _ => hR.bind (hR.expect _ _) fun _ =>
    hR.bind (hR.manyTill _ (hR.parameter h)) fun _ => hR.bind (hR.expect _ _) fun _ =>
      hR.bind h.block fun _ => hR.pure _

theorem primary : R Node (primary sub) (primary sup) := by
  refine hR.bind hR.skipPoints fun _ => hR.bind hR.current fun t => ?_
  split
  case h_1 | h_2 | h_3 | h_4 => exact hR.bind hR.advance fun _ => hR.pure _
  case h_5 =>
    exact hR.bind hR.advance fun _ => hR.bind (h.expression _) fun _ =>
      hR.bind (hR.expect _ _) fun _ => hR.pure _
  case h_6 | h_7 =>
    exact hR.bind hR.advance fun _ => hR.bind hR.current fun _ =>
      ite (hR.fail _) (hR.bind (h.expression _) fun _ => hR.pure _)
  case h_8 => exact hR.function h
  case h_9 | h_10 => exact hR.fail _

theorem binary (left : Node) : R Node (binary sub left) (binary sup left) :=
  hR.bind hR.current fun _ => hR.bind hR.advance fun _ => hR.bind (h.expression _) fun _ =>
    hR.pure _

theorem call (callee : Node) : R Node (call sub callee) (call sup callee) := by
  cases callee with
  | identifier p name =>
    exact hR.bind hR.advance fun _ => hR.bind (hR.manyTill _ (h.expression _)) fun _ =>
      hR.bind (hR.expect _ _) fun _ => hR.pure _
  | _ => exact hR.fail _

theorem extend (left : Node) : R Node (extend sub left) (extend sup left) :=
  hR.bind hR.current fun _ => ite (hR.call h left) (hR.binary h left)

theorem expression (level : Precedence) : R Node (expression sub level) (expression sup level) :=
  hR.bind (hR.primary h) fun first => hR.bind (hR.operators level (hR.extend h) first) fun _ =>
    hR.bind (hR.accept _) fun _ => hR.pure _

theorem assignment : R Node (assignment sub) (assignment sup) :=
  hR.bind hR.current fun _ => hR.bind hR.advance fun _ => hR.bind hR.advance fun _ =>
    hR.bind (h.expression _) fun _ => hR.pure _

theorem alternative : R (Option (Block Node)) (alternative sub) (alternative sup) := by
  have hblock : R (Option (Block Node)) (some <$> sub.block) (some <$> sup.block) :=
    hR.bind h.block fun _ => hR.pure _
  refine hR.bind (hR.accept _) fun _ => ite hblock ?_
  refine hR.look (f := fun t₀ t₁ t₂ => otherwiseFrom sub t₀ t₁ t₂)
    (g := fun t₀ t₁ t₂ => otherwiseFrom sup t₀ t₁ t₂) fun _ _ _ => ite ?_ (hR.pure none)
  exact hR.bind hR.advance fun _ => hR.bind hR.advance fun _ => hR.bind hR.advance fun _ => hblock

theorem conditional : R Node (conditional sub) (conditional sup) :=
  hR.bind hR.current fun _ => hR.bind hR.advance fun _ => hR.bind (h.expression _) fun _ =>
    hR.bind h.block fun _ => hR.bind (hR.alternative h) fun _ => hR.pure _

theorem loop : R Node (loop sub) (loop sup) :=
  hR.bind hR.current fun _ => hR.bind hR.advance fun _ => hR.bind (h.expression _) fun _ =>
    hR.bind h.block fun _ => hR.pure _

theorem form : R Node (form sub) (form sup) := by
  refine hR.bind hR.skipPoints fun _ => ?_
  refine hR.look (f := fun t₀ t₁ _ => formFrom sub t₀ t₁) (g := fun t₀ t₁ _ => formFrom sup t₀ t₁)
    fun _ _ _ => ?_
  exact ite (hR.assignment h) (ite (hR.conditional h) (ite (hR.loop h) (h.expression _)))

theorem block : R (Block Node) (block sub) (block sup) :=
  hR.bind hR.current fun _ => hR.bind (hR.accept _) fun _ => ite
    (hR.bind hR.skipPoints fun _ =>
      hR.bind (hR.manyTill _ (hR.bind (hR.form h) fun _ =>
        hR.bind hR.skipPoints fun _ => hR.pure _)) fun _ =>
        hR.bind (hR.expect _ _) fun _ => hR.pure _)
    (hR.bind (hR.form h) fun _ => hR.pure _)

omit h

/-- At every depth, expressions and blocks are related if giving up is. -/
theorem nested (hexhaust : ∀ α, R α exhaust exhaust) (limit : Nat) :
    (nested limit : Nested σ).Related R (nested limit) := by
  induction limit with
  | zero => exact ⟨fun _ => hexhaust Node, hexhaust (Block Node)⟩
  | succ limit ih => exact ⟨hR.expression ih, hR.block ih⟩

end Congruence

end Castellano.Grammar
