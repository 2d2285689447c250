import Castellano.Proofs.OnDemand
import Castellano.Proofs.Readings
import Mathlib.Data.List.Forall2

/-!
# Every node stands for one token

Parsing loses, duplicates and reorders nothing. Apart from punctuation and from `si no entonces`,
which stands for `sino`, each token of a program becomes one node of its tree, at the position of
the token and with the content that the token has, and the nodes in source order are the tokens in
order.

* `Node.inOrder`: the nodes of a tree in source order.
* `Node.StandsFor`: which token a node is made from.
* `significant`: the tokens of a text that become nodes.
* `Accounts`: the same correspondence built up piece by piece, closed under appending; by
  `Accounts.significant` it determines which tokens are significant.
* `nested_reads`: every successful rule accounts for the tokens that it has read.
* `parse_accounts_for_tokens`: the correspondence for whole programs.
-/

namespace Castellano

/-! ## Nodes in source order -/

mutual

/-- The nodes of a tree other than blocks, in the order of their tokens: an operator between its
    operands, every other node before the nodes below it. -/
def Node.inOrder : Node → List Node
  | .binary p operator left right =>
    left.inOrder ++ .binary p operator left right :: right.inOrder
  | .minus p operand => .minus p operand :: operand.inOrder
  | .not p operand => .not p operand :: operand.inOrder
  | .call p name arguments => .call p name arguments :: Node.inOrderAll arguments
  | .function p parameters body =>
    .function p parameters body :: (parameters.map Parameter.toNode ++ Block.inOrder body)
  | .assignment p name value => .assignment p name value :: value.inOrder
  | .conditional p condition consequence alternative =>
    .conditional p condition consequence alternative ::
      (condition.inOrder ++ Block.inOrder consequence ++ Block.inOrderOption alternative)
  | .loop p condition body =>
    .loop p condition body :: (condition.inOrder ++ Block.inOrder body)
  | .block b => Block.inOrder b
  | .program _ forms => Node.inOrderAll forms
  | .integer p value => [.integer p value]
  | .boolean p value => [.boolean p value]
  | .identifier p name => [.identifier p name]
  | .bare p kind => [.bare p kind]

/-- The nodes of several trees in source order. -/
def Node.inOrderAll : List Node → List Node
  | [] => []
  | node :: nodes => node.inOrder ++ Node.inOrderAll nodes

/-- The nodes of a block in source order. -/
def Block.inOrder : Block Node → List Node
  | ⟨forms, _⟩ => Node.inOrderAll forms

/-- The nodes of a block, if there is one, in source order. -/
def Block.inOrderOption : Option (Block Node) → List Node
  | none => []
  | some b => Block.inOrder b

end

theorem Node.inOrderAll_append (as bs : List Node) :
    Node.inOrderAll (as ++ bs) = Node.inOrderAll as ++ Node.inOrderAll bs := by
  induction as with
  | nil => rfl
  | cons a as ih => rw [List.cons_append, Node.inOrderAll, Node.inOrderAll, ih, List.append_assoc]

theorem Node.inOrderAll_singleton (node : Node) : Node.inOrderAll [node] = node.inOrder := by
  rw [Node.inOrderAll, Node.inOrderAll, List.append_nil]

/-- The nodes of a program in source order. -/
def Program.inOrder (p : Program) : List Node := Node.inOrderAll p.forms

/-! ## Tokens and nodes -/

namespace TokenKind

/-- Punctuation: tokens that leave no node behind. -/
def isMark : TokenKind → Bool
  | point | openParen | closeParen | openBrace | closeBrace | assign | sino | endOfInput => true
  | _ => false

/-- The operators between two operands. -/
def isOperator : TokenKind → Bool
  | equals | plus | minus | times | divide => true
  | _ => false

end TokenKind

/-- The node is made from the token: it stands at the position of the token and has its content. -/
def Node.StandsFor : Node → Token → Prop
  | .integer p value, t =>
    t.kind = .integer ∧ p = t.position ∧ value = Word64.ofDecimal t.literal
  | .boolean p value, t => t.kind = (if value then .verdadero else .falso) ∧ p = t.position
  | .identifier p name, t | .call p name _, t | .assignment p name _, t =>
    t.kind = .identifier ∧ p = t.position ∧ name = t.literal
  | .binary p operator _ _, t => t.kind.isOperator ∧ p = t.position ∧ operator = t
  | .minus p _, t => t.kind = .minus ∧ p = t.position
  | .not p _, t => t.kind = .no ∧ p = t.position
  | .function p _ _, t => t.kind = .funcion ∧ p = t.position
  | .conditional p _ _ _, t => t.kind = .si ∧ p = t.position
  | .loop p _ _, t => t.kind = .mientras ∧ p = t.position
  | .block _, _ | .program _ _, _ | .bare _ _, _ => False

/-- The tokens that become nodes: without punctuation and without `si no entonces`. -/
def significant : List Token → List Token
  | a :: b :: c :: ts =>
    if a.kind = .si ∧ b.kind = .no ∧ c.kind = .entonces then significant ts
    else if a.kind.isMark then significant (b :: c :: ts)
    else a :: significant (b :: c :: ts)
  | ts => ts.filter fun t => !t.kind.isMark

/-- The tokens are those of the nodes, in order, with punctuation and with `si no entonces` between
    them. -/
inductive Accounts : List Token → List Node → Prop
  | nil : Accounts [] []
  | mark {t : Token} {ts : List Token} {nodes : List Node} (h : t.kind.isMark)
    (rest : Accounts ts nodes) : Accounts (t :: ts) nodes
  | otherwise {a b c : Token} {ts : List Token} {nodes : List Node} (ha : a.kind = .si)
    (hb : b.kind = .no) (hc : c.kind = .entonces) (rest : Accounts ts nodes) :
    Accounts (a :: b :: c :: ts) nodes
  | node {t : Token} {ts : List Token} {n : Node} {nodes : List Node} (h : n.StandsFor t)
    (rest : Accounts ts nodes) : Accounts (t :: ts) (n :: nodes)

namespace Accounts

theorem append {ts us : List Token} {ns ms : List Node} (h : Accounts ts ns) (h' : Accounts us ms) :
    Accounts (ts ++ us) (ns ++ ms) := by
  induction h with
  | nil => exact h'
  | mark h _ ih => exact .mark h ih
  | otherwise ha hb hc _ ih => exact .otherwise ha hb hc ih
  | node h _ ih => exact .node h ih

/-- A node can be replaced by one that stands for the same tokens. -/
theorem replace {ts : List Token} {n m : Node} (hnm : ∀ t, n.StandsFor t → m.StandsFor t)
    {nodes : List Node} (h : Accounts ts nodes) (hn : nodes = [n]) : Accounts ts [m] := by
  induction h with
  | nil => cases hn
  | mark h _ ih => exact .mark h (ih hn)
  | otherwise ha hb hc _ ih => exact .otherwise ha hb hc (ih hn)
  | node h rest _ =>
    cases hn
    exact .node (hnm _ h) rest

end Accounts

/-! ## Significant tokens -/

theorem Node.StandsFor.not_mark {n : Node} {t : Token} (h : n.StandsFor t) :
    t.kind.isMark = false ∧ t.kind ≠ .entonces := by
  cases n with
  | boolean p value =>
    rw [h.1]
    cases value <;> simp [TokenKind.isMark]
  | binary p operator left right =>
    have hop := h.1
    cases hk : t.kind <;> rw [hk] at hop <;> simp_all [TokenKind.isOperator, TokenKind.isMark]
  | block b => exact h.elim
  | program p forms => exact h.elim
  | bare p kind => exact h.elim
  | _ =>
    rw [h.1]
    simp [TokenKind.isMark]

theorem significant_mark {t : Token} (h : t.kind.isMark) (ts : List Token) :
    significant (t :: ts) = significant ts := by
  have hsi : t.kind ≠ .si := by
    intro h'
    rw [h'] at h
    cases h
  match ts with
  | [] => simp [significant, h]
  | [b] => simp [significant, h]
  | b :: c :: ts => simp [significant, h, hsi]

theorem significant_node {t : Token} {ts : List Token} (h : t.kind.isMark = false)
    (hts : ∀ b c us, ts = b :: c :: us → b.kind = .no → c.kind ≠ .entonces) :
    significant (t :: ts) = t :: significant ts := by
  match ts with
  | [] => simp [significant, h]
  | [b] =>
    by_cases hb : b.kind.isMark
    · simp [significant, h, hb]
    · simp [significant, h, hb]
  | b :: c :: ts =>
    have hbc : ¬ (t.kind = .si ∧ b.kind = .no ∧ c.kind = .entonces) := by
      rintro ⟨-, hb, hc⟩
      exact hts b c ts rfl hb hc
    rw [significant, if_neg hbc, if_neg (by simp [h])]

/-- No node stands for `entonces`, so that `no entonces` is never left to stand for two nodes. -/
theorem Accounts.not_entonces {ts : List Token} {nodes : List Node} (h : Accounts ts nodes) :
    ∀ b c us, ts = b :: c :: us → b.kind = .no → c.kind ≠ .entonces := by
  rintro b c us rfl hb hc
  have hfirst : ∀ {nodes}, ¬ Accounts (c :: us) nodes := by
    intro nodes h
    cases h with
    | mark h _ =>
      rw [hc] at h
      cases h
    | otherwise ha _ _ _ =>
      rw [hc] at ha
      cases ha
    | node h _ => exact h.not_mark.2 hc
  cases h with
  | mark h _ =>
    rw [hb] at h
    cases h
  | otherwise ha _ _ _ =>
    rw [hb] at ha
    cases ha
  | node _ rest => exact hfirst rest

/-- The nodes stand, one to one, for the significant tokens. -/
theorem Accounts.significant {ts : List Token} {nodes : List Node} (h : Accounts ts nodes) :
    List.Forall₂ (fun t n => n.StandsFor t) (significant ts) nodes := by
  induction h with
  | nil => exact .nil
  | mark h _ ih => rwa [significant_mark h]
  | otherwise ha hb hc _ ih => rwa [Castellano.significant, if_pos ⟨ha, hb, hc⟩]
  | node h rest ih =>
    rw [significant_node h.not_mark.1 rest.not_entonces]
    exact .cons h ih

/-! ## Reading a stream -/

namespace TokenStream

variable {s s₁ s₂ : TokenStream}

theorem Ended.exists_cons (h : s.Ended) (hk : s.current.kind ≠ .endOfInput) :
    ∃ rest, s.upcoming = s.current :: rest ∧ s.advance = ⟨rest, s.last⟩ := by
  obtain ⟨upcoming, last⟩ := s
  cases upcoming with
  | nil => exact absurd h.last hk
  | cons t rest => exact ⟨rest, rfl, rfl⟩

/-- The tokens from `s` up to `s₁` are those of the nodes. -/
def Reads (s : TokenStream) (nodes : List Node) (s₁ : TokenStream) : Prop :=
  ∃ read, s.upcoming = read ++ s₁.upcoming ∧ s₁.last = s.last ∧ Accounts read nodes

theorem Reads.refl (s : TokenStream) : s.Reads [] s := ⟨[], rfl, rfl, .nil⟩

theorem Reads.trans {ns ms : List Node} (h : s.Reads ns s₁) (h' : s₁.Reads ms s₂) :
    s.Reads (ns ++ ms) s₂ := by
  obtain ⟨r, hr, hl, ha⟩ := h
  obtain ⟨r', hr', hl', ha'⟩ := h'
  exact ⟨r ++ r', by rw [hr, hr', List.append_assoc], hl'.trans hl, ha.append ha'⟩

theorem Reads.ended {ns : List Node} (h : s.Reads ns s₁) (hs : s.Ended) : s₁.Ended := by
  obtain ⟨r, hr, hl, -⟩ := h
  refine ⟨fun t ht => hs.upcoming t ?_, by rw [hl]; exact hs.last⟩
  rw [hr]
  exact List.mem_append_right r ht

/-- Reading a node moves on. -/
theorem Reads.remaining_lt {ns : List Node} (h : s.Reads ns s₁) (hns : ns ≠ []) :
    s₁.remaining < s.remaining := by
  obtain ⟨r, hr, -, ha⟩ := h
  have hne : r ≠ [] := by
    rintro rfl
    cases ha
    exact hns rfl
  have := List.length_pos_iff.2 hne
  simp only [remaining, hr, List.length_append]
  omega

theorem Ended.reads_mark (h : s.Ended) (hk : s.current.kind.isMark)
    (hne : s.current.kind ≠ .endOfInput) : s.Reads [] s.advance := by
  obtain ⟨rest, hs, hadv⟩ := h.exists_cons hne
  rw [hadv]
  exact ⟨[s.current], by simpa using hs, rfl, .mark hk .nil⟩

theorem Ended.reads_node {n : Node} (h : s.Ended) (hn : n.StandsFor s.current) :
    s.Reads [n] s.advance := by
  have hne : s.current.kind ≠ .endOfInput := by
    intro hk
    have := hn.not_mark.1
    rw [hk] at this
    cases this
  obtain ⟨rest, hs, hadv⟩ := h.exists_cons hne
  rw [hadv]
  exact ⟨[s.current], by simpa using hs, rfl, .node hn .nil⟩

theorem reads_skipPoints (s : TokenStream) : s.Reads [] s.skipPoints := by
  refine ⟨s.upcoming.takeWhile fun t => t.kind = .point, ?_, rfl, ?_⟩
  · exact List.takeWhile_append_dropWhile.symm
  · have hall : ∀ t ∈ s.upcoming.takeWhile fun t => t.kind = .point, t.kind.isMark := by
      intro t ht
      have hpoint := List.all_eq_true.1 List.all_takeWhile t ht
      simp only [decide_eq_true_eq] at hpoint
      rw [hpoint]
      rfl
    generalize s.upcoming.takeWhile _ = ts at hall
    induction ts with
    | nil => exact .nil
    | cons t ts ih =>
      exact .mark (hall t (by simp)) (ih fun u hu => hall u (by simp [hu]))

theorem Ended.reads_pastPoint (h : s.Ended) : s.Reads [] s.pastPoint := by
  rw [pastPoint]
  split
  · rename_i hk
    exact h.reads_mark (by rw [hk]; rfl) (by simp [hk])
  · exact .refl s

end TokenStream

/-! ## Rules -/

namespace Grammar

open Parse

/-- The steps for what stands inside account for the tokens that they read. An expression has at
    least one node. -/
structure Nested.Reads (sub : Nested TokenStream) : Prop where
  expression : ∀ {level : Precedence} {s s' : TokenStream} {n : Node}, s.Ended →
    (sub.expression level).run s = .ok n s' → s.Reads n.inOrder s' ∧ n.inOrder ≠ []
  block : ∀ {s s' : TokenStream} {b : Block Node}, s.Ended → sub.block.run s = .ok b s' →
    s.Reads (Block.inOrder b) s'

theorem isOperator_of_lt {level : Precedence} {kind : TokenKind}
    (h : level < Precedence.ofKind kind) (hopen : kind ≠ .openParen) : kind.isOperator := by
  have hpos : 0 < (Precedence.ofKind kind).rank := Nat.lt_of_le_of_lt (Nat.zero_le _) h
  cases kind <;> first | rfl | exact absurd rfl hopen | exact absurd hpos (by decide)

theorem exists_cons_of_startsOtherwise {s : TokenStream} (hs : s.Ended) (h : startsOtherwise s) :
    ∃ a b c rest, s.upcoming = a :: b :: c :: rest ∧ a.kind = .si ∧ b.kind = .no ∧
      c.kind = .entonces := by
  obtain ⟨upcoming, last⟩ := s
  have hlast : last.kind = .endOfInput := hs.last
  simp only [startsOtherwise, Bool.and_eq_true, decide_eq_true_eq] at h
  obtain ⟨⟨ha, hb⟩, hc⟩ := h
  rcases upcoming with _ | ⟨a, _ | ⟨b, _ | ⟨c, rest⟩⟩⟩
  · simp [TokenStream.current, hlast] at ha
  · simp [TokenStream.peek, hlast] at hb
  · simp [TokenStream.peekTwice, hlast] at hc
  · exact ⟨a, b, c, rest, rfl, ha, hb, hc⟩

section Rules

variable {sub : Nested TokenStream} (hsub : sub.Reads) {s s' : TokenStream}

include hsub

theorem manyTillFrom_parameter_reads (hs : s.Ended) {stop : TokenKind → Bool}
    {parameters : List Parameter}
    (h : manyTillFrom stop (parameter sub) s = .ok parameters s') :
    s.Reads (parameters.map Parameter.toNode) s' := by
  refine manyTillFrom_invariant (P := fun done s₁ => s.Reads (done.map Parameter.toNode) s₁)
    (fun done s₁ p s₂ hdone hp => ?_) (TokenStream.Reads.refl s) h
  have hread := (hsub.expression (hdone.ended hs) (parameter_eq_ok.1 hp)).1
  rw [List.map_append]
  exact hdone.trans hread

theorem manyTillFrom_expression_reads (hs : s.Ended) {stop : TokenKind → Bool}
    {level : Precedence} {nodes : List Node}
    (h : manyTillFrom stop (sub.expression level) s = .ok nodes s') :
    s.Reads (Node.inOrderAll nodes) s' := by
  refine manyTillFrom_invariant (P := fun done s₁ => s.Reads (Node.inOrderAll done) s₁)
    (fun done s₁ n s₂ hdone hn => ?_) (TokenStream.Reads.refl s) h
  rw [Node.inOrderAll_append, Node.inOrderAll_singleton]
  exact hdone.trans (hsub.expression (hdone.ended hs) hn).1

theorem PrimaryRead.reads {n : Node} (hs : s.Ended) (h : PrimaryRead sub s n s') :
    s.Reads n.inOrder s' ∧ n.inOrder ≠ [] := by
  cases h with
  | integer h => exact ⟨hs.reads_node ⟨h, rfl, rfl⟩, by simp [Node.inOrder]⟩
  | identifier h => exact ⟨hs.reads_node ⟨h, rfl, rfl⟩, by simp [Node.inOrder]⟩
  | verdadero h => exact ⟨hs.reads_node ⟨h, rfl⟩, by simp [Node.inOrder]⟩
  | falso h => exact ⟨hs.reads_node ⟨h, rfl⟩, by simp [Node.inOrder]⟩
  | parenthesised h hinner hclose =>
    have hopen := hs.reads_mark (by rw [h]; rfl) (by simp [h])
    obtain ⟨hread, hne⟩ := hsub.expression (hopen.ended hs) hinner
    have hend := (hread.ended (hopen.ended hs)).reads_mark (by rw [hclose]; rfl) (by simp [hclose])
    refine ⟨?_, hne⟩
    simpa using (hopen.trans hread).trans hend
  | @minus operand _ h hnext hoperand =>
    have hhead := hs.reads_node (n := .minus s.current.position operand) ⟨h, rfl⟩
    exact ⟨hhead.trans (hsub.expression (hhead.ended hs) hoperand).1, by simp [Node.inOrder]⟩
  | @not operand _ h hnext hoperand =>
    have hhead := hs.reads_node (n := .not s.current.position operand) ⟨h, rfl⟩
    exact ⟨hhead.trans (hsub.expression (hhead.ended hs) hoperand).1, by simp [Node.inOrder]⟩
  | @function parameters body _ _ h hopen hparameters hclose hbody =>
    have hhead := hs.reads_node (n := .function s.current.position parameters body) ⟨h, rfl⟩
    have hs₁ := hhead.ended hs
    have hmark := hs₁.reads_mark (by rw [hopen]; rfl) (by simp [hopen])
    have hs₂ := hmark.ended hs₁
    have hnames := manyTillFrom_parameter_reads hsub hs₂ hparameters
    have hs₃ := hnames.ended hs₂
    have hend := hs₃.reads_mark (by rw [hclose]; rfl) (by simp [hclose])
    have hread := hsub.block (hend.ended hs₃) hbody
    refine ⟨?_, by simp [Node.inOrder]⟩
    have hall := hhead.trans (hmark.trans (hnames.trans (hend.trans hread)))
    simpa [Node.inOrder] using hall

theorem ExtendRead.reads {s₀ : TokenStream} (hs₀ : s₀.Ended) {level : Precedence} {left n : Node}
    (hleft : s₀.Reads left.inOrder s) (hlevel : level < s.precedence)
    (h : ExtendRead sub s left n s') : s₀.Reads n.inOrder s' ∧ n.inOrder ≠ [] := by
  have hs := hleft.ended hs₀
  cases h with
  | @binary _ right _ h hright =>
    have hop := hs.reads_node (n := .binary s.current.position s.current left right)
      ⟨isOperator_of_lt hlevel h, rfl, rfl⟩
    have hread := (hsub.expression (hop.ended hs) hright).1
    refine ⟨?_, by simp [Node.inOrder]⟩
    exact hleft.trans (hop.trans hread)
  | @call p name arguments s₁ h harguments hclose =>
    -- the token that was read as a name now stands for the call
    have hcallee : s₀.Reads [.call p name arguments] s := by
      obtain ⟨r, hr, hl, ha⟩ := hleft
      exact ⟨r, hr, hl, ha.replace (n := .identifier p name) (fun _ ht => ht) rfl⟩
    have hopen := hs.reads_mark (by rw [h]; rfl) (by simp [h])
    have hs₁ := hopen.ended hs
    have hread := manyTillFrom_expression_reads hsub hs₁ harguments
    have hend := (hread.ended hs₁).reads_mark (by rw [hclose]; rfl) (by simp [hclose])
    refine ⟨?_, by simp [Node.inOrder]⟩
    simpa [Node.inOrder] using hcallee.trans (hopen.trans (hread.trans hend))

theorem expression_reads {level : Precedence} {n : Node} (hs : s.Ended)
    (h : (expression sub level).run s = .ok n s') : s.Reads n.inOrder s' ∧ n.inOrder ≠ [] := by
  obtain ⟨first, s₁, s₂, hfirst, hwhole, rfl⟩ := expression_eq_ok.1 h
  have hskip := s.reads_skipPoints
  obtain ⟨hread, hne⟩ := hfirst.reads hsub (hskip.ended hs)
  obtain ⟨hread', hne'⟩ := operatorsFrom_invariant
    (P := fun left s₁ => s.Reads left.inOrder s₁ ∧ left.inOrder ≠ [])
    (fun left s₁ node s₂ hleft hlevel hx => hx.reads hsub hs hleft.1 hlevel)
    ⟨hskip.trans hread, hne⟩ hwhole
  refine ⟨?_, hne'⟩
  simpa using hread'.trans (hread'.ended hs).reads_pastPoint

theorem AlternativeRead.reads {other : Option (Block Node)} (hs : s.Ended)
    (h : AlternativeRead sub s other s') : s.Reads (Block.inOrderOption other) s' := by
  cases h with
  | sino h hblock =>
    have hmark := hs.reads_mark (by rw [h]; rfl) (by simp [h])
    exact hmark.trans (hsub.block (hmark.ended hs) hblock)
  | otherwise h hblock =>
    have hwords : s.Reads [] s.advance.advance.advance := by
      obtain ⟨a, b, c, rest, hup, ha, hb, hc⟩ := exists_cons_of_startsOtherwise hs h
      refine ⟨[a, b, c], ?_, rfl, .otherwise ha hb hc .nil⟩
      simp [TokenStream.advance, hup]
    exact hwords.trans (hsub.block (hwords.ended hs) hblock)
  | none h hother => exact .refl s

theorem FormRead.reads {n : Node} (hs : s.Ended) (h : FormRead sub s n s') :
    s.Reads n.inOrder s' ∧ n.inOrder ≠ [] := by
  cases h with
  | @assignment value _ h hassign hvalue =>
    have hname := hs.reads_node
      (n := .assignment s.current.position s.current.literal value) ⟨h, rfl, rfl⟩
    have hs₁ := hname.ended hs
    rw [← TokenStream.current_advance] at hassign
    have hsign := hs₁.reads_mark (by rw [hassign]; rfl) (by simp [hassign])
    have hread := (hsub.expression (hsign.ended hs₁) hvalue).1
    exact ⟨hname.trans (hsign.trans hread), by simp [Node.inOrder]⟩
  | @conditional condition consequence other _ _ _ h hcondition hconsequence hother =>
    have hhead := hs.reads_node
      (n := .conditional s.current.position condition consequence other) ⟨h, rfl⟩
    have hs₁ := hhead.ended hs
    have hcond := (hsub.expression hs₁ hcondition).1
    have hs₂ := hcond.ended hs₁
    have hcons := hsub.block hs₂ hconsequence
    have halt := hother.reads hsub (hcons.ended hs₂)
    refine ⟨?_, by simp [Node.inOrder]⟩
    simpa [Node.inOrder] using hhead.trans (hcond.trans (hcons.trans halt))
  | @loop condition body _ _ h hcondition hbody =>
    have hhead := hs.reads_node (n := .loop s.current.position condition body) ⟨h, rfl⟩
    have hs₁ := hhead.ended hs
    have hcond := (hsub.expression hs₁ hcondition).1
    have hread := hsub.block (hcond.ended hs₁) hbody
    exact ⟨hhead.trans (hcond.trans hread), by simp [Node.inOrder]⟩
  | expression _ _ _ hnode => exact hsub.expression hs hnode

theorem form_reads {n : Node} (hs : s.Ended) (h : (form sub).run s = .ok n s') :
    s.Reads n.inOrder s' ∧ n.inOrder ≠ [] := by
  have hskip := s.reads_skipPoints
  obtain ⟨hread, hne⟩ := (form_eq_ok.1 h).reads hsub (hskip.ended hs)
  exact ⟨hskip.trans hread, hne⟩

theorem manyTillFrom_blockForm_reads (hs : s.Ended) {stop : TokenKind → Bool} {forms : List Node}
    (h : manyTillFrom stop (blockForm sub) s = .ok forms s') :
    s.Reads (Node.inOrderAll forms) s' := by
  refine manyTillFrom_invariant (P := fun done s₁ => s.Reads (Node.inOrderAll done) s₁)
    (fun done s₁ f s₂ hdone hf => ?_) (TokenStream.Reads.refl s) h
  obtain ⟨s₃, hform, rfl⟩ := blockForm_eq_ok.1 hf
  have hread := (form_reads hsub (hdone.ended hs) (form_eq_ok.2 hform)).1
  rw [Node.inOrderAll_append, Node.inOrderAll_singleton]
  simpa using hdone.trans (hread.trans s₃.reads_skipPoints)

theorem block_reads {b : Block Node} (hs : s.Ended) (h : (block sub).run s = .ok b s') :
    s.Reads (Block.inOrder b) s' := by
  cases block_eq_ok.1 h with
  | braces hbrace hforms hclose =>
    have hopen := hs.reads_mark (by rw [hbrace]; rfl) (by simp [hbrace])
    have hskip := hopen.trans (TokenStream.reads_skipPoints _)
    have hs₁ := hskip.ended hs
    have hread := manyTillFrom_blockForm_reads hsub hs₁ hforms
    have hend := (hread.ended hs₁).reads_mark (by rw [hclose]; rfl) (by simp [hclose])
    simpa [Block.inOrder] using hskip.trans (hread.trans hend)
  | bare _ hform =>
    rw [Block.inOrder, Node.inOrderAll_singleton]
    exact (form_reads hsub hs (form_eq_ok.2 hform)).1

end Rules

/-- At every depth, expressions and blocks account for the tokens that they read. -/
theorem nested_reads (limit : Nat) : (nested limit).Reads := by
  induction limit with
  | zero =>
    refine ⟨?_, ?_⟩
    · intro level s s' n _ h
      cases h
    · intro s s' b _ h
      cases h
  | succ limit ih => exact ⟨expression_reads ih, block_reads ih⟩

/-! ## Programs -/

/-- The forms of a program account for the tokens up to some place; without a diagnostic, that place
    is the end. -/
theorem forms_reads {sub : Nested TokenStream} (hsub : sub.Reads) {s : TokenStream} (hs : s.Ended) :
    ∃ s₁, s.Reads (Node.inOrderAll (forms sub s).1) s₁ ∧
      ((forms sub s).2.1 = none → s₁.upcoming = []) := by
  fun_induction forms sub s with
  | case1 s start hend =>
    refine ⟨start, s.reads_skipPoints, fun _ => ?_⟩
    by_contra hne
    obtain ⟨t, ts, hts⟩ := List.exists_cons_of_ne_nil hne
    refine (s.reads_skipPoints.ended hs).upcoming t (by simp [start] at hts; simp [hts]) ?_
    rw [← hend, TokenStream.view_current, TokenStream.current, hts]
    rfl
  | case2 s start hend e s' hrun => exact ⟨s, .refl s, by simp⟩
  | case3 s start hend s' hrun => exact ⟨s, .refl s, by simp⟩
  | case4 s start hend f s' hrun hlt fs diagnostic s'' hrest ih =>
    have hskip := s.reads_skipPoints
    have hread := (form_reads hsub (hskip.ended hs) hrun).1
    have hfirst := hskip.trans hread
    obtain ⟨s₁, hs₁, hend⟩ := ih (hfirst.ended hs)
    rw [hrest] at hs₁ hend
    exact ⟨s₁, hfirst.trans hs₁, hend⟩
  | case5 s start hend f s' hrun hlt =>
    have hskip := s.reads_skipPoints
    obtain ⟨hread, hne⟩ := form_reads hsub (hskip.ended hs) hrun
    exact absurd ((hskip.trans hread).remaining_lt (by simpa using hne)) hlt

end Grammar

/-- Parsing loses, duplicates and reorders nothing: the nodes of a program in source order stand,
    one to one, for the significant tokens of its source, up to the place where parsing stopped.
    Without a diagnostic these are all tokens. -/
theorem parse_accounts_for_tokens (limits : Limits) (source : String) :
    ∃ read rest, tokenize source = read ++ rest ∧
      ((parseSource limits source).2 = [] → rest = []) ∧
      List.Forall₂ (fun t n => n.StandsFor t) (significant read)
        (parseSource limits source).1.inOrder := by
  obtain ⟨init, p, heq, hinit⟩ := (Cursor.ofSource source).exists_tokens_eq
  have hstream := TokenStream.ofSource_eq heq
  obtain ⟨s₁, ⟨read, hread, -, ha⟩, hend⟩ := Grammar.forms_reads
    (Grammar.nested_reads limits.depth) (TokenStream.ended_ofSource source)
  have hprogram : (parseSource limits source).1.inOrder =
      Node.inOrderAll
        (Grammar.forms (Grammar.nested limits.depth) (TokenStream.ofSource source)).1 := by
    rw [parseSource_eq]
    rfl
  rw [hstream] at hread
  change init = read ++ s₁.upcoming at hread
  by_cases hdiagnostic : (parseSource limits source).2 = []
  · -- nothing is left but the end token, which is no node either
    have hnone : (Grammar.forms (Grammar.nested limits.depth)
        (TokenStream.ofSource source)).2.1 = none := by
      simpa [parseSource_eq, Grammar.program] using hdiagnostic
    rw [hend hnone, List.append_nil] at hread
    refine ⟨read ++ [Token.atEnd p], [], ?_, fun _ => rfl, ?_⟩
    · rw [tokenize, heq, ← hread, List.append_nil]
    · rw [hprogram]
      simpa using (ha.append (.mark rfl .nil)).significant
  · refine ⟨read, s₁.upcoming ++ [Token.atEnd p], ?_, fun h => absurd h hdiagnostic, ?_⟩
    · rw [tokenize, heq, hread, List.append_assoc]
    · rw [hprogram]
      exact ha.significant

end Castellano
