import Castellano.Proofs.SurfaceTokens

/-!
# Reading the tokens of a tree

The tokens of a tree that the grammar builds are read as that tree, unless some `no` in it negates a
call: the call would have to be the operand of `no`, which takes a mere name, and the arguments are
then left over.

* `NoNegatedCall`: the condition on a tree.
* `Settles`: a run ends as expected under a condition, and with the one fault otherwise; closed
  under sequencing and repetition.
* `ReadsBack`, `FormReadsBack`: what is shown of expressions and of forms, one lemma for each kind
  of node, and `readsBack_of_shaped` for all of them.
* `forms_readBack`: the same for the forms of a program.
-/

namespace Castellano

/-! ## Negated calls -/

/-- The node is a `no` whose operand is a call. -/
def Node.negatesCall : Node → Bool
  | .not _ operand => operand.kind = .call
  | _ => false

/-- None of the nodes negates a call. -/
def NoNegatedCall (nodes : List Node) : Prop := ∀ n ∈ nodes, n.negatesCall = false

instance (nodes : List Node) : Decidable (NoNegatedCall nodes) :=
  inferInstanceAs (Decidable (∀ n ∈ nodes, n.negatesCall = false))

@[simp]
theorem noNegatedCall_nil : NoNegatedCall [] := by
  simp [NoNegatedCall]

@[simp]
theorem noNegatedCall_append {ns ms : List Node} :
    NoNegatedCall (ns ++ ms) ↔ NoNegatedCall ns ∧ NoNegatedCall ms :=
  List.forall_mem_append

@[simp]
theorem noNegatedCall_cons {n : Node} {ns : List Node} :
    NoNegatedCall (n :: ns) ↔ n.negatesCall = false ∧ NoNegatedCall ns :=
  List.forall_mem_cons

theorem noNegatedCall_parameters (parameters : List Parameter) :
    NoNegatedCall (parameters.map Parameter.toNode) := by
  intro n hn
  obtain ⟨q, -, rfl⟩ := List.mem_map.1 hn
  rfl

/-! ## Runs that end as expected -/

/-- The run ends as expected if the condition holds, and otherwise because something else than a
    name is called. -/
def Settles {α : Type} (good : Prop) (r expected : Attempt.Result Failure TokenStream α) : Prop :=
  (good ∧ r = expected) ∨
    (¬ good ∧ ∃ s, r = .error (.error ⟨.calleeNotName, .sign '('⟩) s)

namespace Settles

variable {α β : Type} {g g' : Prop}

theorem of_eq {r expected : Attempt.Result Failure TokenStream α} (hg : g) (h : r = expected) :
    Settles g r expected :=
  .inl ⟨hg, h⟩

theorem eq {r expected : Attempt.Result Failure TokenStream α} (h : Settles g r expected) (hg : g) :
    r = expected := by
  rcases h with ⟨-, h⟩ | ⟨hng, -⟩
  · exact h
  · exact absurd hg hng

theorem congr {r expected : Attempt.Result Failure TokenStream α} (h : Settles g r expected)
    (hg : g ↔ g') : Settles g' r expected := by
  rwa [Settles, ← propext hg]

theorem trans {x y z : Attempt.Result Failure TokenStream α} (h : Settles g x y)
    (h' : Settles g' y z) : Settles (g ∧ g') x z := by
  rcases h with ⟨hg, rfl⟩ | ⟨hg, hfail⟩
  · rcases h' with ⟨hg', rfl⟩ | ⟨hg', hfail⟩
    · exact .inl ⟨⟨hg, hg'⟩, rfl⟩
    · exact .inr ⟨fun hboth => hg' hboth.2, hfail⟩
  · exact .inr ⟨fun hboth => hg hboth.1, hfail⟩

/-- A step that settles, and then the rest of the run. -/
theorem bind {x : Parse TokenStream α} {f : α → Parse TokenStream β} {s s₁ : TokenStream} {a : α}
    {expected : Attempt.Result Failure TokenStream β} (h : Settles g (x.run s) (.ok a s₁))
    (h' : Settles g' ((f a).run s₁) expected) : Settles (g ∧ g') ((x >>= f).run s) expected := by
  rw [Attempt.run_bind]
  rcases h with ⟨hg, h⟩ | ⟨hg, s', h⟩
  · rw [h]
    exact (of_eq hg rfl).trans h'
  · rw [h]
    exact .inr ⟨fun hboth => hg hboth.1, s', rfl⟩

/-- A step that settles, and then a rest that is sure to succeed. -/
theorem map {x : Parse TokenStream α} {f : α → Parse TokenStream β} {s s₁ : TokenStream} {a : α}
    {expected : Attempt.Result Failure TokenStream β} (h : Settles g (x.run s) (.ok a s₁))
    (h' : (f a).run s₁ = expected) : Settles g ((x >>= f).run s) expected :=
  (h.bind (of_eq trivial h')).congr (by simp)

/-- One round of a repetition, and then the others. -/
theorem manyTill_cons {stop : TokenKind → Bool} {step : Parse TokenStream α} {s s₁ s₂ : TokenStream}
    {a : α}
    {as : List α} (hstop : stop s.current.kind = false) (h : Settles g (step.run s) (.ok a s₁))
    (hlt : s₁.remaining < s.remaining)
    (h' : Settles g' (Parse.manyTillFrom stop step s₁) (.ok as s₂)) :
    Settles (g ∧ g') (Parse.manyTillFrom stop step s) (.ok (a :: as) s₂) := by
  rw [Parse.manyTillFrom]
  simp only [TokenStream.view_current, hstop, Bool.false_eq_true, if_false]
  rcases h with ⟨hg, h⟩ | ⟨hg, s', h⟩
  · simp only [h, TokenStream.view_remaining, hlt, if_true]
    rcases h' with ⟨hg', h'⟩ | ⟨hg', s', h'⟩
    · rw [h']
      exact .inl ⟨⟨hg, hg'⟩, rfl⟩
    · rw [h']
      exact .inr ⟨fun hboth => hg' hboth.2, s', rfl⟩
  · rw [h]
    exact .inr ⟨fun hboth => hg hboth.1, s', rfl⟩

end Settles

namespace Token

@[simp]
theorem kind_sign : (sign '(').kind = .openParen ∧ (sign ')').kind = .closeParen ∧
    (sign '{').kind = .openBrace ∧ (sign '}').kind = .closeBrace ∧ (sign '.').kind = .point ∧
    (sign '-').kind = .minus := by decide

@[simp]
theorem kind_word : (word "no").kind = .no ∧ (word "función").kind = .funcion ∧
    (word "si").kind = .si ∧ (word "sino").kind = .sino ∧ (word "mientras").kind = .mientras ∧
    (word "verdadero").kind = .verdadero ∧ (word "falso").kind = .falso := by decide

@[simp]
theorem kind_assignSign : assignSign.kind = .assign := rfl

@[simp]
theorem kind_numeral (value : Int) : (numeral value).kind = .integer := rfl

theorem kind_word_of_isName {name : String} (h : IsName name) : (word name).kind = .identifier :=
  h.ofWord

@[simp]
theorem kind_unplaced (t : Token) : t.unplaced.kind = t.kind := by
  rw [unplaced_eq]

end Token

/-! ## How the tokens of a tree start -/

/-- The kinds of tokens with which the text of an operand starts. -/
def opensOperand : TokenKind → Bool
  | .integer | .verdadero | .falso | .identifier | .openParen | .funcion => true
  | _ => false

/-- The kinds of tokens with which the text of a form starts. -/
def opensForm (kind : TokenKind) : Bool := opensOperand kind || kind = .si || kind = .mientras

theorem opensOperand_current {n : Node} (h : Shaped .operand n) (rest : List Token)
    (last : Token) : opensOperand (TokenStream.mk (n.surfaceTokens ++ rest) last).current.kind := by
  cases h with
  | @boolean _ p value => cases value <;> simp [Node.surfaceTokens, opensOperand]
  | identifier h => simp [Node.surfaceTokens, Token.kind_word_of_isName h, opensOperand]
  | call hname _ => simp [Node.surfaceTokens, Token.kind_word_of_isName hname, opensOperand]
  | _ => simp [Node.surfaceTokens, opensOperand]

theorem opensForm_current {n : Node} (h : Shaped .form n) (rest : List Token) (last : Token) :
    opensForm (TokenStream.mk (n.surfaceTokens ++ rest) last).current.kind := by
  cases h with
  | @boolean _ p value => cases value <;> simp [Node.surfaceTokens, opensForm, opensOperand]
  | identifier h => simp [Node.surfaceTokens, Token.kind_word_of_isName h, opensForm, opensOperand]
  | call hname _ =>
    simp [Node.surfaceTokens, Token.kind_word_of_isName hname, opensForm, opensOperand]
  | assignment hname _ =>
    simp [Node.surfaceTokens, Token.kind_word_of_isName hname, opensForm, opensOperand]
  | _ => simp [Node.surfaceTokens, opensForm, opensOperand]

theorem ne_of_opens {opens : TokenKind → Bool} {kind kind' : TokenKind} (h : opens kind)
    (h' : opens kind' = false) : kind ≠ kind' := by
  rintro rfl
  rw [h'] at h
  cases h

theorem closesList_of_opensOperand {kind : TokenKind} (h : opensOperand kind) :
    Grammar.closesList kind = false := by
  cases kind <;> first | rfl | cases h

theorem closesBlock_of_opensForm {kind : TokenKind} (h : opensForm kind) :
    Grammar.closesBlock kind = false := by
  cases kind <;> first | rfl | cases h

theorem length_surfaceTokens_pos {place : Place} {n : Node} (h : Shaped place n) :
    0 < n.surfaceTokens.length := by
  cases h <;> simp [Node.surfaceTokens]

/-- No form starts like the continuation of another. -/
theorem quiet_form {n : Node} (h : Shaped .form n) (rest : List Token) (last : Token) :
    (TokenStream.mk (n.surfaceTokens ++ rest) last).Quiet := by
  have hopens := opensForm_current h rest last
  refine ⟨ne_of_opens hopens (by decide), ne_of_opens hopens (by decide), fun hother => ?_⟩
  simp only [Grammar.startsOtherwise, Bool.and_eq_true, decide_eq_true_eq] at hother
  obtain ⟨⟨hsi, hno⟩, -⟩ := hother
  cases h with
  | @boolean _ p value => cases value <;> simp [Node.surfaceTokens] at hsi
  | identifier h => simp [Node.surfaceTokens, Token.kind_word_of_isName h] at hsi
  | call hname _ => simp [Node.surfaceTokens, Token.kind_word_of_isName hname] at hsi
  | assignment hname _ => simp [Node.surfaceTokens, Token.kind_word_of_isName hname] at hsi
  | conditional hcondition _ _ =>
    simp only [Node.surfaceTokens, List.cons_append, List.append_assoc, TokenStream.view_peek,
      TokenStream.peek_mk_cons] at hno
    exact ne_of_opens (opensOperand_current hcondition _ _) (by decide) hno
  | _ => simp [Node.surfaceTokens] at hsi

theorem quiet_forms {forms : List Node} (h : ∀ f ∈ forms, Shaped .form f) (rest : List Token)
    (last : Token) (hrest : (TokenStream.mk rest last).Quiet) :
    (TokenStream.mk (Node.formTokens forms ++ rest) last).Quiet := by
  cases forms with
  | nil => exact hrest
  | cons f forms =>
    rw [Node.formTokens, List.append_assoc]
    exact quiet_form (h f (by simp)) _ last

/-! ## Rules on streams in sight -/

namespace Grammar

open Parse

variable {sub : Nested TokenStream} {s s₁ : TokenStream} {level : Precedence} {left m : Node}
    {g : Prop}

theorem operators_settles (level : Precedence) (hlevel : level < s.precedence)
    (h : Settles g ((extend sub left).run s) (.ok m s₁)) (hlt : s₁.remaining < s.remaining) :
    Settles g ((operators sub level left).run s) ((operators sub level m).run s₁) := by
  show Settles g (operatorsFrom sub level left s) (operatorsFrom sub level m s₁)
  rw [operatorsFrom.eq_1 sub level left s, TokenStream.view_precedence, if_pos hlevel]
  rcases h with ⟨hg, h⟩ | ⟨hg, s', h⟩
  · rw [h]
    exact .inl ⟨hg, if_pos hlt⟩
  · rw [h]
    exact .inr ⟨hg, s', rfl⟩

/-- An expression ends where no operator of its level follows, behind a point if there is one. -/
theorem expression_settles
    (h : Settles g ((primary sub >>= operators sub level).run s) ((operators sub level m).run s₁))
    (hstop : ¬ level < s₁.precedence) :
    Settles g ((expression sub level).run s) (.ok m s₁.pastPoint) := by
  have hassoc : (expression sub level).run s =
      ((primary sub >>= operators sub level) >>= fun whole => do
        let _ ← accept .point
        return whole).run s := by
    simp only [expression, Attempt.run_bind]
    cases (primary sub).run s <;> rfl
  rw [operators_stop hstop] at h
  rw [hassoc]
  refine h.map ?_
  obtain ⟨b, hb⟩ := run_accept_point s₁
  simp [hb]

/-! ## Expressions -/

/-- The tokens of the node are read as the node, with the operators behind it still to be read. -/
def ReadsBack (n : Node) : Prop :=
  ∀ (limit : Nat) (level : Precedence) (rest : List Token) (last : Token),
    n.surfaceTokens.length ≤ limit → (n.kind = .call → level < .call) →
    Settles (NoNegatedCall n.inOrder)
      ((primary (nested limit) >>= operators (nested limit) level).run
        ⟨n.surfaceTokens ++ rest, last⟩)
      ((operators (nested limit) level n.unplaced).run ⟨rest, last⟩)

theorem ReadsBack.expression {n : Node} (h : ReadsBack n) (limit : Nat) (level : Precedence)
    (rest : List Token) (last : Token) (hlimit : n.surfaceTokens.length < limit)
    (hcall : n.kind = .call → level < .call)
    (hstop : ¬ level < (TokenStream.mk rest last).precedence) :
    Settles (NoNegatedCall n.inOrder)
      (((nested limit).expression level).run ⟨n.surfaceTokens ++ rest, last⟩)
      (.ok n.unplaced (TokenStream.mk rest last).pastPoint) := by
  obtain ⟨k, rfl⟩ : ∃ k, limit = k + 1 := ⟨limit - 1, by omega⟩
  exact expression_settles (h k level rest last (by omega) hcall) hstop

/-- An expression with a point behind it. -/
theorem ReadsBack.expression_point {n : Node} (h : ReadsBack n) (limit : Nat) (rest : List Token)
    (last : Token) (hlimit : n.surfaceTokens.length < limit) :
    Settles (NoNegatedCall n.inOrder)
      (((nested limit).expression .lowest).run ⟨n.surfaceTokens ++ .sign '.' :: rest, last⟩)
      (.ok n.unplaced ⟨rest, last⟩) :=
  h.expression limit .lowest _ last hlimit (fun _ => by decide) (not_lt_lowest _)

/-- An expression with something behind it that is neither an operator nor a point. -/
theorem ReadsBack.expression_before {n : Node} (h : ReadsBack n) (limit : Nat)
    (level : Precedence) (t : Token) (rest : List Token) (last : Token)
    (hlimit : n.surfaceTokens.length < limit) (hcall : n.kind = .call → level < .call)
    (hstop : Precedence.ofKind t.kind = .lowest) (hpoint : t.kind ≠ .point) :
    Settles (NoNegatedCall n.inOrder)
      (((nested limit).expression level).run ⟨n.surfaceTokens ++ t :: rest, last⟩)
      (.ok n.unplaced ⟨t :: rest, last⟩) := by
  have hlevel : ¬ level < (TokenStream.mk (t :: rest) last).precedence := by
    rw [TokenStream.precedence_mk_cons, hstop]
    exact not_lt_lowest level
  have hsettles := h.expression limit level _ last hlimit hcall hlevel
  rwa [TokenStream.pastPoint_eq_self (by simpa using hpoint)] at hsettles

theorem readsBack_of_primary {n : Node}
    (h : ∀ (limit : Nat) (rest : List Token) (last : Token), n.surfaceTokens.length ≤ limit →
      Settles (NoNegatedCall n.inOrder)
        ((primary (nested limit)).run ⟨n.surfaceTokens ++ rest, last⟩)
        (.ok n.unplaced ⟨rest, last⟩)) : ReadsBack n :=
  fun limit _ rest last hlimit _ => (h limit rest last hlimit).map rfl

/-- A node that a single token makes, whatever follows. -/
theorem readsBack_of_token {n : Node} {t : Token} (htokens : n.surfaceTokens = [t])
    (hnodes : n.inOrder = [n]) (hkind : n.negatesCall = false) (hpoint : t.kind ≠ .point)
    (h : ∀ (sub : Nested TokenStream) (rest : List Token) (last : Token),
      PrimaryRead sub ⟨t :: rest, last⟩ n.unplaced ⟨rest, last⟩) : ReadsBack n := by
  refine readsBack_of_primary fun _ rest last _ => .of_eq ?_ ?_
  · rw [hnodes]
    simpa using hkind
  · rw [htokens, primary_eq_ok, TokenStream.skipPoints_eq_self (by simpa using hpoint)]
    exact h _ rest last

theorem readsBack_integer {p : Position} {value : Int} (h : Word64.InRange value) :
    ReadsBack (.integer p value) := by
  refine readsBack_of_token (t := .numeral value) rfl rfl rfl (by simp) fun sub rest last => ?_
  have hread : PrimaryRead sub ⟨.numeral value :: rest, last⟩ _ _ := .integer rfl
  rwa [TokenStream.current_mk_cons, Token.numeral, Word64.ofDecimal_toDigits_written h] at hread

theorem readsBack_boolean {p : Position} {value : Bool} : ReadsBack (.boolean p value) := by
  cases value with
  | true =>
    exact readsBack_of_token (t := .word "verdadero") rfl rfl rfl (by simp) fun _ _ _ =>
      .verdadero (by simp)
  | false =>
    exact readsBack_of_token (t := .word "falso") rfl rfl rfl (by simp) fun _ _ _ =>
      .falso (by simp)

theorem readsBack_identifier {p : Position} {name : String} (h : IsName name) :
    ReadsBack (.identifier p name) := by
  have hkind := Token.kind_word_of_isName h
  exact readsBack_of_token (t := .word name) rfl rfl rfl (by simp [hkind]) fun _ _ _ =>
    .identifier hkind

/-- An expression in parentheses. -/
theorem primary_parenthesised {limit : Nat} {ts rest : List Token} {last : Token}
    (h : Settles g (((nested limit).expression .lowest).run ⟨ts, last⟩)
      (.ok m ⟨.sign ')' :: rest, last⟩)) :
    Settles g ((primary (nested limit)).run ⟨.sign '(' :: ts, last⟩) (.ok m ⟨rest, last⟩) := by
  rw [primary_run_open (by simp)]
  exact h.map (by simp [run_expect])

theorem precedence_lt_call {t : Token} (h : t.IsOperator) :
    .lowest < Precedence.ofKind t.kind ∧ Precedence.ofKind t.kind < .call ∧
      t.kind ≠ .openParen := by
  have hall : ∀ entry ∈ TokenKind.operatorSigns, Precedence.lowest < .ofKind entry.1 ∧
      Precedence.ofKind entry.1 < .call ∧ entry.1 ≠ .openParen := by decide
  exact hall _ h

theorem readsBack_binary {p : Position} {operator : Token} {left right : Node}
    (hoperator : operator.IsOperator) (hleft : ReadsBack left) (hright : ReadsBack right) :
    ReadsBack (.binary p operator left right) := by
  refine readsBack_of_primary fun limit rest last hlimit => ?_
  obtain ⟨hlowest, hlevel, hopen⟩ := precedence_lt_call hoperator
  have htokens : (Node.binary p operator left right).surfaceTokens ++ rest =
      .sign '(' :: (left.surfaceTokens ++
        operator.unplaced :: (right.surfaceTokens ++ .sign ')' :: rest)) := by
    simp [Node.surfaceTokens]
  simp only [Node.surfaceTokens, List.length_cons, List.length_append] at hlimit
  obtain ⟨k, rfl⟩ : ∃ k, limit = k + 1 := ⟨limit - 1, by omega⟩
  have hoperand := hright.expression_before k (.ofKind operator.kind) (.sign ')') rest last
    (by omega) (fun _ => hlevel) rfl (by simp)
  have hextend : Settles (NoNegatedCall right.inOrder)
      ((extend (nested k) left.unplaced).run
        ⟨operator.unplaced :: (right.surfaceTokens ++ .sign ')' :: rest), last⟩)
      (.ok (Node.binary p operator left right).unplaced ⟨.sign ')' :: rest, last⟩) := by
    simp only [extend, binary, Attempt.run_bind, run_current, TokenStream.current_mk_cons,
      Token.kind_unplaced, hopen, if_false, run_advance, TokenStream.advance_mk_cons]
    exact hoperand.map rfl
  have hwhole := (hleft k .lowest _ last (by omega) fun _ => by decide).trans
    (operators_settles .lowest (by simpa [TokenStream.precedence_mk_cons] using hlowest) hextend
      (by simp only [TokenStream.remaining_mk, List.length_cons, List.length_append]; omega))
  rw [htokens]
  refine (primary_parenthesised (expression_settles hwhole (not_lt_lowest _))).congr ?_
  simp [Node.inOrder, Node.negatesCall]

theorem readsBack_minus {p : Position} {operand : Node} (hshaped : Shaped .operand operand)
    (h : ReadsBack operand) : ReadsBack (.minus p operand) := by
  refine readsBack_of_primary fun limit rest last hlimit => ?_
  have htokens : (Node.minus p operand).surfaceTokens ++ rest =
      .sign '(' :: .sign '-' :: (operand.surfaceTokens ++ .sign ')' :: rest) := by
    simp [Node.surfaceTokens]
  simp only [Node.surfaceTokens, List.length_cons, List.length_append] at hlimit
  obtain ⟨k, rfl⟩ : ∃ k, limit = k + 1 := ⟨limit - 1, by omega⟩
  have hoperand := h.expression_before k .lowest (.sign ')') rest last (by omega)
    (fun _ => by decide) rfl (by simp)
  have hprimary : Settles (NoNegatedCall operand.inOrder)
      ((primary (nested k)).run
        ⟨.sign '-' :: (operand.surfaceTokens ++ .sign ')' :: rest), last⟩)
      (.ok (Node.minus p operand).unplaced ⟨.sign ')' :: rest, last⟩) := by
    rw [primary_run_minus (by simp)
      (ne_of_opens (opensOperand_current hshaped _ _) (by decide))]
    exact hoperand.map rfl
  rw [htokens]
  refine (primary_parenthesised
    (expression_settles (hprimary.map rfl) (not_lt_lowest _))).congr ?_
  simp [Node.inOrder, Node.negatesCall]

theorem not_call_lt_call : ¬ Precedence.call < .call := by decide

/-- Behind `no` only the name of a call is read; the list of its arguments is then taken for the
    arguments of the negation. -/
theorem expression_not_call {p q : Position} {name : String} {arguments : List Node}
    (hname : IsName name) {limit : Nat} {rest : List Token} {last : Token}
    (hlimit : (Node.call q name arguments).surfaceTokens.length < limit) :
    Settles False
      ((expression (nested limit) .lowest).run
        ⟨.word "no" :: ((Node.call q name arguments).surfaceTokens ++ .sign ')' :: rest), last⟩)
      (.ok (Node.not p (.call q name arguments)).unplaced ⟨.sign ')' :: rest, last⟩) := by
  simp only [Node.surfaceTokens, List.length_cons, List.length_append] at hlimit
  have htokens : (Node.call q name arguments).surfaceTokens ++ .sign ')' :: rest =
      (Node.identifier q name).surfaceTokens ++
        .sign '(' :: (Node.argumentTokens arguments ++ .sign ')' :: .sign ')' :: rest) := by
    simp [Node.surfaceTokens]
  rw [htokens]
  have hlt : rest.length + 1 <
      (Node.argumentTokens arguments ++ .sign ')' :: .sign ')' :: rest).length + 1 := by
    simp
    omega
  generalize Node.argumentTokens arguments ++ .sign ')' :: .sign ')' :: rest = us at hlt
  have hcallee := (readsBack_identifier (p := q) hname).expression limit .call
    (.sign '(' :: us) last
    (by simp [Node.surfaceTokens]; omega) (fun h => by cases h) not_call_lt_call
  rw [TokenStream.pastPoint_eq_self (by simp)] at hcallee
  have hprimary : Settles (NoNegatedCall (Node.identifier q name).inOrder)
      ((primary (nested limit)).run
        ⟨.word "no" :: ((Node.identifier q name).surfaceTokens ++ .sign '(' :: us), last⟩)
      (.ok (.not {} (.identifier {} name)) ⟨.sign '(' :: us, last⟩) := by
    rw [primary_run_no (by simp)
      (ne_of_opens (opensOperand_current (.identifier hname) _ _) (by decide))]
    exact hcallee.map rfl
  have hextend : Settles False
      ((extend (nested limit) (.not {} (.identifier {} name))).run ⟨.sign '(' :: us, last⟩)
      (.ok (Node.not p (.call q name arguments)).unplaced ⟨.sign ')' :: rest, last⟩) :=
    .inr ⟨id, ⟨.sign '(' :: us, last⟩, by simp [extend, call]⟩
  have hoperators := operators_settles .lowest
    (by rw [TokenStream.precedence_mk_cons]; decide) hextend (by simpa using hlt)
  refine (expression_settles (hprimary.bind hoperators) (not_lt_lowest _)).congr ?_
  simp

theorem readsBack_not {p : Position} {operand : Node} (hshaped : Shaped .operand operand)
    (h : ReadsBack operand) : ReadsBack (.not p operand) := by
  refine readsBack_of_primary fun limit rest last hlimit => ?_
  have htokens : (Node.not p operand).surfaceTokens ++ rest =
      .sign '(' :: .word "no" :: (operand.surfaceTokens ++ .sign ')' :: rest) := by
    simp [Node.surfaceTokens]
  simp only [Node.surfaceTokens, List.length_cons, List.length_append] at hlimit
  obtain ⟨k, rfl⟩ : ∃ k, limit = k + 1 := ⟨limit - 1, by omega⟩
  rw [htokens]
  by_cases hcall : operand.kind = .call
  · cases hshaped with
    | call hname _ =>
      refine (primary_parenthesised (expression_not_call hname (by omega))).congr ?_
      simp [Node.inOrder, Node.negatesCall, Node.kind]
    | _ => cases hcall
  · have hoperand := h.expression_before k .call (.sign ')') rest last (by omega)
      (fun hkind => absurd hkind hcall) rfl (by simp)
    have hprimary : Settles (NoNegatedCall operand.inOrder)
        ((primary (nested k)).run
          ⟨.word "no" :: (operand.surfaceTokens ++ .sign ')' :: rest), last⟩)
        (.ok (Node.not p operand).unplaced ⟨.sign ')' :: rest, last⟩) := by
      rw [primary_run_no (by simp)
        (ne_of_opens (opensOperand_current hshaped _ _) (by decide))]
      exact hoperand.map rfl
    refine (primary_parenthesised
      (expression_settles (hprimary.map rfl) (not_lt_lowest _))).congr ?_
    simp [Node.inOrder, Node.negatesCall, hcall]

theorem manyTill_arguments (limit : Nat) {arguments : List Node}
    (hshaped : ∀ a ∈ arguments, Shaped .operand a) (h : ∀ a ∈ arguments, ReadsBack a)
    (hlimit : (Node.argumentTokens arguments).length ≤ limit) (rest : List Token) (last : Token) :
    Settles (NoNegatedCall (Node.inOrderAll arguments))
      (manyTillFrom closesList ((nested limit).expression .lowest)
        ⟨Node.argumentTokens arguments ++ .sign ')' :: rest, last⟩)
      (.ok (arguments.map Node.unplaced) ⟨.sign ')' :: rest, last⟩) := by
  induction arguments with
  | nil =>
    exact .of_eq noNegatedCall_nil (manyTillFrom_stop (by simp [Node.argumentTokens, closesList]))
  | cons a arguments ih =>
    simp only [Node.argumentTokens, List.length_append, List.length_cons] at hlimit
    have htokens : Node.argumentTokens (a :: arguments) ++ .sign ')' :: rest =
        a.surfaceTokens ++ .sign '.' :: (Node.argumentTokens arguments ++ .sign ')' :: rest) := by
      simp [Node.argumentTokens]
    have hrest := ih (fun b hb => hshaped b (List.mem_cons_of_mem a hb))
      (fun b hb => h b (List.mem_cons_of_mem a hb)) (by omega)
    have hopens := opensOperand_current (hshaped a (by simp))
      (.sign '.' :: (Node.argumentTokens arguments ++ .sign ')' :: rest)) last
    rw [htokens]
    refine (Settles.manyTill_cons ?_ ((h a (by simp)).expression_point limit _ last (by omega)) ?_
      hrest).congr ?_
    · exact closesList_of_opensOperand hopens
    · simp only [TokenStream.remaining_mk, List.length_append, List.length_cons]
      omega
    · simp [Node.inOrderAll]

theorem readsBack_call {p : Position} {name : String} {arguments : List Node}
    (hname : IsName name) (hshaped : ∀ a ∈ arguments, Shaped .operand a)
    (h : ∀ a ∈ arguments, ReadsBack a) : ReadsBack (.call p name arguments) := by
  intro limit level rest last hlimit hlevel
  have htokens : (Node.call p name arguments).surfaceTokens ++ rest =
      (Node.identifier p name).surfaceTokens ++
        .sign '(' :: (Node.argumentTokens arguments ++ .sign ')' :: rest) := by
    simp [Node.surfaceTokens]
  simp only [Node.surfaceTokens, List.length_cons, List.length_append] at hlimit
  have hcallee := readsBack_identifier (p := p) hname limit level
    (.sign '(' :: (Node.argumentTokens arguments ++ .sign ')' :: rest)) last
    (by simp [Node.surfaceTokens]; omega) (fun h => by cases h)
  have harguments := manyTill_arguments limit hshaped h (by omega) rest last
  have hextend : Settles (NoNegatedCall (Node.inOrderAll arguments))
      ((extend (nested limit) (Node.identifier p name).unplaced).run
        ⟨.sign '(' :: (Node.argumentTokens arguments ++ .sign ')' :: rest), last⟩)
      (.ok (Node.call p name arguments).unplaced ⟨rest, last⟩) := by
    simp only [extend, Attempt.run_bind, run_current, TokenStream.current_mk_cons, Token.kind_sign,
      if_true]
    refine Settles.map (x := manyTill closesList ((nested limit).expression .lowest)) harguments ?_
    simp [run_expect, Node.unplaced, Node.relabel, Relabelling.unplace]
  have hoperators := operators_settles level
    (by rw [TokenStream.precedence_mk_cons]; exact hlevel rfl) hextend (by simp; omega)
  rw [htokens]
  refine (hcallee.trans hoperators).congr ?_
  simp [Node.inOrder, Node.negatesCall]

theorem manyTill_parameters (limit : Nat) (hlimit : 1 < limit) {parameters : List Parameter}
    (h : ∀ q ∈ parameters, IsName q.name) (rest : List Token) (last : Token) :
    manyTillFrom closesList (parameter (nested limit))
        ⟨parameters.flatMap (fun q => [.word q.name, .sign '.']) ++ .sign ')' :: rest, last⟩ =
      .ok (parameters.map (Parameter.relabel .unplace)) ⟨.sign ')' :: rest, last⟩ := by
  induction parameters with
  | nil => exact manyTillFrom_stop (by simp [closesList])
  | cons q parameters ih =>
    have hrest := ih fun q' hq' => h q' (List.mem_cons_of_mem q hq')
    have hname := h q (by simp)
    have htokens : (q :: parameters).flatMap (fun q => [Token.word q.name, .sign '.']) ++
          .sign ')' :: rest =
        (Node.identifier q.position q.name).surfaceTokens ++ .sign '.' ::
          (parameters.flatMap (fun q => [Token.word q.name, .sign '.']) ++ .sign ')' :: rest) := by
      simp [Node.surfaceTokens]
    rw [htokens]
    generalize parameters.flatMap (fun q => [Token.word q.name, .sign '.']) ++ .sign ')' :: rest =
      us at hrest
    have hexpression := (readsBack_identifier (p := q.position) hname).expression_point
      limit us last hlimit
    have hparameter : (parameter (nested limit)).run
        ⟨(Node.identifier q.position q.name).surfaceTokens ++ .sign '.' :: us, last⟩ =
        .ok (q.relabel .unplace) ⟨us, last⟩ :=
      parameter_eq_ok.2 (hexpression.eq (by simp [Node.inOrder, Node.negatesCall]))
    refine (Settles.manyTill_cons ?_ (.of_eq trivial hparameter) ?_ (.of_eq trivial hrest)).eq
      ⟨trivial, trivial⟩
    · simp [Node.surfaceTokens, Token.kind_word_of_isName hname, closesList]
    · simp only [TokenStream.remaining_mk, List.length_append, List.length_cons]
      omega

/-! ## Forms -/

/-- The tokens of the form are read as the form, if nothing behind it continues it. -/
def FormReadsBack (n : Node) : Prop :=
  ∀ (limit : Nat) (rest : List Token) (last : Token), n.surfaceTokens.length < limit →
    (TokenStream.mk rest last).Quiet →
    Settles (NoNegatedCall n.inOrder)
      ((form (nested limit)).run
        ⟨n.surfaceTokens ++ ((if n.endsInBlock then [] else [.sign '.']) ++ rest), last⟩)
      (.ok n.unplaced ⟨rest, last⟩)

theorem manyTill_forms (limit : Nat) {forms : List Node} (hshaped : ∀ f ∈ forms, Shaped .form f)
    (h : ∀ f ∈ forms, FormReadsBack f) (hlimit : (Node.formTokens forms).length < limit)
    (rest : List Token) (last : Token) :
    Settles (NoNegatedCall (Node.inOrderAll forms))
      (manyTillFrom closesBlock (blockForm (nested limit))
        ⟨Node.formTokens forms ++ .sign '}' :: rest, last⟩)
      (.ok (forms.map Node.unplaced) ⟨.sign '}' :: rest, last⟩) := by
  induction forms with
  | nil =>
    exact .of_eq noNegatedCall_nil (manyTillFrom_stop (by simp [Node.formTokens, closesBlock]))
  | cons f forms ih =>
    simp only [Node.formTokens, List.length_append] at hlimit
    have hshaped' : ∀ f' ∈ forms, Shaped .form f' :=
      fun f' hf' => hshaped f' (List.mem_cons_of_mem f hf')
    have hrest := ih hshaped' (fun f' hf' => h f' (List.mem_cons_of_mem f hf')) (by omega)
    have hquiet := quiet_forms hshaped' (.sign '}' :: rest) last
      ⟨by simp, by simp, by simp [startsOtherwise]⟩
    have hform := h f (by simp) limit _ last (by omega) hquiet
    have hstep : Settles (NoNegatedCall f.inOrder) ((blockForm (nested limit)).run _) _ :=
      hform.map (f := fun f => do skipPoints; return f) (by
        simp only [Attempt.run_bind, run_skipPoints, Attempt.run_pure]
        rw [TokenStream.skipPoints_eq_self hquiet.point])
    have hopens := opensForm_current (hshaped f (by simp))
      ((if f.endsInBlock then [] else [.sign '.']) ++
        (Node.formTokens forms ++ .sign '}' :: rest)) last
    have htokens : Node.formTokens (f :: forms) ++ .sign '}' :: rest =
        f.surfaceTokens ++ ((if f.endsInBlock then [] else [.sign '.']) ++
          (Node.formTokens forms ++ .sign '}' :: rest)) := by
      simp [Node.formTokens]
    rw [htokens]
    refine (Settles.manyTill_cons ?_ hstep ?_ hrest).congr ?_
    · exact closesBlock_of_opensForm hopens
    · have := length_surfaceTokens_pos (hshaped f (by simp))
      simp only [TokenStream.remaining_mk, List.length_append]
      omega
    · simp [Node.inOrderAll]

/-- A block in braces. -/
theorem block_settles (limit : Nat) {b : Block Node} (hshaped : ∀ f ∈ b.forms, Shaped .form f)
    (h : ∀ f ∈ b.forms, FormReadsBack f) (hlimit : (Block.surfaceTokens b).length < limit)
    (rest : List Token) (last : Token) :
    Settles (NoNegatedCall (Block.inOrder b))
      ((nested limit).block.run ⟨Block.surfaceTokens b ++ rest, last⟩)
      (.ok (Block.relabel .unplace b) ⟨rest, last⟩) := by
  obtain ⟨forms, p⟩ := b
  obtain ⟨k, rfl⟩ : ∃ k, limit = k + 1 := ⟨limit - 1, by omega⟩
  simp only [Block.surfaceTokens, List.length_cons, List.length_append] at hlimit
  have htokens : Block.surfaceTokens ⟨forms, p⟩ ++ rest =
      .sign '{' :: (Node.formTokens forms ++ .sign '}' :: rest) := by
    simp [Block.surfaceTokens]
  have hquiet := quiet_forms hshaped (.sign '}' :: rest) last
    ⟨by simp, by simp, by simp [startsOtherwise]⟩
  have hforms := manyTill_forms k hshaped h
    (show (Node.formTokens forms).length < k by omega) rest last
  rw [htokens]
  show Settles _ ((block (nested k)).run _) _
  rw [block_run_braces (by simp), TokenStream.advance_mk_cons,
    TokenStream.skipPoints_eq_self hquiet.point]
  refine Settles.map (x := manyTill closesBlock (blockForm (nested k))) hforms ?_
  rw [Block.relabel, Node.relabelAll_eq_map]
  simp only [Attempt.run_bind, run_expect, TokenStream.current_mk_cons, Token.kind_sign, if_true,
    Attempt.run_pure, TokenStream.advance_mk_cons]
  rfl

/-- An expression as a form of its own. -/
theorem ReadsBack.form {n : Node} (hshaped : Shaped .operand n) (h : ReadsBack n) :
    FormReadsBack n := by
  intro limit rest last hlimit _
  have hopens := opensOperand_current hshaped (.sign '.' :: rest) last
  have hassign : (TokenStream.mk (n.surfaceTokens ++ .sign '.' :: rest) last).current.kind =
      .identifier →
      (TokenStream.mk (n.surfaceTokens ++ .sign '.' :: rest) last).peek.kind ≠ .assign := by
    cases hshaped with
    | @boolean _ p value => cases value <;> simp [Node.surfaceTokens]
    | _ => simp [Node.surfaceTokens]
  have hend : n.endsInBlock = false := by
    cases hshaped <;> rfl
  rw [hend]
  simp only [Bool.false_eq_true, if_false, List.singleton_append]
  rw [form_run_expression (ne_of_opens hopens (by decide)) hassign
    (ne_of_opens hopens (by decide)) (ne_of_opens hopens (by decide))]
  exact h.expression_point limit rest last hlimit

theorem formReadsBack_assignment {p : Position} {name : String} {value : Node}
    (hname : IsName name) (h : ReadsBack value) : FormReadsBack (.assignment p name value) := by
  intro limit rest last hlimit _
  have hkind := Token.kind_word_of_isName hname
  have htokens : (Node.assignment p name value).surfaceTokens ++
        ((if (Node.assignment p name value).endsInBlock then [] else [.sign '.']) ++ rest) =
      .word name :: .assignSign :: (value.surfaceTokens ++ .sign '.' :: rest) := by
    simp [Node.surfaceTokens, Node.endsInBlock]
  simp only [Node.surfaceTokens, List.length_cons] at hlimit
  have hvalue := h.expression_point limit rest last (by omega)
  rw [htokens]
  have hrun : (Grammar.form (nested limit)).run
        ⟨.word name :: .assignSign :: (value.surfaceTokens ++ .sign '.' :: rest), last⟩ =
      (do return .assignment {} name (← (nested limit).expression .lowest) :
        Parse TokenStream Node).run ⟨value.surfaceTokens ++ .sign '.' :: rest, last⟩ := by
    simp [Grammar.form, TokenStream.skipPoints_eq_self, hkind, assignment]
    rfl
  rw [hrun]
  refine (hvalue.map rfl).congr ?_
  simp [Node.inOrder, Node.negatesCall]

theorem alternative_settles (limit : Nat) {alternative : Option (Block Node)}
    (hshaped : ∀ b, alternative = some b → ∀ f ∈ b.forms, Shaped .form f)
    (h : ∀ b, alternative = some b → ∀ f ∈ b.forms, FormReadsBack f)
    (hlimit : (Block.otherwiseTokens alternative).length < limit) {rest : List Token}
    {last : Token} (hquiet : (TokenStream.mk rest last).Quiet) :
    Settles (NoNegatedCall (Block.inOrderOption alternative))
      ((Grammar.alternative (nested limit)).run ⟨Block.otherwiseTokens alternative ++ rest, last⟩)
      (.ok (alternative.map (Block.relabel .unplace)) ⟨rest, last⟩) := by
  cases alternative with
  | none =>
    refine .of_eq noNegatedCall_nil ?_
    exact alternative_eq_ok.2 (.none hquiet.sino hquiet.otherwise)
  | some b =>
    simp only [Block.otherwiseTokens, List.length_cons] at hlimit
    have hblock := block_settles limit (hshaped b rfl) (h b rfl) (by omega) rest last
    have hrun : (Grammar.alternative (nested limit)).run
          ⟨Block.otherwiseTokens (some b) ++ rest, last⟩ =
        (do return some (← (nested limit).block) : Parse TokenStream (Option (Block Node))).run
          ⟨Block.surfaceTokens b ++ rest, last⟩ := by
      simp [Grammar.alternative, run_accept, Block.otherwiseTokens]
    rw [hrun]
    exact hblock.map rfl

theorem formReadsBack_conditional {p : Position} {condition : Node} {consequence : Block Node}
    {alternative : Option (Block Node)} (hcondition : ReadsBack condition)
    (hshaped : ∀ f ∈ consequence.forms, Shaped .form f)
    (hconsequence : ∀ f ∈ consequence.forms, FormReadsBack f)
    (hshaped' : ∀ b, alternative = some b → ∀ f ∈ b.forms, Shaped .form f)
    (halternative : ∀ b, alternative = some b → ∀ f ∈ b.forms, FormReadsBack f) :
    FormReadsBack (.conditional p condition consequence alternative) := by
  intro limit rest last hlimit hquiet
  have htokens : (Node.conditional p condition consequence alternative).surfaceTokens ++
        ((if (Node.conditional p condition consequence alternative).endsInBlock then []
          else [.sign '.']) ++ rest) =
      .word "si" :: (condition.surfaceTokens ++
        (Block.surfaceTokens consequence ++ (Block.otherwiseTokens alternative ++ rest))) := by
    simp [Node.surfaceTokens, Node.endsInBlock]
  simp only [Node.surfaceTokens, List.length_cons, List.length_append] at hlimit
  have hother := alternative_settles limit hshaped' halternative (by omega) hquiet
  have hblock := block_settles limit hshaped hconsequence (by omega)
    (Block.otherwiseTokens alternative ++ rest) last
  have hhead : Block.surfaceTokens consequence ++ (Block.otherwiseTokens alternative ++ rest) =
      .sign '{' :: (Node.formTokens consequence.forms ++ [.sign '}'] ++
        (Block.otherwiseTokens alternative ++ rest)) := by
    rw [Block.surfaceTokens_eq, List.cons_append]
  have hfirst := hcondition.expression_before limit .lowest (.sign '{')
    (Node.formTokens consequence.forms ++ [.sign '}'] ++
      (Block.otherwiseTokens alternative ++ rest)) last (by omega)
    (fun _ => by decide) rfl (by simp)
  rw [← hhead] at hfirst
  have hrun : (form (nested limit)).run ⟨.word "si" :: (condition.surfaceTokens ++
        (Block.surfaceTokens consequence ++ (Block.otherwiseTokens alternative ++ rest))), last⟩ =
      (do
        let condition ← (nested limit).expression .lowest
        let consequence ← (nested limit).block
        return .conditional {} condition consequence (← Grammar.alternative (nested limit)) :
          Parse TokenStream Node).run ⟨condition.surfaceTokens ++
        (Block.surfaceTokens consequence ++ (Block.otherwiseTokens alternative ++ rest)),
        last⟩ := by
    simp [form, TokenStream.skipPoints_eq_self, conditional]
    rfl
  have hnode : (Node.conditional p condition consequence alternative).unplaced =
      .conditional {} condition.unplaced (Block.relabel .unplace consequence)
        (alternative.map (Block.relabel .unplace)) := by
    rw [Node.unplaced, Node.relabel, Block.relabelOption_eq_map]
    rfl
  rw [htokens, hrun, hnode]
  refine (hfirst.bind (hblock.bind (hother.map rfl))).congr ?_
  simp [Node.inOrder, Node.negatesCall]

theorem formReadsBack_loop {p : Position} {condition : Node} {body : Block Node}
    (hcondition : ReadsBack condition) (hshaped : ∀ f ∈ body.forms, Shaped .form f)
    (hbody : ∀ f ∈ body.forms, FormReadsBack f) : FormReadsBack (.loop p condition body) := by
  intro limit rest last hlimit _
  have htokens : (Node.loop p condition body).surfaceTokens ++
        ((if (Node.loop p condition body).endsInBlock then [] else [.sign '.']) ++ rest) =
      .word "mientras" :: (condition.surfaceTokens ++ (Block.surfaceTokens body ++ rest)) := by
    simp [Node.surfaceTokens, Node.endsInBlock]
  simp only [Node.surfaceTokens, List.length_cons, List.length_append] at hlimit
  have hblock := block_settles limit hshaped hbody (by omega) rest last
  have hhead : Block.surfaceTokens body ++ rest =
      .sign '{' :: (Node.formTokens body.forms ++ [.sign '}'] ++ rest) := by
    rw [Block.surfaceTokens_eq, List.cons_append]
  have hfirst := hcondition.expression_before limit .lowest (.sign '{')
    (Node.formTokens body.forms ++ [.sign '}'] ++ rest) last (by omega)
    (fun _ => by decide) rfl (by simp)
  rw [← hhead] at hfirst
  have hrun : (form (nested limit)).run
        ⟨.word "mientras" :: (condition.surfaceTokens ++ (Block.surfaceTokens body ++ rest)),
          last⟩ =
      (do
        let condition ← (nested limit).expression .lowest
        return .loop {} condition (← (nested limit).block) : Parse TokenStream Node).run
        ⟨condition.surfaceTokens ++ (Block.surfaceTokens body ++ rest), last⟩ := by
    simp [form, TokenStream.skipPoints_eq_self, loop]
    rfl
  rw [htokens, hrun]
  refine (hfirst.bind (hblock.map rfl)).congr ?_
  simp [Node.inOrder, Node.negatesCall]

theorem readsBack_function {p : Position} {parameters : List Parameter} {body : Block Node}
    (hparameters : ∀ q ∈ parameters, IsName q.name) (hshaped : ∀ f ∈ body.forms, Shaped .form f)
    (hbody : ∀ f ∈ body.forms, FormReadsBack f) : ReadsBack (.function p parameters body) := by
  refine readsBack_of_primary fun limit rest last hlimit => ?_
  have htokens : (Node.function p parameters body).surfaceTokens ++ rest =
      .word "función" :: .sign '(' ::
        (parameters.flatMap (fun q => [.word q.name, .sign '.']) ++
          .sign ')' :: (Block.surfaceTokens body ++ rest)) := by
    simp [Node.surfaceTokens]
  simp only [Node.surfaceTokens, List.length_cons, List.length_append] at hlimit
  have hnames := manyTill_parameters limit (by omega) hparameters
    (Block.surfaceTokens body ++ rest) last
  have hblock := block_settles limit hshaped hbody (by omega) rest last
  rw [htokens, primary_run_funcion (by simp)]
  have hrun : (function (nested limit)).run ⟨.word "función" :: .sign '(' ::
        (parameters.flatMap (fun q => [.word q.name, .sign '.']) ++
          .sign ')' :: (Block.surfaceTokens body ++ rest)), last⟩ =
      (do
        return .function {} (parameters.map (Parameter.relabel .unplace))
          (← (nested limit).block) :
        Parse TokenStream Node).run ⟨Block.surfaceTokens body ++ rest, last⟩ := by
    simp [function, run_expect, manyTill, hnames]
    rfl
  rw [hrun]
  refine (hblock.map rfl).congr ?_
  simp [Node.inOrder, Node.negatesCall, noNegatedCall_parameters]

/-- Every tree that the grammar builds is read back, as an operand and as a form. -/
theorem readsBack_of_shaped {place : Place} {n : Node} (h : Shaped place n) :
    (place = .operand → ReadsBack n) ∧ FormReadsBack n := by
  induction h with
  | @integer _ p value h =>
    have hread := readsBack_integer (p := p) h
    exact ⟨fun _ => hread, hread.form (.integer h)⟩
  | boolean => exact ⟨fun _ => readsBack_boolean, readsBack_boolean.form .boolean⟩
  | @identifier _ p name h =>
    have hread := readsBack_identifier (p := p) h
    exact ⟨fun _ => hread, hread.form (.identifier h)⟩
  | @binary _ p _ _ _ hoperator hleft hright ihleft ihright =>
    have hread := readsBack_binary (p := p) hoperator (ihleft.1 rfl) (ihright.1 rfl)
    exact ⟨fun _ => hread, hread.form (.binary hoperator hleft hright)⟩
  | @minus _ p _ h ih =>
    have hread := readsBack_minus (p := p) h (ih.1 rfl)
    exact ⟨fun _ => hread, hread.form (.minus h)⟩
  | @not _ p _ h ih =>
    have hread := readsBack_not (p := p) h (ih.1 rfl)
    exact ⟨fun _ => hread, hread.form (.not h)⟩
  | @call _ p _ _ hname harguments ih =>
    have hread := readsBack_call (p := p) hname harguments fun a ha => (ih a ha).1 rfl
    exact ⟨fun _ => hread, hread.form (.call hname harguments)⟩
  | @function _ p _ _ hparameters hbody ih =>
    have hread := readsBack_function (p := p) hparameters hbody fun f hf => (ih f hf).2
    exact ⟨fun _ => hread, hread.form (.function hparameters hbody)⟩
  | assignment hname hvalue ih =>
    exact ⟨nofun, formReadsBack_assignment hname (ih.1 rfl)⟩
  | conditional hcondition hconsequence halternative ih ihconsequence ihalternative =>
    exact ⟨nofun, formReadsBack_conditional (ih.1 rfl) hconsequence
      (fun f hf => (ihconsequence f hf).2) halternative
      fun b hb f hf => (ihalternative b hb f hf).2⟩
  | loop hcondition hbody ih ihbody =>
    exact ⟨nofun, formReadsBack_loop (ih.1 rfl) hbody fun f hf => (ihbody f hf).2⟩

/-! ## Programs -/

/-- The tokens of forms are read as the forms, or something else than a name is called. -/
theorem forms_readBack {limit : Nat} {fs : List Node} (hshaped : ∀ f ∈ fs, Shaped .form f)
    (hlimit : (Node.formTokens fs).length < limit) (last : Token)
    (hlast : last.kind = .endOfInput) :
    (NoNegatedCall (Node.inOrderAll fs) ∧
      forms (nested limit) ⟨Node.formTokens fs, last⟩ =
        (fs.map Node.unplaced, none, ⟨[], last⟩)) ∨
    (¬ NoNegatedCall (Node.inOrderAll fs) ∧
      (forms (nested limit) ⟨Node.formTokens fs, last⟩).2.1 =
        some ⟨.grammar .calleeNotName, {}⟩) := by
  induction fs with
  | nil =>
    refine .inl ⟨noNegatedCall_nil, ?_⟩
    rw [forms]
    simp [Node.formTokens, TokenStream.skipPoints, TokenStream.current, hlast]
  | cons f fs ih =>
    simp only [Node.formTokens, List.length_append] at hlimit
    have hshaped' : ∀ f' ∈ fs, Shaped .form f' :=
      fun f' hf' => hshaped f' (List.mem_cons_of_mem f hf')
    have hf := hshaped f (by simp)
    have hquiet : (TokenStream.mk (Node.formTokens fs) last).Quiet := by
      have hend : (TokenStream.mk [] last).Quiet := by
        constructor <;> simp [TokenStream.current, startsOtherwise, hlast]
      simpa using quiet_forms hshaped' [] last hend
    have hform := (readsBack_of_shaped hf).2 limit (Node.formTokens fs) last (by omega) hquiet
    rw [Node.formTokens]
    have hopens := opensForm_current hf
      ((if f.endsInBlock then [] else [.sign '.']) ++ Node.formTokens fs) last
    have hlt : (Node.formTokens fs).length < (f.surfaceTokens ++
        ((if f.endsInBlock then [] else [Token.sign '.']) ++ Node.formTokens fs)).length := by
      have := length_surfaceTokens_pos hf
      simp only [List.length_append]
      omega
    generalize f.surfaceTokens ++
      ((if f.endsInBlock then [] else [.sign '.']) ++ Node.formTokens fs) = ts at hform hopens hlt
    rw [forms]
    simp only [TokenStream.view_skipPoints, TokenStream.view_current,
      TokenStream.skipPoints_eq_self (ne_of_opens hopens (by decide)),
      ne_of_opens hopens (show opensForm .endOfInput = false by decide), if_false]
    rcases hform with ⟨hgood, hrun⟩ | ⟨hbad, s', hrun⟩
    · simp only [hrun, TokenStream.view_remaining, TokenStream.remaining_mk, hlt, if_true]
      rcases ih hshaped' (by omega) with ⟨hgood', hrest⟩ | ⟨hbad', hrest⟩
      · refine .inl ⟨?_, ?_⟩
        · simp [Node.inOrderAll, hgood, hgood']
        · rw [hrest, List.map_cons]
      · refine .inr ⟨?_, hrest⟩
        simp [Node.inOrderAll, hbad']
    · rw [hrun]
      refine .inr ⟨?_, ?_⟩
      · simp [Node.inOrderAll, hbad]
      · simp [ParseError.diagnostic, ParseError.cause]
        rfl

end Grammar

end Castellano
