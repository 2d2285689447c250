import Castellano.Proofs.Decimal
import Castellano.Proofs.SourceOrder

/-!
# The shape of parsed trees

Not every tree is the tree of some source. Integers are 64-bit, names are words but no keywords, an
operator is spelled as its kind says, and assignments, conditionals and loops only stand where a
form is expected.

* `IsWord`, `IsName`, `Token.IsOperator`: the words, names and operators that a source can hold.
* `Shaped`: the trees that the grammar builds, in the place of an operand and in that of a form.
* `Token.WellSpelled`, `wellSpelled_of_mem_scan`: what is known of the text of every token.
* `nested_shapes`, `forms_shaped`, `parseSource_shaped`: every parsed tree has such a shape.
-/

namespace Castellano

/-! ## Names and operators -/

/-- A word: a letter with letters and digits behind it. -/
structure IsWord (word : String) : Prop where
  head : word.toList.head?.any Token.isLetter
  chars : word.toList.all Token.isWordChar

instance (word : String) : Decidable (IsWord word) :=
  decidable_of_iff (word.toList.head?.any Token.isLetter ∧ word.toList.all Token.isWordChar)
    ⟨fun h => ⟨h.1, h.2⟩, fun h => ⟨h.head, h.chars⟩⟩

theorem IsWord.exists_cons {word : String} (h : IsWord word) :
    ∃ first cs, word.toList = first :: cs ∧ Token.isLetter first ∧
      ∀ ch ∈ cs, Token.isWordChar ch := by
  obtain ⟨hhead, hchars⟩ := h
  cases hword : word.toList with
  | nil => simp [hword] at hhead
  | cons first cs =>
    rw [hword] at hhead
    rw [hword, List.all_cons, Bool.and_eq_true] at hchars
    exact ⟨first, cs, rfl, by simpa using hhead, List.all_eq_true.1 hchars.2⟩

/-- A name: a word that is no keyword. -/
structure IsName (name : String) : Prop extends IsWord name where
  free : name ∉ TokenKind.keywords.map Prod.fst

instance (name : String) : Decidable (IsName name) :=
  decidable_of_iff (IsWord name ∧ name ∉ TokenKind.keywords.map Prod.fst)
    ⟨fun h => ⟨h.1, h.2⟩, fun h => ⟨h.toIsWord, h.free⟩⟩

/-- The operators between two operands, with their spelling. -/
def TokenKind.operatorSigns : List (TokenKind × String) :=
  [(equals, "="), (plus, "+"), (minus, "-"), (times, "*"), (divide, "/")]

/-- The token is an operator in its own spelling. -/
def Token.IsOperator (t : Token) : Prop := (t.kind, t.literal) ∈ TokenKind.operatorSigns

instance (t : Token) : Decidable t.IsOperator :=
  inferInstanceAs (Decidable ((t.kind, t.literal) ∈ TokenKind.operatorSigns))

/-- A word is a keyword, or it is free and an identifier. -/
theorem ofWord_cases (word : String) :
    (word, TokenKind.ofWord word) ∈ TokenKind.keywords ∨
      (word ∉ TokenKind.keywords.map Prod.fst ∧ TokenKind.ofWord word = .identifier) := by
  rw [TokenKind.ofWord]
  cases h : TokenKind.keywords.lookup word with
  | none =>
    rw [List.lookup_eq_none_iff] at h
    refine .inr ⟨?_, rfl⟩
    simp only [List.mem_map, not_exists, not_and]
    intro entry hentry heq
    simpa [heq] using h entry hentry
  | some kind =>
    obtain ⟨l₁, l₂, hsplit, -⟩ := List.lookup_eq_some_iff.1 h
    rw [hsplit]
    simp

theorem IsName.ofWord {name : String} (h : IsName name) : TokenKind.ofWord name = .identifier := by
  obtain hkey | hfree := ofWord_cases name
  · exact absurd (List.mem_map_of_mem hkey) h.free
  · exact hfree.2

/-! ## Trees -/

/-- Where a node stands: inside an expression, or as a form of its own. -/
inductive Place where
  | operand
  | form
deriving DecidableEq, Repr

/-- The trees that the grammar builds. -/
inductive Shaped : Place → Node → Prop
  | integer {place : Place} {p : Position} {value : Int} (h : Word64.InRange value) :
    Shaped place (.integer p value)
  | boolean {place : Place} {p : Position} {value : Bool} : Shaped place (.boolean p value)
  | identifier {place : Place} {p : Position} {name : String} (h : IsName name) :
    Shaped place (.identifier p name)
  | binary {place : Place} {p : Position} {operator : Token} {left right : Node}
    (hoperator : operator.IsOperator) (hleft : Shaped .operand left)
    (hright : Shaped .operand right) : Shaped place (.binary p operator left right)
  | minus {place : Place} {p : Position} {operand : Node} (h : Shaped .operand operand) :
    Shaped place (.minus p operand)
  | not {place : Place} {p : Position} {operand : Node} (h : Shaped .operand operand) :
    Shaped place (.not p operand)
  | call {place : Place} {p : Position} {name : String} {arguments : List Node}
    (hname : IsName name) (harguments : ∀ a ∈ arguments, Shaped .operand a) :
    Shaped place (.call p name arguments)
  | function {place : Place} {p : Position} {parameters : List Parameter} {body : Block Node}
    (hparameters : ∀ q ∈ parameters, IsName q.name) (hbody : ∀ f ∈ body.forms, Shaped .form f) :
    Shaped place (.function p parameters body)
  | assignment {p : Position} {name : String} {value : Node} (hname : IsName name)
    (hvalue : Shaped .operand value) : Shaped .form (.assignment p name value)
  | conditional {p : Position} {condition : Node} {consequence : Block Node}
    {alternative : Option (Block Node)} (hcondition : Shaped .operand condition)
    (hconsequence : ∀ f ∈ consequence.forms, Shaped .form f)
    (halternative : ∀ b, alternative = some b → ∀ f ∈ b.forms, Shaped .form f) :
    Shaped .form (.conditional p condition consequence alternative)
  | loop {p : Position} {condition : Node} {body : Block Node}
    (hcondition : Shaped .operand condition) (hbody : ∀ f ∈ body.forms, Shaped .form f) :
    Shaped .form (.loop p condition body)

/-- An operand is also a form. -/
theorem Shaped.form {n : Node} (h : Shaped .operand n) : Shaped .form n := by
  cases h with
  | integer h => exact .integer h
  | boolean => exact .boolean
  | identifier h => exact .identifier h
  | binary hoperator hleft hright => exact .binary hoperator hleft hright
  | minus h => exact .minus h
  | not h => exact .not h
  | call hname harguments => exact .call hname harguments
  | function hparameters hbody => exact .function hparameters hbody

/-- Every form of the program is a form that the grammar builds. -/
def Program.Shaped (p : Program) : Prop := ∀ f ∈ p.forms, Castellano.Shaped .form f

/-! ## The text of tokens -/

/-- The text of an identifier is a name, and that of an operator its sign. -/
structure Token.WellSpelled (t : Token) : Prop where
  name : t.kind = .identifier → IsName t.literal
  operator : t.kind.isOperator → t.IsOperator

theorem Token.wellSpelled_of_kind {t : Token} (hname : t.kind ≠ .identifier)
    (hoperator : t.kind.isOperator = false) : t.WellSpelled :=
  ⟨fun h => absurd h hname, fun h => by simp [hoperator] at h⟩

theorem wellSpelled_word {ch : Char} {cs : List Char} (hl : Token.isLetter ch)
    (hcs : cs.all Token.isWordChar) :
    (Token.mk (TokenKind.ofWord (String.ofList (ch :: cs))) (String.ofList (ch :: cs))
      {}).WellSpelled := by
  obtain hkey | ⟨hfree, hid⟩ := ofWord_cases (String.ofList (ch :: cs))
  · have hvalues : ∀ entry ∈ TokenKind.keywords,
        entry.2 ≠ .identifier ∧ entry.2.isOperator = false := by decide
    exact Token.wellSpelled_of_kind (hvalues _ hkey).1 (hvalues _ hkey).2
  · refine ⟨fun _ => ⟨⟨?_, ?_⟩, hfree⟩, fun h => ?_⟩
    · simpa using hl
    · rw [String.toList_ofList, List.all_cons, hcs]
      simp [Token.isWordChar, hl]
    · rw [hid] at h
      cases h

theorem wellSpelled_sign (ch : Char) :
    (Token.mk (TokenKind.ofSign ch) ch.toString {}).WellSpelled := by
  by_cases h : ch ∈ ['+', '-', '*', '/', '=']
  · simp only [List.mem_cons, List.not_mem_nil, or_false] at h
    rcases h with rfl | rfl | rfl | rfl | rfl <;> exact ⟨by decide, by decide⟩
  · simp only [List.mem_cons, List.not_mem_nil, or_false, not_or] at h
    apply Token.wellSpelled_of_kind
    · simp only [TokenKind.ofSign]
      split <;> simp
    · simp only [TokenKind.ofSign]
      split <;> simp_all [TokenKind.isOperator]

/-- Every token of a text is well spelled. -/
theorem wellSpelled_of_mem_scan (cs : List Char) : ∀ t ∈ scan cs, t.WellSpelled := by
  induction hn : cs.length using Nat.strongRecOn generalizing cs with
  | ind n ih =>
    cases cs with
    | nil => simp
    | cons ch cs =>
      rw [List.length_cons] at hn
      have hshort : ∀ p : Char → Bool, (cs.dropWhile p).length ≤ cs.length :=
        fun p => (List.dropWhile_suffix p).length_le
      by_cases hs : Token.isSpacing ch
      · rw [scan_spacing hs]
        exact ih _ (by omega) cs rfl
      obtain h1 | ⟨-, h2⟩ | ⟨rfl, cs', rfl⟩ | ⟨h1, h2, h3⟩ := Cursor.start_cases ch cs
      · have := hshort Token.isDigit
        rw [scan_number h1]
        exact List.forall_mem_cons.2 ⟨Token.wellSpelled_of_kind (by simp) rfl,
          ih _ (by omega) _ rfl⟩
      · have := hshort Token.isWordChar
        rw [scan_word h2]
        exact List.forall_mem_cons.2 ⟨wellSpelled_word h2 List.all_takeWhile,
          ih _ (by omega) _ rfl⟩
      · rw [scan_assign]
        rw [List.length_cons] at hn
        exact List.forall_mem_cons.2 ⟨Token.wellSpelled_of_kind (by simp) rfl,
          ih _ (by omega) _ rfl⟩
      · have hw : ¬ Token.isWordChar ch := by simp [Token.isWordChar, h1, h2]
        rw [scan_sign hs hw h3]
        exact List.forall_mem_cons.2 ⟨wellSpelled_sign ch, ih _ (by omega) _ rfl⟩

namespace TokenStream

/-- All tokens of the stream are well spelled. -/
structure WellSpelled (s : TokenStream) : Prop where
  upcoming : ∀ t ∈ s.upcoming, t.WellSpelled
  last : s.last.WellSpelled

variable {s : TokenStream}

theorem WellSpelled.current (h : s.WellSpelled) : s.current.WellSpelled := by
  obtain ⟨upcoming, last⟩ := s
  cases upcoming with
  | nil => exact h.last
  | cons t ts => exact h.upcoming t (by simp)

theorem WellSpelled.advance (h : s.WellSpelled) : s.advance.WellSpelled :=
  ⟨fun t ht => h.upcoming t (List.mem_of_mem_tail ht), h.last⟩

theorem WellSpelled.skipPoints (h : s.WellSpelled) : s.skipPoints.WellSpelled :=
  ⟨fun t ht => h.upcoming t ((List.dropWhile_sublist _).mem ht), h.last⟩

theorem WellSpelled.pastPoint (h : s.WellSpelled) : s.pastPoint.WellSpelled := by
  rw [TokenStream.pastPoint]
  split
  · exact h.advance
  · exact h

theorem wellSpelled_ofSource (source : String) : (ofSource source).WellSpelled := by
  have hunplaced : ∀ t : Token, t.unplaced.WellSpelled → t.WellSpelled := by
    intro t h
    rw [Token.unplaced_eq] at h
    exact ⟨h.name, h.operator⟩
  have hscan := unplaced_ofSource source
  refine ⟨fun t ht => hunplaced t ?_, ?_⟩
  · apply wellSpelled_of_mem_scan source.toList
    have hup : (ofSource source).upcoming.map Token.unplaced = scan source.toList :=
      congrArg TokenStream.upcoming hscan
    rw [← hup]
    exact List.mem_map_of_mem ht
  · have hkind := (ended_ofSource source).last
    exact Token.wellSpelled_of_kind (by simp [hkind]) (by rw [hkind]; rfl)

end TokenStream

/-! ## Rules -/

namespace Grammar

open Parse

/-- The steps for what stands inside build trees of the right shape. -/
structure Nested.Shapes (sub : Nested TokenStream) : Prop where
  expression : ∀ {level : Precedence} {s s' : TokenStream} {n : Node}, s.WellSpelled →
    (sub.expression level).run s = .ok n s' → Shaped .operand n ∧ s'.WellSpelled
  block : ∀ {s s' : TokenStream} {b : Block Node}, s.WellSpelled → sub.block.run s = .ok b s' →
    (∀ f ∈ b.forms, Shaped .form f) ∧ s'.WellSpelled

/-- If every round of a repetition returns something good and leaves a well spelled stream, all that
    the repetition returns is good. -/
theorem manyTillFrom_wellSpelled {α : Type} {stop : TokenKind → Bool} {step : Parse TokenStream α}
    {P : α → Prop}
    (hstep : ∀ {s s' a}, s.WellSpelled → step.run s = .ok a s' → P a ∧ s'.WellSpelled)
    {s s' : TokenStream} (hs : s.WellSpelled) {as : List α}
    (h : manyTillFrom stop step s = .ok as s') : (∀ a ∈ as, P a) ∧ s'.WellSpelled := by
  refine manyTillFrom_invariant (P := fun as s => (∀ a ∈ as, P a) ∧ s.WellSpelled)
    (fun done s₁ a s₂ hdone ha => ?_) ⟨by simp, hs⟩ h
  obtain ⟨hP, hs₂⟩ := hstep hdone.2 ha
  exact ⟨List.forall_mem_append.2 ⟨hdone.1, by simpa using hP⟩, hs₂⟩

section Rules

variable {sub : Nested TokenStream} (hsub : sub.Shapes) {s s' : TokenStream}

include hsub

theorem parameter_shaped {q : Parameter} (hs : s.WellSpelled)
    (h : (parameter sub).run s = .ok q s') : IsName q.name ∧ s'.WellSpelled := by
  obtain ⟨hname, hs'⟩ := hsub.expression hs (parameter_eq_ok.1 h)
  cases hname with
  | identifier h => exact ⟨h, hs'⟩

theorem PrimaryRead.shaped {n : Node} (hs : s.WellSpelled) (h : PrimaryRead sub s n s') :
    Shaped .operand n ∧ s'.WellSpelled := by
  cases h with
  | integer h => exact ⟨.integer (Word64.inRange_wrap _), hs.advance⟩
  | identifier h => exact ⟨.identifier (hs.current.name h), hs.advance⟩
  | verdadero h => exact ⟨.boolean, hs.advance⟩
  | falso h => exact ⟨.boolean, hs.advance⟩
  | parenthesised h hinner hclose =>
    obtain ⟨hinner, hs₁⟩ := hsub.expression hs.advance hinner
    exact ⟨hinner, hs₁.advance⟩
  | minus h hnext hoperand =>
    obtain ⟨hoperand, hs'⟩ := hsub.expression hs.advance hoperand
    exact ⟨.minus hoperand, hs'⟩
  | not h hnext hoperand =>
    obtain ⟨hoperand, hs'⟩ := hsub.expression hs.advance hoperand
    exact ⟨.not hoperand, hs'⟩
  | function h hopen hparameters hclose hbody =>
    obtain ⟨hnames, hs₁⟩ := manyTillFrom_wellSpelled (P := fun q => IsName q.name)
      (parameter_shaped hsub) hs.advance.advance hparameters
    obtain ⟨hbody, hs'⟩ := hsub.block hs₁.advance hbody
    exact ⟨.function hnames hbody, hs'⟩

theorem ExtendRead.shaped {level : Precedence} {left n : Node} (hs : s.WellSpelled)
    (hleft : Shaped .operand left) (hlevel : level < s.precedence)
    (h : ExtendRead sub s left n s') : Shaped .operand n ∧ s'.WellSpelled := by
  cases h with
  | binary h hright =>
    obtain ⟨hright, hs'⟩ := hsub.expression hs.advance hright
    exact ⟨.binary (hs.current.operator (isOperator_of_lt hlevel h)) hleft hright, hs'⟩
  | call h harguments hclose =>
    obtain ⟨harguments, hs₁⟩ := manyTillFrom_wellSpelled (P := Shaped .operand)
      hsub.expression hs.advance harguments
    cases hleft with
    | identifier hname => exact ⟨.call hname harguments, hs₁.advance⟩

theorem expression_shaped {level : Precedence} {n : Node} (hs : s.WellSpelled)
    (h : (expression sub level).run s = .ok n s') : Shaped .operand n ∧ s'.WellSpelled := by
  obtain ⟨first, s₁, s₂, hfirst, hwhole, rfl⟩ := expression_eq_ok.1 h
  obtain ⟨hn, hs₂⟩ := operatorsFrom_invariant
    (P := fun left s => Shaped .operand left ∧ s.WellSpelled)
    (fun left s₁ node s₂ hleft hlevel hx => hx.shaped hsub hleft.2 hleft.1 hlevel)
    (hfirst.shaped hsub hs.skipPoints) hwhole
  exact ⟨hn, hs₂.pastPoint⟩

theorem AlternativeRead.shaped {other : Option (Block Node)} (hs : s.WellSpelled)
    (h : AlternativeRead sub s other s') :
    (∀ b, other = some b → ∀ f ∈ b.forms, Shaped .form f) ∧ s'.WellSpelled := by
  have hblock : ∀ {s : TokenStream} {b : Block Node}, s.WellSpelled → sub.block.run s = .ok b s' →
      (∀ b', some b = some b' → ∀ f ∈ b'.forms, Shaped .form f) ∧ s'.WellSpelled := by
    intro s b hs h
    obtain ⟨hb, hs'⟩ := hsub.block hs h
    refine ⟨?_, hs'⟩
    rintro _ ⟨⟩
    exact hb
  cases h with
  | sino h hb => exact hblock hs.advance hb
  | otherwise h hb => exact hblock hs.advance.advance.advance hb
  | none h hother => exact ⟨by simp, hs⟩

theorem FormRead.shaped {n : Node} (hs : s.WellSpelled) (h : FormRead sub s n s') :
    Shaped .form n ∧ s'.WellSpelled := by
  cases h with
  | assignment h hassign hvalue =>
    obtain ⟨hvalue, hs'⟩ := hsub.expression hs.advance.advance hvalue
    exact ⟨.assignment (hs.current.name h) hvalue, hs'⟩
  | conditional h hcondition hconsequence hother =>
    obtain ⟨hcondition, hs₁⟩ := hsub.expression hs.advance hcondition
    obtain ⟨hconsequence, hs₂⟩ := hsub.block hs₁ hconsequence
    obtain ⟨hother, hs'⟩ := hother.shaped hsub hs₂
    exact ⟨.conditional hcondition hconsequence hother, hs'⟩
  | loop h hcondition hbody =>
    obtain ⟨hcondition, hs₁⟩ := hsub.expression hs.advance hcondition
    obtain ⟨hbody, hs'⟩ := hsub.block hs₁ hbody
    exact ⟨.loop hcondition hbody, hs'⟩
  | expression _ _ _ hnode =>
    obtain ⟨hnode, hs'⟩ := hsub.expression hs hnode
    exact ⟨hnode.form, hs'⟩

theorem form_shaped {n : Node} (hs : s.WellSpelled) (h : (form sub).run s = .ok n s') :
    Shaped .form n ∧ s'.WellSpelled :=
  (form_eq_ok.1 h).shaped hsub hs.skipPoints

theorem block_shaped {b : Block Node} (hs : s.WellSpelled) (h : (block sub).run s = .ok b s') :
    (∀ f ∈ b.forms, Shaped .form f) ∧ s'.WellSpelled := by
  cases block_eq_ok.1 h with
  | braces hbrace hforms hclose =>
    have hstep : ∀ {s s' : TokenStream} {f : Node}, s.WellSpelled →
        (blockForm sub).run s = .ok f s' → Shaped .form f ∧ s'.WellSpelled := by
      intro s s' f hs h
      obtain ⟨s₁, hform, rfl⟩ := blockForm_eq_ok.1 h
      obtain ⟨hf, hs₁⟩ := hform.shaped hsub hs.skipPoints
      exact ⟨hf, hs₁.skipPoints⟩
    obtain ⟨hforms, hs₁⟩ := manyTillFrom_wellSpelled (P := Shaped .form) hstep
      hs.advance.skipPoints hforms
    exact ⟨hforms, hs₁.advance⟩
  | bare _ hform =>
    obtain ⟨hf, hs'⟩ := hform.shaped hsub hs.skipPoints
    exact ⟨by simpa using hf, hs'⟩

end Rules

/-- At every depth, expressions and blocks have the shape that their place asks for. -/
theorem nested_shapes (limit : Nat) : (nested limit).Shapes := by
  induction limit with
  | zero =>
    refine ⟨?_, ?_⟩
    · intro level s s' n _ h
      cases h
    · intro s s' b _ h
      cases h
  | succ limit ih => exact ⟨expression_shaped ih, block_shaped ih⟩

theorem forms_shaped {sub : Nested TokenStream} (hsub : sub.Shapes) {s : TokenStream}
    (hs : s.WellSpelled) :
    ∀ f ∈ (forms sub s).1, Shaped .form f := by
  fun_induction forms sub s with
  | case1 | case2 | case3 => simp
  | case4 s start hend f s' hrun hlt fs diagnostic s'' hrest ih =>
    obtain ⟨hf, hs'⟩ := form_shaped hsub hs.skipPoints hrun
    rw [hrest] at ih
    exact List.forall_mem_cons.2 ⟨hf, ih hs'⟩
  | case5 s start hend f s' hrun hlt =>
    simpa using (form_shaped hsub hs.skipPoints hrun).1

end Grammar

/-- Every parsed program has the shape that the grammar builds, also if it is cut short by a
    diagnostic. -/
theorem parseSource_shaped (limits : Limits) (source : String) :
    (parseSource limits source).1.Shaped := by
  rw [parseSource_eq]
  exact Grammar.forms_shaped (Grammar.nested_shapes _) (TokenStream.wellSpelled_ofSource source)

end Castellano
