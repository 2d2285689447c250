import Castellano.Proofs.Recursion

/-!
# Arithmetic on machine words

Expressions of integer literals, the four operations and signs. What such an expression means can be
said without a run: it denotes a word of 64 bits, or nothing if it divides by zero somewhere. The
evaluator works on plain integers and wraps every result; the integers that it comes to are the
words, read as signed numbers.

* `Operation`, `Arithmetic`: operations and expressions; `Arithmetic.toNode` their trees.
* `Arithmetic.word`: what an expression denotes in two's complement.
* `Arithmetic.exact`: its value among all integers.
* `Arithmetic.parts`, `dividesByZero`: its parts, and the divisions that go wrong.
* `combine_toInt`: an operation on signed numbers is the operation on words.
* `run_toNode`: evaluating an expression gives its word and reports its divisions by zero.
* `arithmetic_is_that_of_words`: the law, with the case of expressions without division.
-/

namespace Castellano

open Evaluation

/-! ## Operations -/

/-- The operations on two numbers. -/
inductive Operation where
  | plus
  | minus
  | times
  | divide
deriving DecidableEq, Repr

namespace Operation

/-- The kind of token that writes the operation. -/
def kind : Operation → TokenKind
  | plus => .plus
  | minus => .minus
  | times => .times
  | divide => .divide

/-- The operation on words of 64 bits. The quotient is that of signed numbers, cut off toward zero;
    there is none for a zero divisor. -/
def onWords : Operation → BitVec 64 → BitVec 64 → Option (BitVec 64)
  | plus, a, b => some (a + b)
  | minus, a, b => some (a - b)
  | times, a, b => some (a * b)
  | divide, a, b => if b = 0#64 then none else some (a.sdiv b)

/-- The operation on all integers. -/
def onIntegers : Operation → Int → Int → Int
  | plus, a, b => a + b
  | minus, a, b => a - b
  | times, a, b => a * b
  | divide, a, b => a.tdiv b

/-- The least number divided by minus one is the least number again. -/
example : divide.onWords (BitVec.intMin 64) (-1) = some (BitVec.intMin 64) := by decide

/-- Only a division by zero has no result. -/
theorem onWords_eq_none_iff (operation : Operation) (a b : BitVec 64) :
    operation.onWords a b = none ↔ operation = divide ∧ b = 0#64 := by
  cases operation <;> simp [onWords]

/-- Without a division, words are integers modulo `2^64`. -/
theorem onWords_ofInt {operation : Operation} (h : operation ≠ divide) (a b : Int) :
    operation.onWords (BitVec.ofInt 64 a) (BitVec.ofInt 64 b) =
      some (BitVec.ofInt 64 (operation.onIntegers a b)) := by
  cases operation with
  | plus => rw [onWords, onIntegers, BitVec.ofInt_add]
  | minus =>
    rw [onWords, onIntegers, Int.sub_eq_add_neg, BitVec.ofInt_add, BitVec.ofInt_neg,
      BitVec.sub_eq_add_neg]
  | times => rw [onWords, onIntegers, BitVec.ofInt_mul]
  | divide => exact absurd rfl h

end Operation

/-! ## Expressions -/

/-- An expression of integer literals, operations and signs. The token of an operation has its own
    spelling and place, which play no part. -/
inductive Arithmetic where
  | literal (position : Position) (digits : String)
  | negated (position : Position) (operand : Arithmetic)
  | combined (position : Position) (operation : Operation) (spelling : String) (place : Position)
      (left right : Arithmetic)

namespace Arithmetic

/-- The tree of the expression. -/
def toNode : Arithmetic → Node
  | literal p digits => .integer p (Word64.ofDecimal digits)
  | negated p operand => .minus p operand.toNode
  | combined p operation spelling place left right =>
    .binary p ⟨operation.kind, spelling, place⟩ left.toNode right.toNode

/-- The word that the expression denotes: a literal is taken modulo `2^64`, and what has a part
    without a word has none. -/
def word : Arithmetic → Option (BitVec 64)
  | literal _ digits => some (BitVec.ofNat 64 (Word64.decimal digits.toList))
  | negated _ operand => operand.word.map fun w => -w
  | combined _ operation _ _ left right =>
    match left.word, right.word with
    | some a, some b => operation.onWords a b
    | _, _ => none

/-- The value of the expression among all integers. -/
def exact : Arithmetic → Int
  | literal _ digits => Word64.decimal digits.toList
  | negated _ operand => -operand.exact
  | combined _ operation _ _ left right => operation.onIntegers left.exact right.exact

/-- The expression and all expressions in it, in the order in which they are finished. -/
def parts : Arithmetic → List Arithmetic
  | literal p digits => [literal p digits]
  | negated p operand => operand.parts ++ [negated p operand]
  | combined p operation spelling place left right =>
    left.parts ++ right.parts ++ [combined p operation spelling place left right]

/-- The position of the expression. -/
def position : Arithmetic → Position
  | literal p _ | negated p _ | combined p _ _ _ _ _ => p

/-- The expression is a division. -/
def isDivision : Arithmetic → Bool
  | combined _ operation _ _ _ _ => operation = .divide
  | _ => false

/-- The expression is a division whose left operand denotes a word and whose right operand denotes
    zero. -/
def dividesByZero : Arithmetic → Bool
  | combined _ operation _ _ left right =>
    operation = .divide && left.word.isSome && right.word = some 0#64
  | _ => false

/-- What is reported about the expression: each division by zero, at its position. -/
def faults (e : Arithmetic) : List Diagnostic :=
  (e.parts.filter dividesByZero).map fun part => ⟨.meaning .divisionByZero, part.position⟩

section Faults

variable (p : Position) (operation : Operation) (spelling : String) (place : Position)
  (left right : Arithmetic)

@[simp]
theorem faults_literal (digits : String) : (literal p digits).faults = [] := rfl

@[simp]
theorem faults_negated (operand : Arithmetic) : (negated p operand).faults = operand.faults := by
  simp [faults, parts, dividesByZero]

theorem faults_combined :
    (combined p operation spelling place left right).faults =
      left.faults ++ right.faults ++
        if (combined p operation spelling place left right).dividesByZero then
          [⟨.meaning .divisionByZero, p⟩]
        else [] := by
  simp only [faults, parts, List.filter_append, List.map_append, List.filter_singleton]
  cases (combined p operation spelling place left right).dividesByZero <;> rfl

/-- Between two words, what has no result is a division by zero. -/
theorem dividesByZero_of_words {a b : BitVec 64} (ha : left.word = some a)
    (hb : right.word = some b) :
    (combined p operation spelling place left right).dividesByZero =
      (operation.onWords a b).isNone := by
  rw [Bool.eq_iff_iff, Option.isNone_iff_eq_none, operation.onWords_eq_none_iff]
  simp [dividesByZero, ha, hb]

/-- Without a word on one side, it is not the division that went wrong. -/
theorem not_dividesByZero_of_none (h : left.word = none ∨ right.word = none) :
    (combined p operation spelling place left right).dividesByZero = false := by
  obtain h | h := h <;> simp [dividesByZero, h]

end Faults

/-- An expression denotes nothing exactly if one of its parts divides by zero. -/
theorem word_eq_none_iff (e : Arithmetic) :
    e.word = none ↔ ∃ part ∈ e.parts, part.dividesByZero := by
  induction e with
  | literal p digits => simp [word, parts, dividesByZero]
  | negated p operand ih =>
    simp [word, parts, dividesByZero, ih, or_and_right, exists_or]
  | combined p operation spelling place left right ihl ihr =>
    rw [parts]
    simp only [List.mem_append, List.mem_singleton, or_and_right, exists_or, exists_eq_left]
    rw [← ihl, ← ihr, word]
    cases ha : left.word with
    | none => simp
    | some a =>
      cases hb : right.word with
      | none => simp
      | some b => simp [dividesByZero_of_words p operation spelling place left right ha hb]

/-- Without a division, the word is the exact value modulo `2^64`. -/
theorem word_eq_ofInt_exact {e : Arithmetic} (h : ∀ part ∈ e.parts, ¬ part.isDivision) :
    e.word = some (BitVec.ofInt 64 e.exact) := by
  induction e with
  | literal p digits => rw [word, exact, BitVec.ofInt_natCast]
  | negated p operand ih =>
    have hoperand := ih fun part hpart => h part (List.mem_append_left _ hpart)
    rw [word, exact, hoperand, BitVec.ofInt_neg]
    rfl
  | combined p operation spelling place left right ihl ihr =>
    simp only [parts, List.mem_append, List.mem_singleton] at h
    have hleft := ihl fun part hpart => h part (.inl (.inl hpart))
    have hright := ihr fun part hpart => h part (.inl (.inr hpart))
    have hoperation : operation ≠ .divide := by
      simpa [isDivision] using h _ (.inr rfl)
    rw [word, exact, hleft, hright]
    exact Operation.onWords_ofInt hoperation _ _

end Arithmetic

/-! ## Words as signed numbers -/

theorem Word64.wrap_eq_toInt_ofInt (n : Int) : wrap n = (BitVec.ofInt 64 n).toInt :=
  (@BitVec.toInt_ofInt 64 n).symm

/-- A literal is read as the signed number of its word. -/
theorem Word64.ofDecimal_eq_toInt (digits : String) :
    ofDecimal digits = (BitVec.ofNat 64 (decimal digits.toList)).toInt := by
  rw [ofDecimal_eq_wrap_decimal, wrap_eq_toInt_ofInt, BitVec.ofInt_natCast]

namespace Evaluation

theorem negate_toInt (a : BitVec 64) :
    negate (.integer a.toInt) = .ok (.integer (-a).toInt) :=
  congrArg (fun n => Except.ok (Value.integer n)) BitVec.toInt_neg.symm

/-- The quotient of signed numbers is that of words, up to wrapping. -/
theorem quotient_toInt (a b : BitVec 64) :
    (Word64.quotient a.toInt b.toInt).map Word64.wrap =
      (Operation.divide.onWords a b).map BitVec.toInt := by
  rw [Word64.quotient, Operation.onWords]
  by_cases hb : b = 0#64
  · subst hb
    simp
  · have hne : b.toInt ≠ 0 := by
      intro hzero
      exact hb (BitVec.toInt_inj.1 (hzero.trans BitVec.toInt_zero.symm))
    rw [if_neg hne, if_neg hb, Option.map_some, Option.map_some]
    exact congrArg some (BitVec.toInt_sdiv a b).symm

/-- An operation on signed numbers is the operation on words; where that has no result, a division
    by zero is reported. -/
theorem combine_toInt (operation : Operation) {operator : Token}
    (hkind : operator.kind = operation.kind) (a b : BitVec 64) :
    combine operator (.integer a.toInt) (.integer b.toInt) =
      match operation.onWords a b with
      | some w => .ok (.integer w.toInt)
      | none => .error (.fault .divisionByZero) := by
  have hne : operator.kind ≠ .equals := by
    rw [hkind]
    cases operation <;> exact TokenKind.noConfusion
  rw [combine_integers, if_neg hne]
  cases operation with
  | plus =>
    rw [combineIntegers, hkind]
    exact congrArg (fun n => Except.ok (Value.integer n)) (BitVec.toInt_add a b).symm
  | minus =>
    rw [combineIntegers, hkind]
    exact congrArg (fun n => Except.ok (Value.integer n)) BitVec.toInt_sub.symm
  | times =>
    rw [combineIntegers, hkind]
    exact congrArg (fun n => Except.ok (Value.integer n)) (BitVec.toInt_mul a b).symm
  | divide =>
    have hquotient := quotient_toInt a b
    rw [combineIntegers_divide hkind]
    generalize Word64.quotient a.toInt b.toInt = q at hquotient ⊢
    generalize Operation.divide.onWords a b = w at hquotient ⊢
    cases q <;> cases w <;> simp_all

/-! ## Runs -/

section Steps

variable {rounds depth : Nat} {s s₁ s₂ : State}

theorem run_minus_some (p : Position) {operand : Node} {v : Value}
    (h : (evaluateAt rounds depth operand).run s = .ok (some v) s₁) :
    (evaluateAt rounds (depth + 1) (.minus p operand)).run s = (settle p (negate v)).run s₁ := by
  rw [evaluateAt, layer, Attempt.run_bind, h]
  rfl

theorem run_minus_none (p : Position) {operand : Node}
    (h : (evaluateAt rounds depth operand).run s = .ok none s₁) :
    (evaluateAt rounds (depth + 1) (.minus p operand)).run s = .ok none s₁ := by
  rw [evaluateAt, layer, Attempt.run_bind, h]
  rfl

theorem run_binary_some (p : Position) (operator : Token) {left right : Node} {a b : Value}
    (hleft : (evaluateAt rounds depth left).run s = .ok (some a) s₁)
    (hright : (evaluateAt rounds depth right).run s₁ = .ok (some b) s₂) :
    (evaluateAt rounds (depth + 1) (.binary p operator left right)).run s =
      (settle p (combine operator a b)).run s₂ := by
  rw [evaluateAt, layer, Attempt.run_bind, hleft]
  simp only [Attempt.run_bind, hright]
  rfl

/-- Both operands are evaluated, also if the first of them has no value. -/
theorem run_binary_none (p : Position) (operator : Token) {left right : Node}
    {a b : Option Value} (hleft : (evaluateAt rounds depth left).run s = .ok a s₁)
    (hright : (evaluateAt rounds depth right).run s₁ = .ok b s₂) (h : a = none ∨ b = none) :
    (evaluateAt rounds (depth + 1) (.binary p operator left right)).run s = .ok none s₂ := by
  rw [evaluateAt, layer, Attempt.run_bind, hleft]
  simp only [Attempt.run_bind, hright]
  obtain rfl | rfl := h
  · rfl
  · cases a <;> rfl

end Steps

end Evaluation

namespace Arithmetic

/-- At sufficient depth, an expression comes to its word, read as a signed number, and its divisions
    by zero are reported. -/
theorem run_toNode (e : Arithmetic) (rounds : Nat) {depth : Nat} (h : e.toNode.height ≤ depth)
    (s : State) :
    (evaluateAt rounds depth e.toNode).run s =
      .ok (e.word.map fun w => .integer w.toInt)
        { s with diagnostics := s.diagnostics ++ e.faults } := by
  induction e generalizing depth s with
  | literal p digits =>
    obtain ⟨depth, rfl⟩ := Nat.exists_eq_add_one.2 (Nat.lt_of_lt_of_le (Node.height_pos _) h)
    simp [toNode, evaluateAt, layer, word, Word64.ofDecimal_eq_toInt]
  | negated p operand ih =>
    rw [toNode, Node.height] at h
    obtain ⟨depth, rfl⟩ := Nat.exists_eq_add_one.2 (Nat.lt_of_lt_of_le (Nat.succ_pos _) h)
    have hrun := ih (Nat.le_of_succ_le_succ h) s
    rw [toNode, word, faults_negated]
    cases hw : operand.word with
    | none =>
      rw [hw] at hrun
      exact run_minus_none p hrun
    | some w =>
      rw [hw] at hrun
      rw [run_minus_some p hrun, negate_toInt]
      rfl
  | combined p operation spelling place left right ihl ihr =>
    rw [toNode, Node.height] at h
    obtain ⟨depth, rfl⟩ := Nat.exists_eq_add_one.2 (Nat.lt_of_lt_of_le (Nat.succ_pos _) h)
    have hleft := ihl (by omega : left.toNode.height ≤ depth) s
    have hright := ihr (by omega : right.toNode.height ≤ depth)
      { s with diagnostics := s.diagnostics ++ left.faults }
    rw [toNode, word, faults_combined, ← List.append_assoc, ← List.append_assoc]
    cases ha : left.word with
    | none =>
      rw [not_dividesByZero_of_none p operation spelling place left right (.inl ha),
        run_binary_none p _ hleft hright (.inl (by rw [ha]; rfl))]
      simp
    | some a =>
      cases hb : right.word with
      | none =>
        rw [not_dividesByZero_of_none p operation spelling place left right (.inr hb),
          run_binary_none p _ hleft hright (.inr (by rw [hb]; rfl))]
        simp
      | some b =>
        rw [ha] at hleft
        rw [hb] at hright
        rw [dividesByZero_of_words p operation spelling place left right ha hb,
          run_binary_some p _ hleft hright, combine_toInt operation rfl]
        cases hw : operation.onWords a b with
        | none => simp [hw, settle, concede, report]
        | some w => simp [hw, settle]

/-- With less depth, the run stops. -/
theorem run_toNode_tooDeep (e : Arithmetic) (rounds : Nat) {depth : Nat}
    (h : depth < e.toNode.height) (s : State) :
    ∃ t, (evaluateAt rounds depth e.toNode).run s = .error .tooDeep t := by
  induction e generalizing depth s with
  | literal p digits =>
    obtain rfl : depth = 0 := by simpa [toNode, Node.height] using h
    exact ⟨s, rfl⟩
  | negated p operand ih =>
    cases depth with
    | zero => exact ⟨s, rfl⟩
    | succ depth =>
      rw [toNode, Node.height] at h
      obtain ⟨t, ht⟩ := ih (Nat.lt_of_succ_lt_succ h) s
      exact ⟨t, by rw [toNode, evaluateAt, layer, Attempt.run_bind, ht]⟩
  | combined p operation spelling place left right ihl ihr =>
    cases depth with
    | zero => exact ⟨s, rfl⟩
    | succ depth =>
      rw [toNode, Node.height] at h
      by_cases hleft : depth < left.toNode.height
      · obtain ⟨t, ht⟩ := ihl hleft s
        exact ⟨t, by rw [toNode, evaluateAt, layer, Attempt.run_bind, ht]⟩
      · -- the left operand comes to its end, so that it is the right one that nests too deeply
        have hrun := left.run_toNode rounds (Nat.le_of_not_lt hleft) s
        obtain ⟨t, ht⟩ := ihr (by omega : depth < right.toNode.height)
          { s with diagnostics := s.diagnostics ++ left.faults }
        refine ⟨t, ?_⟩
        rw [toNode, evaluateAt, layer, Attempt.run_bind, hrun]
        simp only [Attempt.run_bind, ht]

end Arithmetic

/-- Arithmetic is that of machine words. Evaluating an expression of literals, operations and signs,
    in whatever state, needs as much depth as its tree is high, and with that depth it returns the
    number whose word the expression denotes. It has no value exactly if some division in it has a
    left operand with a word and a divisor that denotes zero; each such division is reported, and
    nothing else. Without divisions, the value is the exact integer value, wrapped. -/
theorem arithmetic_is_that_of_words (e : Arithmetic) (rounds depth : Nat) (s : State) :
    (depth < e.toNode.height → ∃ t, (evaluateAt rounds depth e.toNode).run s = .error .tooDeep t) ∧
    (e.toNode.height ≤ depth →
      (evaluateAt rounds depth e.toNode).run s =
        .ok (e.word.map fun w => .integer w.toInt)
          { s with diagnostics := s.diagnostics ++ e.faults }) ∧
    (e.word = none ↔ ∃ part ∈ e.parts, part.dividesByZero) ∧
    e.faults.length = e.parts.countP Arithmetic.dividesByZero ∧
    ((∀ part ∈ e.parts, ¬ part.isDivision) →
      e.word.map BitVec.toInt = some (Word64.wrap e.exact)) := by
  refine ⟨fun h => e.run_toNode_tooDeep rounds h s, fun h => e.run_toNode rounds h s,
    e.word_eq_none_iff, ?_, fun h => ?_⟩
  · rw [Arithmetic.faults, List.length_map, List.countP_eq_length_filter]
  · rw [Arithmetic.word_eq_ofInt_exact h, Option.map_some, Word64.wrap_eq_toInt_ofInt]

/-- The least number divided by minus one, and a product of literals beyond 64 bits divided by a
    divisor that is zero only as a word. -/
theorem arithmetic_is_that_of_words_least :
    (let least : Arithmetic :=
      .combined ⟨1, 23⟩ .divide "/" ⟨1, 23⟩
        (.negated ⟨1, 1⟩ (.literal ⟨1, 2⟩ "9223372036854775808"))
        (.negated ⟨1, 25⟩ (.literal ⟨1, 26⟩ "1"))
    (evaluateAt 1 3 least.toNode).run {} = .ok (some (.integer (-9223372036854775808))) {} ∧
    (∃ t, (evaluateAt 1 2 least.toNode).run {} = .error .tooDeep t)) ∧
    (let product : Arithmetic :=
      .combined ⟨1, 22⟩ .times "*" ⟨1, 22⟩ (.literal ⟨1, 1⟩ "18446744073709551619")
        (.negated ⟨1, 24⟩ (.literal ⟨1, 25⟩ "5"))
    let quotient : Arithmetic :=
      .combined ⟨1, 27⟩ .divide "/" ⟨1, 27⟩ product (.literal ⟨1, 29⟩ "18446744073709551616")
    product.word.map BitVec.toInt = some (-15) ∧
    (evaluateAt 1 4 quotient.toNode).run {} =
      .ok none { diagnostics := [⟨.meaning .divisionByZero, ⟨1, 27⟩⟩] } ∧
    quotient.word = none ∧ quotient.faults.length = 1) := by
  refine ⟨⟨?_, ?_⟩, ?_, ?_, ?_, ?_⟩
  · exact (arithmetic_is_that_of_words _ 1 3 {}).2.1 (by decide)
  · exact (arithmetic_is_that_of_words _ 1 2 {}).1 (by decide)
  · exact ((arithmetic_is_that_of_words _ 1 4 {}).2.2.2.2 (by decide)).trans (by decide +kernel)
  · exact (arithmetic_is_that_of_words _ 1 4 {}).2.1 (by decide)
  · exact (arithmetic_is_that_of_words _ 1 4 {}).2.2.1.2 (by decide +kernel)
  · exact (arithmetic_is_that_of_words _ 1 4 {}).2.2.2.1.trans (by decide +kernel)

end Castellano
