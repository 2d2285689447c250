import Castellano.Proofs.Arithmetic
import Castellano.Proofs.AssignedValue
import Castellano.Proofs.Decimal
import Castellano.Proofs.OperatorChains

/-!
# Integers run back to themselves

The text of an integer is a source. It has a token for the digits, behind a minus sign if the
integer is negative, and its only form is a literal, negated after a minus sign. The run comes to
the integer, wrapped. The digits of the least integer alone are out of range; they wrap to that
integer, and its negation wraps to it again.

* `signedLiteral`: the expression that the text of an integer is.
* `scan_toString`, `Grammar.forms_signed`: its tokens and its tree.
* `runSource_toString`: the text of any integer comes to that integer, wrapped.
* `rendered_integer_runs_back`: within 64 bits, to the integer itself.
-/

namespace Castellano

open Evaluation

/-! ## The text of an integer -/

/-- The digits of an integer, without its sign. -/
def unsignedDigits (value : Int) : String := String.ofList (Nat.toDigits 10 value.natAbs)

/-- The expression that the text of an integer is. -/
def signedLiteral (value : Int) : Arithmetic :=
  if value < 0 then .negated {} (.literal {} (unsignedDigits value))
  else .literal {} (unsignedDigits value)

/-- The tokens of an integer. -/
def signedTokens (value : Int) : List Token :=
  (if value < 0 then [.sign '-'] else []) ++ [⟨.integer, unsignedDigits value, {}⟩]

theorem scan_toString (value : Int) : scan (toString value).toList = signedTokens value := by
  rw [Word64.toList_toString, signedTokens]
  by_cases h : value < 0
  · rw [if_pos h, if_pos h, List.singleton_append, scan_mark (by decide), scan_toDigits]
    rfl
  · rw [if_neg h, if_neg h, List.nil_append, scan_toDigits]
    rfl

/-- Among all integers the expression has the value that it is the text of. -/
theorem exact_signedLiteral (value : Int) : (signedLiteral value).exact = value := by
  have hdigits : (Word64.decimal (unsignedDigits value).toList : Int) = value.natAbs := by
    rw [unsignedDigits, String.toList_ofList, Word64.decimal_eq_ofDigitChars,
      Nat.ofDigitChars_ten_toDigits]
  unfold signedLiteral
  split
  · rw [Arithmetic.exact, Arithmetic.exact, hdigits]
    omega
  · rw [Arithmetic.exact, hdigits]
    omega

/-- As a word it denotes that value, wrapped. -/
theorem word_signedLiteral (value : Int) :
    (signedLiteral value).word.map BitVec.toInt = some (Word64.wrap value) := by
  have hparts : ∀ part ∈ (signedLiteral value).parts, ¬ part.isDivision := by
    unfold signedLiteral
    split <;> simp [Arithmetic.parts, Arithmetic.isDivision]
  rw [Arithmetic.word_eq_ofInt_exact hparts, exact_signedLiteral, Option.map_some,
    Word64.wrap_eq_toInt_ofInt]

theorem faults_signedLiteral (value : Int) : (signedLiteral value).faults = [] := by
  unfold signedLiteral
  split <;> simp

theorem height_signedLiteral (value : Int) : (signedLiteral value).toNode.height ≤ 2 := by
  unfold signedLiteral
  split <;> simp [Arithmetic.toNode, Node.height]

/-! ## Parsing -/

namespace Grammar

/-- An operand that reaches the end of the text is a whole expression. -/
theorem expression_of_primary {sub : Nested TokenStream} {s : TokenStream} {node : Node}
    (h : (primary sub).run s = .ok node ⟨[], .atEnd {}⟩) :
    (expression sub .lowest).run s = .ok node ⟨[], .atEnd {}⟩ :=
  expression_eq_ok.2 ⟨node, _, _, primary_eq_ok.1 h, operators_stop (not_lt_lowest _), rfl⟩

theorem expression_digits (limit : Nat) (digits : String) :
    ((nested (limit + 1)).expression .lowest).run ⟨[⟨.integer, digits, {}⟩], .atEnd {}⟩ =
      .ok (.integer {} (Word64.ofDecimal digits)) ⟨[], .atEnd {}⟩ :=
  expression_of_primary (primary_eq_ok.2 (.integer rfl))

/-- The tokens of an integer are read as its literal; a minus sign costs one level of depth. -/
theorem expression_signed (value : Int) {limit : Nat} (hlimit : 2 ≤ limit) :
    ((nested limit).expression .lowest).run ⟨signedTokens value, .atEnd {}⟩ =
      .ok (signedLiteral value).toNode ⟨[], .atEnd {}⟩ := by
  obtain ⟨limit, rfl⟩ : ∃ n, limit = n + 2 := ⟨limit - 2, by omega⟩
  unfold signedTokens signedLiteral
  split
  · apply expression_of_primary
    rw [List.singleton_append, primary_run_minus (by simp) (by simp), TokenStream.advance_mk_cons,
      Attempt.run_bind, expression_digits]
    rfl
  · exact expression_digits (limit + 1) _

/-- The text of an integer has one form. -/
theorem forms_signed (value : Int) {limit : Nat} (hlimit : 2 ≤ limit) :
    forms (nested limit) ⟨signedTokens value, .atEnd {}⟩ =
      ([(signedLiteral value).toNode], none, ⟨[], .atEnd {}⟩) := by
  have hstart : ∀ kind : TokenKind, kind ≠ .minus → kind ≠ .integer →
      (TokenStream.mk (signedTokens value) (.atEnd {})).current.kind ≠ kind := by
    intro kind hminus hinteger
    unfold signedTokens
    split
    · exact hminus.symm
    · exact hinteger.symm
  have hform : (form (nested limit)).run ⟨signedTokens value, .atEnd {}⟩ =
      .ok (signedLiteral value).toNode ⟨[], .atEnd {}⟩ := by
    rw [form_run_expression, expression_signed value hlimit]
    · exact hstart .point (by decide) (by decide)
    · intro hidentifier
      exact absurd hidentifier (hstart .identifier (by decide) (by decide))
    · exact hstart .si (by decide) (by decide)
    · exact hstart .mientras (by decide) (by decide)
  have hend : forms (nested limit) ⟨[], .atEnd {}⟩ = ([], none, ⟨[], .atEnd {}⟩) := by
    rw [forms]
    rfl
  rw [forms_cons (hstart .point (by decide) (by decide))
    (hstart .endOfInput (by decide) (by decide)) hform, hend]
  simp [TokenStream.remaining_mk, signedTokens]

end Grammar

/-- What the tokens of a text are parsed to, the text is parsed to up to positions. -/
theorem parseSource_of_forms {limits : Limits} {source : String} {tokens : List Token}
    {nodes : List Node} {s : TokenStream} (hscan : scan source.toList = tokens)
    (hforms : Grammar.forms (Grammar.nested limits.depth) ⟨tokens, .atEnd {}⟩ = (nodes, none, s)) :
    (parseSource limits source).2 = [] ∧
      (parseSource limits source).1.forms.map Node.unplaced = nodes := by
  have hrelabel := Grammar.forms_relabel .unplace limits.depth (.ofSource source)
  rw [← TokenStream.unplaced, TokenStream.unplaced_ofSource, hscan, hforms] at hrelabel
  simp only [Prod.mk.injEq] at hrelabel
  obtain ⟨hnodes, hdiagnostic, -⟩ := hrelabel
  rw [parseSource_eq]
  refine ⟨?_, hnodes.symm⟩
  simp [Grammar.program, Option.map_eq_none_iff.1 hdiagnostic.symm]

/-! ## Running -/

/-- A program of a single form that is the literal of an integer. -/
theorem run_signedLiteral (value : Int) {limits : Limits} (hdepth : 2 ≤ limits.depth)
    {program : Program} (hforms : program.forms = [(signedLiteral value).toNode]) :
    (evaluateProgram limits program).run {} = .ok (some (.integer (Word64.wrap value))) {} := by
  have hrun : (runSequence (evaluate limits) none program.forms).run {} =
      .ok (some (.integer (Word64.wrap value))) {} := by
    obtain ⟨w, hw, hwrap⟩ := Option.map_eq_some_iff.1 (word_signedLiteral value)
    have hheight := height_signedLiteral value
    rw [hforms, run_runSequence_singleton, evaluate,
      Arithmetic.run_toNode _ _ (by omega), faults_signedLiteral, hw, Option.map_some, hwrap]
    rfl
  rw [run_evaluateProgram (by simp [hrun]), hrun]

/-- An integer has no positions, so that a run which comes to it alone is known from its relabelled
    run. -/
theorem Run.eq_of_relabel {ρ : Relabelling} {run : Run} {n : Int}
    (h : run.relabel ρ = { value := some (.integer n) }) :
    run = { value := some (.integer n) } := by
  obtain ⟨value, halt, parseDiagnostics, runDiagnostics, ⟨bindings⟩⟩ := run
  simp only [Run.relabel, Environment.relabel, Run.mk.injEq, Environment.mk.injEq,
    List.map_eq_nil_iff, Option.map_eq_some_iff] at h
  obtain ⟨⟨value, rfl, hvalue⟩, rfl, rfl, rfl, rfl⟩ := h
  cases value with
  | integer m =>
    obtain rfl := Value.integer.inj hvalue
    rfl
  | boolean b => cases hvalue
  | function p parameters body => cases hvalue

/-- The text of any integer comes to that integer, wrapped, and to nothing else. -/
theorem runSource_toString (value : Int) {limits : Limits} (hdepth : 2 ≤ limits.depth) :
    runSource limits (toString value) = { value := some (.integer (Word64.wrap value)) } := by
  obtain ⟨hparse, hforms⟩ := parseSource_of_forms (scan_toString value)
    (Grammar.forms_signed value hdepth)
  have hrelabel := relabel_runSource limits (toString value) unplace_injective
  have hrun := run_signedLiteral value hdepth
    (show ((parseSource limits (toString value)).1.relabel .unplace).forms = _ from hforms)
  rw [hparse, Run.ofEvaluation, hrun] at hrelabel
  exact Run.eq_of_relabel hrelabel

/-- The text of every 64-bit integer is a source that comes to this integer, without a diagnostic
    and without a binding. -/
theorem rendered_integer_runs_back {limits : Limits} (hdepth : 2 ≤ limits.depth) {value : Int}
    (h : Word64.InRange value) :
    runSource limits (render (some (.integer value))) = { value := some (.integer value) } := by
  have hrun := runSource_toString value hdepth
  rw [Word64.wrap_of_inRange h] at hrun
  exact hrun

/-- The least integer, whose digits alone are out of range, under the usual limits. -/
theorem rendered_integer_runs_back_least :
    Word64.InRange (-9223372036854775808) ∧ ¬ Word64.InRange 9223372036854775808 ∧
    runSource {} (render (some (.integer (-9223372036854775808)))) =
      { value := some (.integer (-9223372036854775808)) } := by
  refine ⟨by decide, by decide, ?_⟩
  exact rendered_integer_runs_back (by decide) (by decide)

end Castellano
