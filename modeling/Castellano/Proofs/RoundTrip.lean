import Castellano.Proofs.Depth
import Castellano.Proofs.ReadBack

/-!
# Writing a program and parsing it again

The source text of a program is parsed to the same program, up to positions, exactly if no `no` in
the program negates a call. Otherwise parsing ends with one diagnostic: the arguments of the call
are taken for arguments of the negation.

* `scan_program`: the tokens of the text of a program.
* `reparse_cases`: parsing the text of a program, one case for each side of the condition.
* `surface_roundTrip_iff`: the exact domain of the round trip, for all programs that the grammar can
  build.
* `parsed_roundTrip_iff`: the same for the program of any source, also of one with a diagnostic.
-/

namespace Castellano

/-- The text of a program is read as the tokens of its forms. -/
theorem scan_program {p : Program} (hp : p.Shaped) (limit : Nat) {text : String}
    (htext : p.toNode.surface? limit = some text) :
    scan text.toList = Node.formTokens p.forms := by
  cases limit with
  | zero => cases htext
  | succ limit =>
    exact scan_surfaceForms (fun f hf _ hf' => scan_surface limit (hp f hf) hf') htext

/-- Parsing the tokens of forms from a source, with positions. -/
theorem forms_ofSource_cases {fs : List Node} (hshaped : ∀ f ∈ fs, Shaped .form f)
    {text : String} (hscan : scan text.toList = Node.formTokens fs) (limit : Nat)
    (hlimit : (Node.formTokens fs).length < limit) :
    (NoNegatedCall (Node.inOrderAll fs) ∧
      (Grammar.forms (Grammar.nested limit) (.ofSource text)).2.1 = none ∧
      (Grammar.forms (Grammar.nested limit) (.ofSource text)).1.map Node.unplaced =
        fs.map Node.unplaced) ∨
    (¬ NoNegatedCall (Node.inOrderAll fs) ∧
      ∃ d, (Grammar.forms (Grammar.nested limit) (.ofSource text)).2.1 = some d ∧
        d.fault = .grammar .calleeNotName) := by
  have hrelabel := Grammar.forms_relabel .unplace limit (.ofSource text)
  have hstream : (TokenStream.ofSource text).relabel .unplace =
      ⟨Node.formTokens fs, Token.atEnd {}⟩ := by
    rw [← hscan]
    exact TokenStream.unplaced_ofSource text
  rw [hstream] at hrelabel
  obtain ⟨hgood, hforms⟩ | ⟨hbad, hforms⟩ :=
    Grammar.forms_readBack hshaped hlimit (Token.atEnd {}) rfl
  · rw [hforms] at hrelabel
    simp only [Prod.mk.injEq] at hrelabel
    exact .inl ⟨hgood, Option.map_eq_none_iff.1 hrelabel.2.1.symm, hrelabel.1.symm⟩
  · rw [hrelabel] at hforms
    obtain ⟨d, hd, hrelabelled⟩ := Option.map_eq_some_iff.1 hforms
    exact .inr ⟨hbad, d, hd, congrArg Diagnostic.fault hrelabelled⟩

/-- What becomes of the text of a program if the depth limit is not reached. -/
theorem reparse_cases {p : Program} (hp : p.Shaped) {limit : Nat} {text : String}
    (htext : p.toNode.surface? limit = some text) {limits : Limits}
    (hdepth : ¬ DepthReached (parseSource limits text).2) :
    (NoNegatedCall p.inOrder ∧ (parseSource limits text).2 = [] ∧
      (parseSource limits text).1.unplaced = p.unplaced) ∨
    (¬ NoNegatedCall p.inOrder ∧
      ∃ d, (parseSource limits text).2 = [d] ∧ d.fault = .grammar .calleeNotName) := by
  -- a limit above both the given one and the number of tokens gives the same program
  let larger : Limits := ⟨limits.depth + (Node.formTokens p.forms).length + 1, limits.rounds⟩
  rw [parseSource_eq_of_le larger (by simp only [larger]; omega) hdepth]
  obtain ⟨hgood, hnone, hforms⟩ | ⟨hbad, d, hd, hfault⟩ :=
    forms_ofSource_cases hp (scan_program hp limit htext) larger.depth
      (by simp only [larger]; omega)
  · refine .inl ⟨hgood, ?_, ?_⟩
    · simp [parseSource_eq, Grammar.program, hnone]
    · simp [parseSource_eq, Grammar.program, Program.unplaced, hforms]
  · refine .inr ⟨hbad, d, ?_, hfault⟩
    simp [parseSource_eq, Grammar.program, hd]

/-- Limits above the number of tokens are enough to write a program and to parse its text. -/
theorem exists_enough {p : Program} (hp : p.Shaped) {limit : Nat}
    (hlimit : (Node.formTokens p.forms).length < limit) :
    ∃ text, p.toNode.surface? limit = some text ∧
      ∀ limits : Limits, (Node.formTokens p.forms).length < limits.depth →
        ¬ DepthReached (parseSource limits text).2 := by
  obtain ⟨k, rfl⟩ : ∃ k, limit = k + 1 := ⟨limit - 1, by omega⟩
  obtain ⟨text, htext⟩ := exists_surfaceForms (Node.surface? k) fun f hf =>
    exists_surface k (hp f hf) (by have := length_surfaceTokens_le_forms hf; omega)
  refine ⟨text, htext, fun limits hlimits hreached => ?_⟩
  obtain ⟨d, hd, hfault⟩ := hreached
  obtain ⟨-, hnone, -⟩ | ⟨-, d', hd', hfault'⟩ :=
    forms_ofSource_cases hp (scan_program hp (k + 1) htext) limits.depth hlimits
  · simp [parseSource_eq, Grammar.program, hnone] at hd
  · simp only [parseSource_eq, Grammar.program, hd', Option.toList_some, List.mem_singleton] at hd
    rw [hd, hfault'] at hfault
    cases hfault

/-- The exact domain of the round trip. For every program that the grammar can build, and for all
    limits that are enough to write it and to parse its text, the text is parsed without a
    diagnostic and to the program, up to positions, if and only if no `no` negates a call; otherwise
    there is exactly one diagnostic. All large limits are enough. -/
theorem surface_roundTrip_iff (p : Program) (hp : p.Shaped) :
    (∀ (limit : Nat) (limits : Limits) (text : String),
      p.toNode.surface? limit = some text → ¬ DepthReached (parseSource limits text).2 →
      (((parseSource limits text).2 = [] ∧ (parseSource limits text).1.unplaced = p.unplaced) ↔
        NoNegatedCall p.inOrder) ∧
      (¬ NoNegatedCall p.inOrder → (parseSource limits text).2.length = 1)) ∧
    ∃ enough, ∀ limit, enough ≤ limit → ∃ text, p.toNode.surface? limit = some text ∧
      ∀ limits : Limits, enough ≤ limits.depth → ¬ DepthReached (parseSource limits text).2 := by
  refine ⟨fun limit limits text htext hdepth => ?_, ?_⟩
  · obtain ⟨hgood, hdiagnostics, hprogram⟩ | ⟨hbad, d, hd, -⟩ := reparse_cases hp htext hdepth
    · exact ⟨iff_of_true ⟨hdiagnostics, hprogram⟩ hgood, fun hbad => absurd hgood hbad⟩
    · refine ⟨iff_of_false ?_ hbad, fun _ => by rw [hd]; rfl⟩
      rintro ⟨hnone, -⟩
      rw [hd] at hnone
      cases hnone
  · exact ⟨(Node.formTokens p.forms).length + 1, fun limit hlimit =>
      exists_enough hp hlimit⟩

/-- At a program with a negated call, the text is written and one diagnostic follows. -/
theorem surface_roundTrip_negatedCall :
    let p : Program := ⟨[.not {} (.call {} "f" [.integer {} (-1)])], {}⟩
    p.Shaped ∧ p.toNode.surface? 5 = some "(no f(18446744073709551615.))." ∧
      ¬ DepthReached (parseSource ⟨5, 0⟩ "(no f(18446744073709551615.)).").2 ∧
      (parseSource ⟨5, 0⟩ "(no f(18446744073709551615.)).").2.length = 1 := by
  intro p
  have hp : p.Shaped := by
    have hnode : Shaped .form (.not {} (.call {} "f" [.integer {} (-1)])) :=
      .not (.call (by decide) (by simpa using .integer (by decide)))
    simpa [Program.Shaped, p] using hnode
  have htext : p.toNode.surface? 5 = some "(no f(18446744073709551615.))." := by decide +kernel
  have hdepth : ¬ DepthReached (parseSource ⟨5, 0⟩ "(no f(18446744073709551615.)).").2 := by
    decide +kernel
  have hbad : ¬ NoNegatedCall p.inOrder := by decide
  exact ⟨hp, htext, hdepth, ((surface_roundTrip_iff p hp).1 5 ⟨5, 0⟩ _ htext hdepth).2 hbad⟩

/-- The text of a parsed program is parsed without a diagnostic and to the same program, up to
    positions, if and only if no `no` in the program negates a call. -/
theorem parsed_roundTrip_iff (limits limits' : Limits) (limit : Nat) (source text : String)
    (htext : (parseSource limits source).1.toNode.surface? limit = some text)
    (hdepth : ¬ DepthReached (parseSource limits' text).2) :
    ((parseSource limits' text).2 = [] ∧
      (parseSource limits' text).1.unplaced = (parseSource limits source).1.unplaced) ↔
    NoNegatedCall (parseSource limits source).1.inOrder := by
  obtain ⟨hgood, hdiagnostics, hprogram⟩ | ⟨hbad, d, hd, -⟩ :=
    reparse_cases (parseSource_shaped limits source) htext hdepth
  · exact iff_of_true ⟨hdiagnostics, hprogram⟩ hgood
  · refine iff_of_false ?_ hbad
    rintro ⟨hnone, -⟩
    rw [hd] at hnone
    cases hnone

/-- One source whose text is parsed to the same program, and one whose text is not. -/
theorem parsed_roundTrip_examples :
    ((parseSource ⟨9, 0⟩ "si no x = -1 z := f(2) sino \x7b\x7d").1.toNode.surface? 9 =
        some "si ((no x) = (-1)) \x7bz := f(2.).\x7d sino \x7b\x7d" ∧
      (parseSource ⟨9, 0⟩ "si ((no x) = (-1)) \x7bz := f(2.).\x7d sino \x7b\x7d").1.unplaced =
        (parseSource ⟨9, 0⟩ "si no x = -1 z := f(2) sino \x7b\x7d").1.unplaced) ∧
    ((parseSource ⟨9, 0⟩ "no (f(1))").1.toNode.surface? 9 = some "(no f(1.))." ∧
      ¬ ((parseSource ⟨9, 0⟩ "(no f(1.)).").2 = [] ∧
        (parseSource ⟨9, 0⟩ "(no f(1.)).").1.unplaced =
          (parseSource ⟨9, 0⟩ "no (f(1))").1.unplaced)) := by
  refine ⟨⟨by decide +kernel, ?_⟩, by decide +kernel, ?_⟩
  · exact ((parsed_roundTrip_iff ⟨9, 0⟩ ⟨9, 0⟩ 9 _ _ (by decide +kernel) (by decide +kernel)).2
      (by decide +kernel)).2
  · rw [parsed_roundTrip_iff ⟨9, 0⟩ ⟨9, 0⟩ 9 _ _ (by decide +kernel) (by decide +kernel)]
    decide +kernel

end Castellano
