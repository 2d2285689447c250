import Castellano.Dialogue
import Castellano.Proofs.Depth
import Castellano.Proofs.Layout
import Castellano.Proofs.Lookahead
import Castellano.Proofs.Positions

/-!
# A text with more lines behind it

In a dialogue every line joins a buffer that is parsed and run again as a whole. What stands in the
buffer is read as before, but for its last form, which the new lines may continue. Once a form fails
at a token with two more behind it, new lines change nothing: the forms before the failure stay, the
form fails again, and the dialogue prints the same value after every line.

* `TokenStream.exists_ofSource_append`: the tokens of a text with another line behind it.
* `Grammar.forms_prefix_append`, `Grammar.forms_failsAgain`: the forms of a stream that goes on.
* `buffer_stable`: what new lines leave unchanged.
-/

namespace Castellano

/-! ## Tokens of a text that goes on -/

namespace Cursor

variable {c : Cursor} {ch : Char}

/-- The cursor with more text behind what is left to be read. -/
def followedBy (c : Cursor) (cs : List Char) : Cursor := { c with rest := c.rest ++ cs }

theorem pass_followedBy {p : Char → Bool} (hp : ¬ p ch) (c : Cursor) (cs : List Char) :
    (c.followedBy (ch :: cs)).pass p = ((c.pass p).1, (c.pass p).2.followedBy (ch :: cs)) := by
  simp [pass, followedBy, takeWhile_append_cons hp, dropWhile_append_cons hp]

theorem advance_followedBy (hne : c.rest ≠ []) (cs : List Char) :
    (c.followedBy cs).advance = c.advance.followedBy cs := by
  obtain ⟨first, rest, hc⟩ := List.exists_cons_of_ne_nil hne
  simp [advance, followedBy, hc]

theorem skipSpacing_followedBy (hne : c.skipSpacing.rest ≠ []) (cs : List Char) :
    (c.followedBy cs).skipSpacing = c.skipSpacing.followedBy cs := by
  have hdrop : (c.rest.dropWhile Token.isSpacing).isEmpty = false := by
    simpa [skipSpacing, pass] using hne
  have htake : (c.rest.takeWhile Token.isSpacing).length ≠ c.rest.length := by
    intro hlength
    have hsplit := congrArg List.length (List.takeWhile_append_dropWhile (p := Token.isSpacing)
      (l := c.rest))
    rw [List.length_append, hlength] at hsplit
    have hnil : c.rest.dropWhile Token.isSpacing = [] := List.eq_nil_of_length_eq_zero (by omega)
    simp [hnil] at hdrop
  simp [skipSpacing, pass, followedBy, List.takeWhile_append, List.dropWhile_append, hdrop, htake]

/-- Behind a token, a character that cannot continue it ends it as the end of the text does. -/
theorem readToken_followedBy (hne : c.rest ≠ []) (hw : ¬ Token.isWordChar ch) (he : ch ≠ '=')
    (cs : List Char) :
    (c.followedBy (ch :: cs)).readToken =
      (c.readToken.1, c.readToken.2.followedBy (ch :: cs)) := by
  obtain ⟨first, rest, hc⟩ := List.exists_cons_of_ne_nil hne
  have hc' : (c.followedBy (ch :: cs)).rest = first :: (rest ++ ch :: cs) := by
    simp [followedBy, hc]
  have hd : ¬ Token.isDigit ch := by
    intro h
    simp [Token.isWordChar, h] at hw
  have hpeek : (c.followedBy (ch :: cs)).peek? = some '=' ↔ c.peek? = some '=' := by
    rw [peek?, peek?, hc', hc]
    cases rest <;> simp [he]
  have hnext := advance_followedBy hne (ch :: cs)
  simp only [readToken, hc', hc, readNumber, readWord, pass_followedBy hd, hpeek, hnext,
    pass_followedBy hw]
  split
  · rfl
  · split
    · rfl
    · split
      · rename_i hassign
        rw [advance_followedBy]
        · rfl
        · simp only [Bool.and_eq_true, decide_eq_true_eq, peek?, hc] at hassign
          intro hnil
          simp_all [advance]
      · rfl

/-- A text is read alike with such a character and more behind it, up to the next token. -/
theorem nextToken_followedBy (hend : c.nextToken.1.kind ≠ .endOfInput) (hw : ¬ Token.isWordChar ch)
    (he : ch ≠ '=') (cs : List Char) :
    (c.followedBy (ch :: cs)).nextToken =
      (c.nextToken.1, c.nextToken.2.followedBy (ch :: cs)) := by
  have hne : c.skipSpacing.rest ≠ [] := fun h => hend (kind_readToken_eq_endOfInput.2 h)
  rw [nextToken, skipSpacing_followedBy hne, readToken_followedBy hne hw he]
  rfl

theorem tokens_prefix_followedBy (hw : ¬ Token.isWordChar ch) (he : ch ≠ '=') (c : Cursor)
    (cs : List Char) : c.tokens.1.dropLast <+: (c.followedBy (ch :: cs)).tokens.1 := by
  induction c using tokens.induct with
  | case1 c next =>
    rename_i hend
    rw [tokens_end hend]
    exact List.nil_prefix
  | case2 c next hend =>
    rename_i ih
    have hnext := nextToken_followedBy hend hw he cs
    have hend' : (c.followedBy (ch :: cs)).nextToken.1.kind ≠ .endOfInput := by rwa [hnext]
    rw [tokens_next hend, tokens_next hend', hnext, List.dropLast_cons_of_ne_nil (tokens_ne_nil _),
      List.cons_prefix_cons]
    exact ⟨rfl, ih⟩

end Cursor

/-- The stream of a text with another line behind it goes on where that of the text ended. -/
theorem TokenStream.exists_ofSource_append (s t : String) :
    ∃ x : TokenStream, x.Ended ∧ ofSource (s ++ "\n" ++ t) = ofSource s ++ x := by
  obtain ⟨init, p, heq, hinit⟩ := (Cursor.ofSource s).exists_tokens_eq
  obtain ⟨init', p', heq', hinit'⟩ := (Cursor.ofSource (s ++ "\n" ++ t)).exists_tokens_eq
  have hcursor : Cursor.ofSource (s ++ "\n" ++ t) =
      (Cursor.ofSource s).followedBy ('\n' :: t.toList) := by
    simp [Cursor.ofSource, Cursor.followedBy]
  have hword : ¬ Token.isWordChar '\n' := Token.not_isWordChar_of_isSpacing rfl
  have hprefix := Cursor.tokens_prefix_followedBy hword (by decide) (Cursor.ofSource s) t.toList
  rw [← hcursor, heq, heq', List.dropLast_concat] at hprefix
  obtain ⟨more, hmore⟩ : init <+: init' := by
    -- the end token of the longer text is none of the tokens of the shorter
    obtain hconcat | hprefix := List.prefix_concat_iff.1 hprefix
    · exact absurd rfl (hinit (Token.atEnd p') (by simp [hconcat]))
    · exact hprefix
  refine ⟨⟨more, Token.atEnd p'⟩, ⟨fun u hu => hinit' u ?_, rfl⟩, ?_⟩
  · rw [← hmore]
    exact List.mem_append_right _ hu
  · rw [ofSource_eq heq, ofSource_eq heq', ← hmore]
    rfl

/-! ## Windows of tokens -/

/-- At the position stands a token of the source with two more behind it, besides the end token. -/
def WindowAt (source : String) (p : Position) : Prop :=
  ∃ ts ∈ (tokenize source).tails, ts.head?.map Token.position = some p ∧
    2 ≤ (ts.tail.filter fun t => t.kind ≠ .endOfInput).length

instance (source : String) (p : Position) : Decidable (WindowAt source p) :=
  inferInstanceAs (Decidable (∃ ts ∈ (tokenize source).tails,
    ts.head?.map Token.position = some p ∧
      2 ≤ (ts.tail.filter fun t => t.kind ≠ .endOfInput).length))

theorem WindowAt.remaining_le {source : String} {p : Position} (h : WindowAt source p)
    {s : TokenStream} (hlead : (TokenStream.ofSource source).LeadsTo s)
    (hp : s.current.position = p) : 3 ≤ s.remaining := by
  obtain ⟨ts, hts, hhead, htwo⟩ := h
  obtain ⟨init, q, heq, -⟩ := (Cursor.ofSource source).exists_tokens_eq
  rw [TokenStream.ofSource_eq heq] at hlead
  obtain ⟨upcoming, last⟩ := s
  obtain ⟨⟨read, hread⟩, rfl⟩ := hlead
  have hsuffix : upcoming ++ [Token.atEnd q] <:+ tokenize source :=
    ⟨read, by rw [← List.append_assoc, hread]; exact heq.symm⟩
  have hhead' : (upcoming ++ [Token.atEnd q]).head?.map Token.position = some p := by
    rw [← hp]
    cases upcoming <;> rfl
  have heq' := Cursor.suffix_eq_of_position (Cursor.ofSource source).pairwise_tokens.2
    ((List.mem_tails _ _).1 hts) hsuffix hhead hhead'
  subst heq'
  cases upcoming with
  | nil => simp at htwo
  | cons t rest =>
    have hle : (rest.filter fun t => t.kind ≠ .endOfInput).length ≤ rest.length :=
      List.length_filter_le _ _
    simp only [List.cons_append, List.tail_cons, List.filter_append, List.length_append] at htwo
    rw [show ([Token.atEnd q].filter fun t => t.kind ≠ .endOfInput) = [] from rfl] at htwo
    simp only [List.length_nil, TokenStream.remaining_mk, List.length_cons] at htwo ⊢
    omega

/-! ## Forms of a stream that goes on -/

namespace Grammar

variable {sub : Nested TokenStream} {s s' x : TokenStream}

theorem forms_eq_nil_of_error {f : Failure} (hrun : (form sub).run s = .error f s') :
    (forms sub s).1 = [] := by
  rw [← form_run_skipPoints] at hrun
  rw [forms, TokenStream.view_skipPoints]
  cases f <;> simp only [hrun] <;> split <;> rfl

theorem exists_form_of_forms (h : (forms sub s).1 ≠ []) : ∃ n s', (form sub).run s = .ok n s' := by
  cases hrun : (form sub).run s with
  | ok n s' => exact ⟨n, s', rfl⟩
  | error f s' => exact absurd (forms_eq_nil_of_error hrun) h

/-- A form that ends at a settled place is read again. -/
theorem forms_append_of_ok {limit : Nat} {n : Node} (hs : s.Ended) (hx : x.Ended)
    (hrun : (form (nested limit)).run s = .ok n s') (hset : s'.Settled) :
    (forms (nested limit) (s ++ x)) =
      (n :: (forms (nested limit) (s' ++ x)).1, (forms (nested limit) (s' ++ x)).2) := by
  have hreads := nested_reads limit
  obtain ⟨-, hsame⟩ := (form_steady (nested_steady x limit) hreads).ok hs hrun
  exact forms_of_ok hreads ⟨hs.append hx, rfl⟩ (hsame hset)

/-- Whatever follows, all forms but the last are read again. -/
theorem forms_prefix_append (limit : Nat) (hs : s.Ended) (hx : x.Ended) :
    (forms (nested limit) s).1.dropLast <+: (forms (nested limit) (s ++ x)).1 := by
  have hreads := nested_reads limit
  generalize hN : s.remaining = N
  induction N using Nat.strongRecOn generalizing s with
  | _ N ih =>
    subst hN
    cases hrun : (form (nested limit)).run s with
    | error f s' =>
      rw [forms_eq_nil_of_error hrun]
      exact List.nil_prefix
    | ok n s' =>
      obtain ⟨hread, hnode⟩ := form_reads hreads hs hrun
      have hs' := hread.ended hs
      rw [forms_of_ok hreads ⟨hs, rfl⟩ hrun]
      by_cases hlast : (forms (nested limit) s').1 = []
      · rw [hlast]
        exact List.nil_prefix
      · -- another form starts where this one ends
        obtain ⟨m, s'', hnext⟩ := exists_form_of_forms hlast
        rw [forms_append_of_ok hs hx hrun (form_settled hs' hnext),
          List.dropLast_cons_of_ne_nil hlast, List.cons_prefix_cons]
        exact ⟨rfl, ih _ (hread.remaining_lt hnode) hs' rfl⟩

/-- If a form fails at a token with two more behind it, then whatever follows, the forms before it
    are read again, and it fails again. -/
theorem forms_failsAgain (limit : Nat) (hs : s.Ended) (hx : x.Ended) {d : Diagnostic}
    (hd : (forms (nested limit) s).2.1 = some d) (hdepth : d.fault ≠ .grammar .nestedTooDeeply) :
    ∃ s₁, s.LeadsTo s₁ ∧ s₁.current.position = d.position ∧ (3 ≤ s₁.remaining →
      (forms (nested limit) (s ++ x)).1 = (forms (nested limit) s).1 ∧
        (forms (nested limit) (s ++ x)).2.1 ≠ none) := by
  have hreads := nested_reads limit
  generalize hN : s.remaining = N
  induction N using Nat.strongRecOn generalizing s with
  | _ N ih =>
    subst hN
    cases hrun : (form (nested limit)).run s with
    | ok n s' =>
      obtain ⟨hread, hnode⟩ := form_reads hreads hs hrun
      rw [forms_of_ok hreads ⟨hs, rfl⟩ hrun] at hd ⊢
      obtain ⟨s₁, hlead', hposition, hagain⟩ :=
        ih _ (hread.remaining_lt hnode) (hread.ended hs) hd rfl
      obtain ⟨hlead, -⟩ := (form_steady (nested_steady x limit) hreads).ok hs hrun
      refine ⟨s₁, hlead.trans hlead', hposition, fun hthree => ?_⟩
      have hsettled := (TokenStream.Settled.of_remaining hthree).of_leadsTo hlead'
      rw [forms_append_of_ok hs hx hrun hsettled]
      exact ⟨congrArg (n :: ·) (hagain hthree).1, (hagain hthree).2⟩
    | error f s' =>
      have hstart : s.skipPoints.current.kind ≠ .endOfInput := by
        intro hend
        rw [forms, TokenStream.view_skipPoints, TokenStream.view_current, if_pos hend] at hd
        cases hd
      rw [forms, TokenStream.view_skipPoints, TokenStream.view_current, if_neg hstart,
        form_run_skipPoints, hrun] at hd
      cases f with
      | tooDeep =>
        cases hd
        exact absurd rfl hdepth
      | error e =>
        cases hd
        obtain ⟨s₁, hlead, htoken, hfails⟩ :=
          (form_steady (nested_steady x limit) hreads).error hs hrun
        refine ⟨s₁, hlead, congrArg Token.position htoken, fun hthree => ?_⟩
        obtain ⟨f, s₂, hfault⟩ := hfails hthree
        rw [forms_eq_nil_of_error hrun, forms_eq_nil_of_error hfault]
        refine ⟨rfl, forms_of_error ⟨hs.append hx, rfl⟩ ?_ hfault⟩
        have hne := (s.reads_skipPoints.endsAt ⟨hs, rfl⟩).upcoming_ne_nil hstart
        rw [TokenStream.skipPoints_append hne]
        exact List.append_ne_nil_of_left_ne_nil hne _

end Grammar

/-! ## Buffers -/

theorem parseSource_prefix_line (limits : Limits) (s t : String) :
    (parseSource limits s).1.forms.dropLast <+: (parseSource limits (s ++ "\n" ++ t)).1.forms := by
  obtain ⟨x, hx, hstream⟩ := TokenStream.exists_ofSource_append s t
  have hprefix := Grammar.forms_prefix_append limits.depth (TokenStream.ended_ofSource s) hx
  rw [← hstream] at hprefix
  rw [parseSource_eq, parseSource_eq]
  exact hprefix

/-- A failure with two more tokens behind it is there to stay, and so is the program before it. -/
theorem parseSource_failsAgain {limits : Limits} {s : String} {d : Diagnostic}
    (hd : d ∈ (parseSource limits s).2) (hdepth : d.fault ≠ .grammar .nestedTooDeeply)
    (hwindow : WindowAt s d.position) (t : String) :
    (parseSource limits (s ++ "\n" ++ t)).1 = (parseSource limits s).1 ∧
      ∃ d', (parseSource limits (s ++ "\n" ++ t)).2 = [d'] := by
  obtain ⟨x, hx, hstream⟩ := TokenStream.exists_ofSource_append s t
  have hsome : (Grammar.forms (Grammar.nested limits.depth)
      (TokenStream.ofSource s)).2.1 = some d := by
    simpa [parseSource_eq, Grammar.program] using hd
  obtain ⟨s₁, hlead, hposition, hagain⟩ := Grammar.forms_failsAgain limits.depth
    (TokenStream.ended_ofSource s) hx hsome hdepth
  have hthree := hwindow.remaining_le hlead hposition
  obtain ⟨hforms, hfails⟩ := hagain hthree
  have hne := ((TokenStream.Settled.of_remaining hthree).of_leadsTo hlead).ne_nil
  obtain ⟨d', hd'⟩ := Option.ne_none_iff_exists'.1 hfails
  refine ⟨?_, d', ?_⟩
  · simp only [parseSource_eq, Grammar.program, TokenStream.view_current, hstream, hforms,
      TokenStream.current_append hne]
  · simp only [parseSource_eq, Grammar.program, hstream, hd', Option.toList_some]

theorem WindowAt.ne_empty {source : String} {p : Position} (h : WindowAt source p) :
    source ≠ "" := by
  rintro rfl
  obtain ⟨ts, hts, -, htwo⟩ := h
  have htokens : tokenize "" = [(Cursor.ofSource "").nextToken.1] := Cursor.tokens_end rfl
  have hlength := ((List.mem_tails _ _).1 hts).length_le
  have hle := List.length_filter_le (fun t : Token => t.kind ≠ .endOfInput) ts.tail
  rw [htokens, List.length_singleton] at hlength
  rw [List.length_tail] at hle
  omega

/-- A run depends on the text by its program, apart from the diagnostics of parsing. -/
theorem runSource_eq_of_program {limits : Limits} {s u : String}
    (hprogram : (parseSource limits u).1 = (parseSource limits s).1) :
    runSource limits u =
      { runSource limits s with parseDiagnostics := (parseSource limits u).2 } := by
  simp only [runSource, runIn, hprogram]

/-- Without diagnostics, a run prints its value only. -/
theorem Run.report_quiet (r : Run) (diagnostics : List Diagnostic) :
    ({ r with parseDiagnostics := diagnostics } : Run).report false = r.report false := rfl

/-- What new lines leave unchanged. All forms of a text but the last are the first forms of the text
    with any line behind it. If parsing the text fails, and not for its depth, at a token with two
    more behind it, then with any line behind it parsing gives the same program and fails once; and
    in a dialogue every later line that joins the buffer prints what the text printed, but for the
    diagnostic of parsing. -/
theorem buffer_stable (limits : Limits) (s t : String) :
    (parseSource limits s).1.forms.dropLast <+: (parseSource limits (s ++ "\n" ++ t)).1.forms ∧
    (¬ DepthReached (parseSource limits s).2 →
      ∀ d ∈ (parseSource limits s).2, WindowAt s d.position →
        (parseSource limits (s ++ "\n" ++ t)).1 = (parseSource limits s).1 ∧
        (parseSource limits (s ++ "\n" ++ t)).2.length = 1 ∧
        ∀ (showErrors : Bool) (buffer later : List String) (line : String),
          "\n".intercalate buffer = s → Text.trim line ≠ Dialogue.exitCommand →
          Text.trim line ≠ "" →
          ∃ d', Dialogue.turn limits showErrors (buffer ++ later) line =
            some (buffer ++ later ++ [line],
              { runSource limits s with parseDiagnostics := [d'] }.report showErrors)) := by
  refine ⟨parseSource_prefix_line limits s t, fun hdepth d hd hwindow => ?_⟩
  have hagain := parseSource_failsAgain hd (fun hfault => hdepth ⟨d, hd, hfault⟩) hwindow
  obtain ⟨hprogram, d', hd'⟩ := hagain t
  refine ⟨hprogram, by rw [hd']; rfl, ?_⟩
  rintro showErrors buffer later line rfl hexit hblank
  have hbuffer : buffer ≠ [] := by
    rintro rfl
    exact hwindow.ne_empty rfl
  obtain ⟨hprogram, d', hd'⟩ := hagain ("\n".intercalate (later ++ [line]))
  refine ⟨d', ?_⟩
  rw [← hd', ← runSource_eq_of_program hprogram,
    ← String.intercalate_append_of_ne_nil hbuffer (by simp), ← List.append_assoc, Dialogue.turn,
    if_neg hexit, if_neg hblank]

/-- A function whose parameter is no name. With another line the parameter fails for another reason;
    the forms before the function stay, and the dialogue prints the value of the second one
    again. -/
theorem buffer_stable_parameter :
    (parseSource ⟨9, 9⟩ "x := 1. x + 2. función(3 * 4").2 =
        [⟨.grammar .parameterNotName, ⟨1, 23⟩⟩] ∧
      WindowAt "x := 1. x + 2. función(3 * 4" ⟨1, 23⟩ ∧
      (parseSource ⟨9, 9⟩ ("x := 1. x + 2. función(3 * 4" ++ "\n" ++ "(5)")).1 =
        (parseSource ⟨9, 9⟩ "x := 1. x + 2. función(3 * 4").1 ∧
      (parseSource ⟨9, 9⟩ ("x := 1. x + 2. función(3 * 4" ++ "\n" ++ "(5)")).2 =
        [⟨.grammar .calleeNotName, ⟨2, 0⟩⟩] ∧
      Dialogue.turn ⟨9, 9⟩ false ["x := 1. x + 2. función(3 * 4"] "(5)" =
        some (["x := 1. x + 2. función(3 * 4", "(5)"], ["3"]) := by
  obtain ⟨hdiagnostics, hwindow, hdiagnostics', hvalue⟩ :
      (parseSource ⟨9, 9⟩ "x := 1. x + 2. función(3 * 4").2 =
          [⟨.grammar .parameterNotName, ⟨1, 23⟩⟩] ∧
        WindowAt "x := 1. x + 2. función(3 * 4" ⟨1, 23⟩ ∧
        (parseSource ⟨9, 9⟩ ("x := 1. x + 2. función(3 * 4" ++ "\n" ++ "(5)")).2 =
          [⟨.grammar .calleeNotName, ⟨2, 0⟩⟩] ∧
        (runSource ⟨9, 9⟩ "x := 1. x + 2. función(3 * 4").report false = ["3"] := by
    decide +kernel
  obtain ⟨hprogram, -, hturn⟩ := (buffer_stable ⟨9, 9⟩ "x := 1. x + 2. función(3 * 4" "(5)").2
    (by rw [hdiagnostics]; decide) _ (by rw [hdiagnostics]; exact List.mem_cons_self) hwindow
  obtain ⟨d, hd⟩ := hturn false ["x := 1. x + 2. función(3 * 4"] [] "(5)" rfl
    (by decide +kernel) (by decide +kernel)
  rw [Run.report_quiet, hvalue] at hd
  exact ⟨hdiagnostics, hwindow, hprogram, hdiagnostics', hd⟩

end Castellano
