import Castellano.Proofs.Layout
import Castellano.Proofs.RelabelRun

/-!
# Spacing and the choice of names do not matter

A source with other spacing between its tokens, and a source with other names, have the program and
the run of the source itself, up to positions and up to the names.

* `Renaming`, `Renaming.source`: a choice of other names, and a source written with it.
* `Renaming.scan_source`: the tokens of that source are the renamed tokens.
* `respaced_source_same`: other spacing changes nothing but positions.
* `renamed_source_same`: other names change nothing but the names that are bound and reported.
-/

namespace Castellano

/-! ## Other names -/

/-- Other names for names, different ones for different names. -/
structure Renaming where
  name : String → String
  isName : ∀ {x : String}, IsName x → IsName (name x)
  injective : ∀ {x y : String}, IsName x → IsName y → name x = name y → x = y

namespace Renaming

/-- Exchanges two names. -/
def swap (a b : String) (ha : IsName a) (hb : IsName b) : Renaming where
  name x := if x = a then b else if x = b then a else x
  isName := by
    intro x hx
    split
    · exact hb
    · split
      · exact ha
      · exact hx
  injective := by
    intro x y _ _ h
    grind

variable (r : Renaming)

/-- The new spelling of a text: only names have one. -/
def spell (x : String) : String := if IsName x then r.name x else x

theorem spell_of_isName {x : String} (h : IsName x) : r.spell x = r.name x := if_pos h

theorem isName_spell_iff {x : String} : IsName (r.spell x) ↔ IsName x := by
  rw [spell]
  split
  · rename_i h
    exact iff_of_true (r.isName h) h
  · rfl

theorem spell_injective : Function.Injective r.spell := by
  intro x y h
  have hiff : IsName x ↔ IsName y := by
    rw [← r.isName_spell_iff, h, r.isName_spell_iff]
  by_cases hx : IsName x
  · rw [r.spell_of_isName hx, r.spell_of_isName (hiff.1 hx)] at h
    exact r.injective hx (hiff.1 hx) h
  · rwa [spell, spell, if_neg hx, if_neg fun hy => hx (hiff.2 hy)] at h

/-- Gives names their new spelling and forgets all positions. -/
def relabelling : Relabelling := ⟨fun _ => {}, r.spell⟩

/-- The piece with its token spelled anew. -/
def piece (p : Piece) : Piece := ⟨p.token.relabel r.relabelling, p.gap⟩

/-- The layout with its names spelled anew, and with the same spacing. -/
def layout (l : Layout) : Layout := ⟨l.lead, l.pieces.map r.piece⟩

/-- The source with every name in its new spelling. -/
def source (source : String) : String := (r.layout (.ofSource source)).source

end Renaming

/-! ## The tokens of a renamed source -/

section Tokens

variable (r : Renaming)

theorem ofSign_ne_identifier (ch : Char) : TokenKind.ofSign ch ≠ .identifier := by
  unfold TokenKind.ofSign
  split <;> simp

/-- A token keeps its spelling unless it is a name, and then it has the new one. -/
theorem Token.IsRead.relabel_cases {t : Token} (h : t.IsRead) :
    t.relabel r.relabelling = t ∨
      ∃ w, IsName w ∧ t = .word w ∧ t.relabel r.relabelling = .word (r.name w) := by
  have hother : ∀ {t : Token}, t.kind ≠ .identifier → t.position = {} →
      t.relabel r.relabelling = t := by
    rintro ⟨kind, literal, position⟩ hkind rfl
    simp [Token.relabel, Renaming.relabelling, show kind ≠ .identifier from hkind]
  cases h with
  | number h => exact .inl (hother (by simp) rfl)
  | assign => exact .inl (hother (by decide) rfl)
  | sign hs hw => exact .inl (hother (ofSign_ne_identifier _) rfl)
  | @word w h =>
    obtain hkey | ⟨hfree, hkind⟩ := ofWord_cases w
    · have hkeywords : ∀ entry ∈ TokenKind.keywords, entry.2 ≠ .identifier := by decide
      exact .inl (hother (hkeywords _ hkey) rfl)
    · have hname : IsName w := ⟨h, hfree⟩
      refine .inr ⟨w, hname, rfl, ?_⟩
      simp [Token.relabel, Token.word, Renaming.relabelling, hkind, (r.isName hname).ofWord,
        r.spell_of_isName hname]

theorem IsWord.exists_head {w : String} (h : IsWord w) :
    ∃ ch, w.toList.head? = some ch ∧ Token.isLetter ch := by
  obtain ⟨ch, cs, hw, hch, -⟩ := h.exists_cons
  exact ⟨ch, by rw [hw]; rfl, hch⟩

/-- What can stand behind a token can stand behind the renamed token. -/
theorem Token.IsRead.continuedBy_relabel {t : Token} (h : t.IsRead) (ch : Char) :
    (t.relabel r.relabelling).continuedBy ch = t.continuedBy ch := by
  obtain hsame | ⟨w, hw, rfl, hrenamed⟩ := h.relabel_cases r
  · rw [hsame]
  · rw [hrenamed, Token.continuedBy_word hw.toIsWord,
      Token.continuedBy_word (r.isName hw).toIsWord]

/-- Where a token can stand behind another, so can the renamed token. -/
theorem Token.IsRead.not_continuedBy_head {t : Token} (h : t.IsRead) (before : Token)
    (hbefore : ∀ ch ∈ t.literal.toList.head?, ¬ before.continuedBy ch) :
    ∀ ch ∈ (t.relabel r.relabelling).literal.toList.head?, ¬ before.continuedBy ch := by
  obtain hsame | ⟨w, hw, rfl, hrenamed⟩ := h.relabel_cases r
  · rwa [hsame]
  · obtain ⟨a, ha, hletter⟩ := hw.exists_head
    obtain ⟨b, hb, hletter'⟩ := (r.isName hw).exists_head
    rw [hrenamed]
    intro ch hch
    obtain rfl : b = ch := Option.some.inj (hb.symm.trans hch)
    rw [before.continuedBy_letter hletter' hletter]
    exact hbefore a ha

theorem WellSpaced.renamed {pieces : List Piece} (h : WellSpaced pieces) :
    WellSpaced (pieces.map r.piece) := by
  induction h with
  | nil => exact .nil
  | @cons t gap pieces ht hgap hnext hpieces ih =>
    have hread : (t.relabel r.relabelling).IsRead := by
      obtain hsame | ⟨w, hw, -, hrenamed⟩ := ht.relabel_cases r
      · rwa [hsame]
      · rw [hrenamed]
        exact .word (r.isName hw).toIsWord
    refine .cons hread hgap (Token.not_continuedBy_gap _ hgap fun hnil => ?_) ih
    simp only [ht.continuedBy_relabel r]
    obtain rfl := hnil
    cases pieces with
    | nil => simp
    | cons q pieces =>
      rw [List.nil_append, hpieces.head?_textOf] at hnext
      rw [List.map_cons] at ih ⊢
      rw [ih.head?_textOf]
      cases hpieces with
      | cons hq => exact hq.not_continuedBy_head r t hnext

/-- A renamed source has the renamed tokens. -/
theorem Renaming.scan_source (source : String) :
    scan (r.source source).toList = (scan source.toList).map (Token.relabel r.relabelling) := by
  have hlead : ∀ ch ∈ (Layout.ofSource source).lead, Token.isSpacing ch :=
    List.all_eq_true.1 List.all_takeWhile
  have hspaced := (Layout.wellSpaced_ofSource source).renamed r
  rw [Renaming.source, Layout.scan_source (l := r.layout (.ofSource source)) hlead hspaced,
    ← Layout.tokens_ofSource, Layout.tokens, Layout.tokens, Renaming.layout, List.map_map,
    List.map_map]
  rfl

end Tokens

/-! ## Programs and runs -/

theorem TokenStream.relabel_unplaced {ρ : Relabelling} (hρ : ∀ p, ρ.place p = {})
    (s : TokenStream) : s.unplaced.relabel ρ = s.relabel ρ := by
  have htoken : ∀ t : Token, t.unplaced.relabel ρ = t.relabel ρ := by
    intro t
    simp [Token.unplaced_eq, Token.relabel, hρ]
  simp only [TokenStream.unplaced, TokenStream.relabel, List.map_map]
  exact congrArg₂ _ (List.map_congr_left fun t _ => htoken t) (htoken s.last)

theorem Renaming.relabel_ofSource (r : Renaming) (source : String) :
    (TokenStream.ofSource (r.source source)).unplaced =
      (TokenStream.ofSource source).relabel r.relabelling := by
  rw [← TokenStream.relabel_unplaced (fun _ => rfl) (.ofSource source),
    TokenStream.unplaced_ofSource, TokenStream.unplaced_ofSource, r.scan_source]
  rfl

/-- The value without its positions. -/
def Value.unplaced (v : Value) : Value := v.relabel .unplace

theorem Fault.rename_id (fault : Fault) : fault.rename id = fault := by
  cases fault with
  | meaning fault => cases fault <;> rfl
  | illegalCharacter _ | grammar _ | remark _ _ => rfl

theorem Diagnostic.map_fault_rename (ρ : Relabelling) (diagnostics : List Diagnostic) :
    (diagnostics.map (Diagnostic.rename ρ)).map Diagnostic.fault =
      diagnostics.map fun d => d.fault.rename ρ.name := by
  rw [List.map_map]
  rfl

theorem Diagnostic.map_fault_unplace (diagnostics : List Diagnostic) :
    (diagnostics.map (Diagnostic.rename .unplace)).map Diagnostic.fault =
      diagnostics.map Diagnostic.fault := by
  rw [Diagnostic.map_fault_rename]
  exact List.map_congr_left fun d _ => d.fault.rename_id

theorem Run.diagnostics_relabel (ρ : Relabelling) (run : Run) :
    (run.relabel ρ).diagnostics = run.diagnostics.map (Diagnostic.rename ρ) :=
  (List.map_append ..).symm

theorem Run.render_relabel (ρ : Relabelling) (run : Run) :
    render (run.relabel ρ).value = render run.value :=
  Castellano.render_relabel ρ run.value

theorem unplace_injective : Function.Injective Relabelling.unplace.name := Function.injective_id

/-- The spacing between tokens plays no part. The layout of a source consists of its tokens and the
    spacing around them. If the spacing is changed so that none vanishes between two tokens where
    there was some, the source has the same tree up to positions and the same faults, and running it
    ends in the same way, shows the same and reports the same faults in the same order. -/
theorem respaced_source_same (limits : Limits) (source : String) (l : Layout)
    (h : (Layout.ofSource source).Respaces l) :
    (Layout.ofSource source).source = source ∧
    (Layout.ofSource source).tokens = (TokenStream.ofSource source).upcoming.map Token.unplaced ∧
    (parseSource limits l.source).1.unplaced = (parseSource limits source).1.unplaced ∧
    (parseSource limits l.source).2.map Diagnostic.fault =
      (parseSource limits source).2.map Diagnostic.fault ∧
    (runSource limits l.source).halt = (runSource limits source).halt ∧
    render (runSource limits l.source).value = render (runSource limits source).value ∧
    (runSource limits l.source).diagnostics.map Diagnostic.fault =
      (runSource limits source).diagnostics.map Diagnostic.fault := by
  have htokens : (TokenStream.ofSource l.source).unplaced =
      (TokenStream.ofSource source).unplaced := by
    rw [TokenStream.unplaced_ofSource, TokenStream.unplaced_ofSource, h.scan]
  have hupcoming := congrArg TokenStream.upcoming (TokenStream.unplaced_ofSource source)
  obtain ⟨hprogram, hparse⟩ := parseSource_relabel limits htokens
  have hrun := runSource_relabel limits unplace_injective unplace_injective htokens
  have hhalt := congrArg Run.halt hrun
  refine ⟨Layout.source_ofSource source, ?_, hprogram, ?_, hhalt, ?_, ?_⟩
  · rw [Layout.tokens_ofSource]
    exact hupcoming.symm
  · rw [← Diagnostic.map_fault_unplace, hparse, Diagnostic.map_fault_unplace]
  · rw [← Run.render_relabel .unplace, hrun, Run.render_relabel]
  · rw [← Diagnostic.map_fault_unplace, ← Run.diagnostics_relabel, hrun, Run.diagnostics_relabel,
      Diagnostic.map_fault_unplace]

/-- At a source whose tokens stand close together and are then put on lines of their own. -/
theorem respaced_source_same_lines :
    let source := "x:=1/0 x:="
    let l : Layout :=
      ⟨['\t'], (Layout.ofSource source).pieces.map fun p => ⟨p.token, p.gap ++ ['\n']⟩⟩
    (Layout.ofSource source).Respaces l ∧ l.source = "\tx\n:=\n1\n/\n0 \nx\n:=\n" ∧
      (runSource ⟨9, 3⟩ l.source).diagnostics.map Diagnostic.fault =
        [.grammar .unexpectedEnd, .meaning .divisionByZero] := by
  intro source l
  obtain ⟨h, hsource, hfaults⟩ : (Layout.ofSource source).Respaces l ∧
      l.source = "\tx\n:=\n1\n/\n0 \nx\n:=\n" ∧
      (runSource ⟨9, 3⟩ source).diagnostics.map Diagnostic.fault =
        [.grammar .unexpectedEnd, .meaning .divisionByZero] := by decide +kernel
  obtain ⟨-, -, -, -, -, -, hsame⟩ := respaced_source_same ⟨9, 3⟩ source l h
  exact ⟨h, hsource, hsame.trans hfaults⟩

/-- The choice of names plays no part. If every name of a source is spelled anew, different names
    differently, running it ends in the same way, shows the same, and reports the same faults in the
    same order, about the new names. Each new name is bound afterwards if and only if the old one
    is, and to the same value: the same number or truth value, or the function with the new names.
    No other names are bound. -/
theorem renamed_source_same (limits : Limits) (r : Renaming) (source : String) :
    let run := runSource limits source
    let run' := runSource limits (r.source source)
    run'.halt = run.halt ∧
    render run'.value = render run.value ∧
    run'.diagnostics.map Diagnostic.fault = run.diagnostics.map (fun d => d.fault.rename r.spell) ∧
    (∀ x, (run'.env.find? (r.spell x)).map (Option.map Value.unplaced) =
      (run.env.find? x).map (Option.map (Value.relabel r.relabelling))) ∧
    run'.env.bindings.map Prod.fst = run.env.bindings.map fun b => r.spell b.1 := by
  intro run run'
  have hrun : run'.relabel .unplace = run.relabel r.relabelling :=
    runSource_relabel limits r.spell_injective unplace_injective (r.relabel_ofSource source)
  have henv : run'.env.relabel .unplace = run.env.relabel r.relabelling := congrArg Run.env hrun
  have hhalt := congrArg Run.halt hrun
  refine ⟨hhalt, ?_, ?_, fun x => ?_, ?_⟩
  · rw [← Run.render_relabel .unplace, hrun, Run.render_relabel]
  · rw [← Diagnostic.map_fault_unplace, ← Run.diagnostics_relabel, hrun, Run.diagnostics_relabel,
      Diagnostic.map_fault_rename]
    rfl
  · have hold := Environment.find?_relabel (ρ := r.relabelling) r.spell_injective run.env x
    have hnew := Environment.find?_relabel unplace_injective run'.env (r.spell x)
    rw [henv] at hnew
    exact hnew.symm.trans hold
  · have hbindings := congrArg (fun env => env.bindings.map Prod.fst) henv
    simp only [Environment.relabel, List.map_map] at hbindings
    exact hbindings

/-- At a function with two parameters of one name that names a third thing. -/
theorem renamed_source_same_shadowed :
    let r := Renaming.swap "x" "año_2" (by decide +kernel) (by decide +kernel)
    let source := "f:=función(x x)\x7bx+año_2\x7df(1. 2)"
    r.source source = "f:=función(año_2 año_2)\x7baño_2+x\x7df(1. 2)" ∧
      (runSource ⟨9, 3⟩ (r.source source)).diagnostics.map Diagnostic.fault =
        [.meaning (.unbound "x")] := by
  intro r source
  obtain ⟨hsource, hfaults⟩ :
      r.source source = "f:=función(año_2 año_2)\x7baño_2+x\x7df(1. 2)" ∧
        (runSource ⟨9, 3⟩ source).diagnostics.map (fun d => d.fault.rename r.spell) =
          [.meaning (.unbound "x")] := by decide +kernel
  obtain ⟨-, -, hsame, -, -⟩ := renamed_source_same ⟨9, 3⟩ r source
  exact ⟨hsource, hsame.trans hfaults⟩

end Castellano
