import Castellano.Proofs.SurfaceTokens

/-!
# Texts as tokens and spacing

Every text is made of its tokens and of the spacing before, between and behind them. The spacing may
be changed freely as long as no token runs into the one behind it; the tokens stay the same.

* `Layout`, `Layout.ofSource`: a text cut into its tokens and its spacing.
* `Token.IsRead`, `Token.continuedBy`: the tokens that a text can have, and the characters that
  cannot stand right behind them.
* `WellSpaced`: no token is continued by what stands behind it. The tokens of a text put together in
  this way are the given ones (`WellSpaced.scan`), and every text is (`Layout.wellSpaced_ofSource`).
* `Layout.Respaces`: a layout with other spacing, `Layout.Respaces.scan`: it has the same tokens.
-/

namespace Castellano

/-! ## The tokens that a text can have -/

namespace Token

/-- The tokens that a text can have, by their spelling. -/
inductive IsRead : Token → Prop
  | number {ch : Char} {cs : List Char} (h : ∀ d ∈ ch :: cs, isDigit d) :
    IsRead ⟨.integer, String.ofList (ch :: cs), {}⟩
  | word {w : String} (h : IsWord w) : IsRead (.word w)
  | assign : IsRead .assignSign
  | sign {ch : Char} (hs : ¬ isSpacing ch) (hw : ¬ isWordChar ch) : IsRead (.sign ch)

/-- The character would be read as a part of the token if it stood right behind it. -/
def continuedBy (t : Token) (ch : Char) : Bool :=
  match t.literal.toList with
  | [] => false
  | first :: _ =>
    if isDigit first then isDigit ch
    else if isLetter first then isWordChar ch
    else t.literal = ":" && ch = '='

variable {ch : Char}

theorem not_isWordChar_of_isSpacing (h : isSpacing ch) : ¬ isWordChar ch := by
  simp only [isWordChar, Bool.or_eq_true]
  rintro (hl | hd)
  · exact not_isSpacing_of_isLetter hl h
  · exact not_isSpacing_of_isDigit hd h

/-- Spacing ends every token. -/
theorem continuedBy_of_isSpacing (t : Token) (h : isSpacing ch) : t.continuedBy ch = false := by
  have hw := not_isWordChar_of_isSpacing h
  have hd : ¬ isDigit ch := fun hd => not_isSpacing_of_isDigit hd h
  have he : ch ≠ '=' := by
    rintro rfl
    exact absurd h (by decide)
  unfold continuedBy
  split
  · rfl
  · split
    · simpa using hd
    · split
      · simpa using hw
      · simp [he]

theorem continuedBy_number {first : Char} {cs : List Char} {p : Position} {kind : TokenKind}
    (h : isDigit first) (ch : Char) :
    (Token.mk kind (String.ofList (first :: cs)) p).continuedBy ch = isDigit ch := by
  simp [continuedBy, h]

theorem continuedBy_word {w : String} (h : IsWord w) (ch : Char) :
    (Token.word w).continuedBy ch = isWordChar ch := by
  obtain ⟨first, cs, hw, hl, -⟩ := h.exists_cons
  simp [continuedBy, Token.word, hw, hl, not_isDigit_of_isLetter hl]

theorem continuedBy_assignSign (ch : Char) : Token.assignSign.continuedBy ch = false := by
  have hd : isDigit ':' = false := by decide
  have hl : isLetter ':' = false := isLetter_of_ascii (by decide)
  simp [continuedBy, assignSign, hd, hl]

theorem continuedBy_sign {first : Char} (h : ¬ isWordChar first) (ch : Char) :
    (Token.sign first).continuedBy ch = (first = ':' && ch = '=') := by
  simp only [isWordChar, Bool.or_eq_true, not_or] at h
  have hliteral : String.singleton first = ":" ↔ first = ':' := by
    rw [← String.toList_inj]
    simp
  simp [continuedBy, Token.sign, h, hliteral]

/-- Whatever a token is, if one letter continues it, every letter does. -/
theorem continuedBy_letter (t : Token) {a b : Char} (ha : isLetter a) (hb : isLetter b) :
    t.continuedBy a = t.continuedBy b := by
  have hne : ∀ {c : Char}, isLetter c → c ≠ '=' := by
    rintro c hc rfl
    rw [isLetter_of_ascii (by decide)] at hc
    exact absurd hc (by decide)
  unfold continuedBy
  split
  · rfl
  · simp [isWordChar, ha, hb, hne ha, hne hb, not_isDigit_of_isLetter ha,
      not_isDigit_of_isLetter hb]

end Token

section Runs

variable {α : Type} {p : α → Bool} {a b : List α}

/-- A run ends where it is not continued. -/
theorem takeWhile_append_of_stop (ha : ∀ x ∈ a, p x) (hb : ∀ x ∈ b.head?, ¬ p x) :
    (a ++ b).takeWhile p = a := by
  rw [List.takeWhile_append_of_pos ha]
  cases b with
  | nil => simp
  | cons x b => simp [hb x rfl]

theorem dropWhile_append_of_stop (ha : ∀ x ∈ a, p x) (hb : ∀ x ∈ b.head?, ¬ p x) :
    (a ++ b).dropWhile p = b := by
  rw [List.dropWhile_append_of_pos ha]
  cases b with
  | nil => simp
  | cons x b => simp [hb x rfl]

/-- A run can be told from what stands behind it. -/
theorem run_append_inj {a' b' : List α} (ha : ∀ x ∈ a, p x) (ha' : ∀ x ∈ a', p x)
    (hb : ∀ x ∈ b.head?, ¬ p x) (hb' : ∀ x ∈ b'.head?, ¬ p x) (h : a ++ b = a' ++ b') :
    a = a' ∧ b = b' := by
  have htake := congrArg (List.takeWhile p) h
  have hdrop := congrArg (List.dropWhile p) h
  rw [takeWhile_append_of_stop ha hb, takeWhile_append_of_stop ha' hb'] at htake
  rw [dropWhile_append_of_stop ha hb, dropWhile_append_of_stop ha' hb'] at hdrop
  exact ⟨htake, hdrop⟩

end Runs

/-- A token is read from its text if what stands behind it does not continue it. -/
theorem Token.IsRead.scan_append {t : Token} (h : t.IsRead) {cs : List Char}
    (hcs : ∀ ch ∈ cs.head?, ¬ t.continuedBy ch) :
    scan (t.literal.toList ++ cs) = t :: scan cs := by
  cases h with
  | @number first digits h =>
    obtain ⟨hfirst, hdigits⟩ := List.forall_mem_cons.1 h
    simp only [Token.continuedBy_number hfirst] at hcs
    rw [String.toList_ofList, List.cons_append, scan_number hfirst,
      takeWhile_append_of_stop hdigits hcs, dropWhile_append_of_stop hdigits hcs]
  | @word w h =>
    simp only [Token.continuedBy_word h] at hcs
    obtain ⟨first, rest, hw, hfirst, hrest⟩ := h.exists_cons
    show scan (w.toList ++ cs) = _
    rw [hw, List.cons_append, scan_word hfirst, takeWhile_append_of_stop hrest hcs,
      dropWhile_append_of_stop hrest hcs, ← hw, String.ofList_toList, Token.word]
  | assign => exact scan_assign cs
  | @sign ch hs hw =>
    have hhead : ch = ':' → cs.head? ≠ some '=' := by
      rintro rfl heq
      exact hcs '=' heq (by rw [Token.continuedBy_sign hw]; rfl)
    rw [Token.sign, show ch.toString.toList = [ch] by simp, List.singleton_append,
      scan_sign hs hw hhead]

/-! ## Layouts -/

/-- A token and the spacing behind it. -/
structure Piece where
  token : Token
  gap : List Char
deriving DecidableEq, Repr

namespace Piece

/-- The characters of the token and of the spacing behind it. -/
def text (p : Piece) : List Char := p.token.literal.toList ++ p.gap

end Piece

/-- The characters of pieces in a row. -/
def textOf (pieces : List Piece) : List Char := pieces.flatMap Piece.text

@[simp]
theorem textOf_nil : textOf [] = [] := rfl

@[simp]
theorem textOf_cons (p : Piece) (pieces : List Piece) :
    textOf (p :: pieces) = p.token.literal.toList ++ (p.gap ++ textOf pieces) := by
  simp [textOf, Piece.text]

/-- A text as the spacing in front of it and its pieces. -/
structure Layout where
  lead : List Char
  pieces : List Piece
deriving DecidableEq, Repr

namespace Layout

/-- The tokens of the pieces. -/
def tokens (l : Layout) : List Token := l.pieces.map Piece.token

/-- The text that is laid out. -/
def source (l : Layout) : String := String.ofList (l.lead ++ textOf l.pieces)

end Layout

/-- The pieces from the first token behind the cursor on. -/
def Cursor.pieces (c : Cursor) : List Piece :=
  let next := c.nextToken
  if next.1.kind = .endOfInput then []
  else ⟨next.1.unplaced, next.2.rest.takeWhile Token.isSpacing⟩ :: next.2.pieces
termination_by c.rest.length
decreasing_by exact length_rest_nextToken_lt ‹_›

/-- A text cut into its tokens and its spacing. -/
def Layout.ofSource (source : String) : Layout :=
  ⟨source.toList.takeWhile Token.isSpacing, (Cursor.ofSource source).pieces⟩

/-! ## Pieces that do not run into each other -/

/-- Every token is one that a text can have and is not continued by what stands behind it, which is
    first of all spacing. -/
inductive WellSpaced : List Piece → Prop
  | nil : WellSpaced []
  | cons {t : Token} {gap : List Char} {pieces : List Piece} (ht : t.IsRead)
    (hgap : ∀ ch ∈ gap, Token.isSpacing ch)
    (hnext : ∀ ch ∈ (gap ++ textOf pieces).head?, ¬ t.continuedBy ch)
    (hpieces : WellSpaced pieces) : WellSpaced (⟨t, gap⟩ :: pieces)

theorem scan_spacing_append {gap : List Char} (h : ∀ ch ∈ gap, Token.isSpacing ch)
    (cs : List Char) : scan (gap ++ cs) = scan cs := by
  induction gap with
  | nil => rfl
  | cons ch gap ih =>
    obtain ⟨hch, hgap⟩ := List.forall_mem_cons.1 h
    rw [List.cons_append, scan_spacing hch, ih hgap]

/-- The tokens of well spaced pieces are read from their text. -/
theorem WellSpaced.scan {pieces : List Piece} (h : WellSpaced pieces) :
    scan (textOf pieces) = pieces.map Piece.token := by
  induction h with
  | nil => exact scan_nil
  | cons ht hgap hnext _ ih =>
    rw [textOf_cons, ht.scan_append hnext, scan_spacing_append hgap, ih, List.map_cons]

/-! ## The layout of a text -/

namespace Cursor

variable {c : Cursor}

theorem pieces_end (h : c.nextToken.1.kind = .endOfInput) : c.pieces = [] := by
  rw [pieces, if_pos h]

theorem pieces_next (h : c.nextToken.1.kind ≠ .endOfInput) :
    c.pieces = ⟨c.nextToken.1.unplaced, c.nextToken.2.rest.takeWhile Token.isSpacing⟩ ::
      c.nextToken.2.pieces := by
  rw [pieces, if_neg h]

theorem spacing_append_skipSpacing (c : Cursor) :
    c.rest.takeWhile Token.isSpacing ++ c.skipSpacing.rest = c.rest :=
  List.takeWhile_append_dropWhile

theorem not_isSpacing_head_skipSpacing (c : Cursor) :
    ∀ ch ∈ c.skipSpacing.rest.head?, ¬ Token.isSpacing ch := by
  intro ch hch
  have := List.head?_dropWhile_not Token.isSpacing c.rest
  rw [show (c.rest.dropWhile Token.isSpacing).head? = some ch from hch] at this
  simpa using this

/-- A token is read, and what follows does not continue it. -/
theorem readToken_spec (hs : ∀ ch ∈ c.rest.head?, ¬ Token.isSpacing ch) (hne : c.rest ≠ []) :
    c.readToken.1.unplaced.IsRead ∧
      c.rest = c.readToken.1.literal.toList ++ c.readToken.2.rest ∧
      ∀ ch ∈ c.readToken.2.rest.head?, ¬ c.readToken.1.unplaced.continuedBy ch := by
  obtain ⟨first, cs, hc⟩ := List.exists_cons_of_ne_nil hne
  have hstop : ∀ {p : Char → Bool} {ch : Char}, ch ∈ (cs.dropWhile p).head? → ¬ p ch := by
    intro p ch hch
    have := List.head?_dropWhile_not p cs
    rw [hch] at this
    simpa using this
  obtain h1 | ⟨h1, h2⟩ | ⟨rfl, cs', rfl⟩ | ⟨h1, h2, h3⟩ := start_cases first cs
  · obtain ⟨ht, hr⟩ := readToken_number hc h1
    have hdigits : ∀ d ∈ first :: cs.takeWhile Token.isDigit, Token.isDigit d :=
      List.forall_mem_cons.2 ⟨h1, List.all_eq_true.1 List.all_takeWhile⟩
    rw [ht, hr, hc]
    refine ⟨.number hdigits, ?_, fun ch hch => ?_⟩
    · rw [String.toList_ofList, List.cons_append, List.takeWhile_append_dropWhile]
    · rw [Token.unplaced_eq, Token.continuedBy_number h1]
      exact hstop hch
  · obtain ⟨ht, hr⟩ := readToken_word hc h1 h2
    have hword : IsWord (String.ofList (first :: cs.takeWhile Token.isWordChar)) := by
      refine ⟨by simpa using h2, ?_⟩
      rw [String.toList_ofList, List.all_cons, List.all_takeWhile]
      simp [Token.isWordChar, h2]
    rw [ht, hr, hc, Token.unplaced_eq]
    refine ⟨.word hword, ?_, fun ch hch => ?_⟩
    · rw [String.toList_ofList, List.cons_append, List.takeWhile_append_dropWhile]
    · rw [← Token.word, Token.continuedBy_word hword]
      exact hstop hch
  · obtain ⟨ht, hr⟩ := readToken_assign hc
    rw [ht, hr, hc, Token.unplaced_eq]
    refine ⟨.assign, by simp, fun ch _ => ?_⟩
    rw [← Token.assignSign, Token.continuedBy_assignSign]
    simp
  · obtain ⟨ht, hr⟩ := readToken_sign hc h1 h2 h3
    have hspace : ¬ Token.isSpacing first := hs first (by rw [hc]; rfl)
    have hword : ¬ Token.isWordChar first := by simp [Token.isWordChar, h1, h2]
    rw [ht, hr, hc, Token.unplaced_eq]
    refine ⟨.sign hspace hword, by simp, fun ch hch => ?_⟩
    rw [← Token.sign, Token.continuedBy_sign hword]
    simp only [Bool.and_eq_true, decide_eq_true_eq]
    rintro ⟨rfl, rfl⟩
    exact h3 rfl hch

/-- The text behind the spacing in front is that of the pieces. -/
theorem textOf_pieces (c : Cursor) : textOf c.pieces = c.skipSpacing.rest := by
  induction c using pieces.induct with
  | case1 c next =>
    rename_i hend
    rw [pieces_end hend, kind_readToken_eq_endOfInput.1 hend, textOf_nil]
  | case2 c next hend ih =>
    have hne : c.skipSpacing.rest ≠ [] := fun h => hend (kind_readToken_eq_endOfInput.2 h)
    obtain ⟨-, hrest, -⟩ := readToken_spec c.not_isSpacing_head_skipSpacing hne
    rw [pieces_next hend, textOf_cons, ih, hrest, Token.unplaced_eq]
    exact congrArg _ c.nextToken.2.spacing_append_skipSpacing

theorem wellSpaced_pieces (c : Cursor) : WellSpaced c.pieces := by
  induction c using pieces.induct with
  | case1 c next =>
    rename_i hend
    rw [pieces_end hend]
    exact .nil
  | case2 c next hend ih =>
    have hne : c.skipSpacing.rest ≠ [] := fun h => hend (kind_readToken_eq_endOfInput.2 h)
    obtain ⟨ht, -, hstop⟩ := readToken_spec c.not_isSpacing_head_skipSpacing hne
    rw [pieces_next hend]
    refine .cons ht (List.all_eq_true.1 List.all_takeWhile) ?_ ih
    rw [textOf_pieces, spacing_append_skipSpacing]
    exact hstop

end Cursor

namespace Layout

theorem wellSpaced_ofSource (source : String) : WellSpaced (ofSource source).pieces :=
  Cursor.wellSpaced_pieces _

/-- A layout is of the text that it was made from. -/
theorem source_ofSource (source : String) : (ofSource source).source = source := by
  have hrest := (Cursor.ofSource source).spacing_append_skipSpacing
  rw [Cursor.ofSource] at hrest
  rw [Layout.source, ofSource, Cursor.textOf_pieces, Cursor.ofSource, hrest, String.ofList_toList]

/-- The tokens of a layout are those of its text. -/
theorem scan_source {l : Layout} (hlead : ∀ ch ∈ l.lead, Token.isSpacing ch)
    (h : WellSpaced l.pieces) : scan l.source.toList = l.tokens := by
  rw [Layout.source, String.toList_ofList, scan_spacing_append hlead, h.scan, tokens]

theorem tokens_ofSource (source : String) : (ofSource source).tokens = scan source.toList := by
  have hlead : ∀ ch ∈ (ofSource source).lead, Token.isSpacing ch :=
    List.all_eq_true.1 List.all_takeWhile
  rw [← scan_source hlead (wellSpaced_ofSource source), source_ofSource]

end Layout

/-! ## Other spacing -/

/-- A layout of the same tokens with other spacing. Where there is spacing between two tokens, some
    is left; spacing may come in anywhere. -/
structure Layout.Respaces (l l' : Layout) : Prop where
  tokens : l'.tokens = l.tokens
  lead : l'.lead.all Token.isSpacing
  gaps : l'.pieces.all fun p => p.gap.all Token.isSpacing
  kept : List.Forall₂ (fun p p' => p.gap ≠ [] → p'.gap ≠ []) l.pieces.dropLast l'.pieces.dropLast

instance (l l' : Layout) : Decidable (l.Respaces l') :=
  decidable_of_iff (l'.tokens = l.tokens ∧ l'.lead.all Token.isSpacing ∧
      (l'.pieces.all fun p => p.gap.all Token.isSpacing) ∧
      List.Forall₂ (fun p p' => p.gap ≠ [] → p'.gap ≠ []) l.pieces.dropLast l'.pieces.dropLast)
    ⟨fun h => ⟨h.1, h.2.1, h.2.2.1, h.2.2.2⟩, fun h => ⟨h.tokens, h.lead, h.gaps, h.kept⟩⟩

theorem Token.IsRead.literal_ne_nil {t : Token} (h : t.IsRead) : t.literal.toList ≠ [] := by
  cases h with
  | number h => simp
  | @word w h =>
    obtain ⟨first, cs, hw, -⟩ := h.exists_cons
    simp [Token.word, hw]
  | assign => decide
  | sign hs hw => simp [Token.sign]

/-- Spacing ends the token; without spacing, what stands behind has to end it. -/
theorem Token.not_continuedBy_gap (t : Token) {gap cs : List Char}
    (hgap : ∀ ch ∈ gap, isSpacing ch) (hcs : gap = [] → ∀ ch ∈ cs.head?, ¬ t.continuedBy ch) :
    ∀ ch ∈ (gap ++ cs).head?, ¬ t.continuedBy ch := by
  cases gap with
  | nil => exact hcs rfl
  | cons first gap =>
    rintro _ ⟨⟩
    simp [t.continuedBy_of_isSpacing (hgap first List.mem_cons_self)]

/-- The first character of well spaced pieces is that of the first token. -/
theorem WellSpaced.head?_textOf {p : Piece} {pieces : List Piece} (h : WellSpaced (p :: pieces)) :
    (textOf (p :: pieces)).head? = p.token.literal.toList.head? := by
  cases h with
  | cons ht =>
    obtain ⟨ch, cs, hcs⟩ := List.exists_cons_of_ne_nil ht.literal_ne_nil
    rw [textOf_cons, hcs]
    rfl

/-- Other spacing lets no token run into the next one. -/
theorem WellSpaced.respaced {pieces pieces' : List Piece} (h : WellSpaced pieces)
    (htokens : pieces'.map Piece.token = pieces.map Piece.token)
    (hgaps : pieces'.all fun p => p.gap.all Token.isSpacing)
    (hkept : List.Forall₂ (fun p p' => p.gap ≠ [] → p'.gap ≠ []) pieces.dropLast pieces'.dropLast) :
    WellSpaced pieces' := by
  induction h generalizing pieces' with
  | nil =>
    rw [List.map_nil, List.map_eq_nil_iff] at htokens
    rw [htokens]
    exact .nil
  | @cons t gap pieces ht hgap hnext hpieces ih =>
    obtain ⟨⟨t', gap'⟩, rest, rfl, ht', hrest⟩ := List.map_eq_cons_iff.1 htokens
    obtain rfl : t' = t := ht'
    rw [List.all_cons, Bool.and_eq_true] at hgaps
    have hgap' := List.all_eq_true.1 hgaps.1
    cases pieces with
    | nil =>
      obtain rfl := List.map_eq_nil_iff.1 hrest
      exact .cons ht hgap' (t'.not_continuedBy_gap hgap' fun _ => by simp) .nil
    | cons q pieces =>
      obtain ⟨q', rest, rfl, hq, hrest'⟩ := List.map_eq_cons_iff.1 hrest
      rw [List.dropLast_cons_cons, List.dropLast_cons_cons, List.forall₂_cons] at hkept
      have hspaced := ih hrest hgaps.2 hkept.2
      refine .cons ht hgap' (t'.not_continuedBy_gap hgap' fun hnil => ?_) hspaced
      -- where no spacing is left there was none before, and the next token is the same
      obtain rfl : gap = [] := Decidable.not_not.1 fun hne => hkept.1 hne hnil
      rw [List.nil_append, hpieces.head?_textOf] at hnext
      rwa [hspaced.head?_textOf, hq]

/-- With other spacing, a text has the same tokens. -/
theorem Layout.Respaces.scan {source : String} {l : Layout} (h : (ofSource source).Respaces l) :
    scan l.source.toList = scan source.toList := by
  have hspaced := (wellSpaced_ofSource source).respaced h.tokens h.gaps h.kept
  rw [scan_source (List.all_eq_true.1 h.lead) hspaced, h.tokens, tokens_ofSource]

end Castellano
