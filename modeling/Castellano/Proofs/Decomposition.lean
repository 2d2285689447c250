import Castellano.Proofs.Layout
import Mathlib.Data.List.Induction

/-!
# The only way to cut a text into tokens

A text can be cut in one way only into spacing and tokens of the language: numbers and words that
are not continued, the assignment sign, the other signs, and characters that are none of these. The
reader cuts it in this way, and a token stands where counting lines and columns in the text before
it says.

* `Position.behind`: the line and the column behind a text, by counting.
* `Cursor.Passes`: a cursor that has moved over a text; every token moves over its own spelling.
* `Token.ReadBefore`: the tokens of the language, each with what may stand behind it.
* `Token.ReadBefore.readToken`, `Cursor.readBefore_readToken`: the reader reads these and no others.
* `Layout.Decomposes`: a text cut into tokens and spacing.
-/

namespace Castellano

/-! ## Counting lines and columns -/

namespace Position

/-- The position behind a text: the line is one more than the line breaks of the text, and the
    column is the number of characters behind the last of them. -/
def behind (text : List Char) : Position :=
  ⟨1 + text.count '\n', (text.reverse.takeWhile fun ch => ch ≠ '\n').length⟩

theorem behind_concat (text : List Char) (ch : Char) :
    behind (text ++ [ch]) = (behind text).after ch := by
  by_cases hch : ch = '\n'
  · simp [behind, after, hch, Int.add_assoc]
  · simp [behind, after, hch]

theorem afterAll_start (text : List Char) : start.afterAll text = behind text := by
  induction text using List.reverseRecOn with
  | nil => rfl
  | append_singleton text ch ih =>
    rw [afterAll] at ih
    rw [afterAll, List.foldl_concat, ih, behind_concat]

theorem afterAll_append (p : Position) (a b : List Char) :
    p.afterAll (a ++ b) = (p.afterAll a).afterAll b :=
  List.foldl_append

theorem behind_append (a b : List Char) : behind (a ++ b) = (behind a).afterAll b := by
  rw [← afterAll_start, ← afterAll_start, afterAll_append]

end Position

/-! ## Moving over a text -/

namespace Cursor

/-- The second cursor is the first one behind the text. -/
structure Passes (c : Cursor) (text : List Char) (c' : Cursor) : Prop where
  rest : c.rest = text ++ c'.rest
  offset : c'.offset = c.offset + text.length
  position : c'.position = c.position.afterAll text

namespace Passes

variable {c c' c'' : Cursor} {text text' : List Char}

theorem refl (c : Cursor) : c.Passes [] c := ⟨rfl, rfl, rfl⟩

theorem trans (h : c.Passes text c') (h' : c'.Passes text' c'') : c.Passes (text ++ text') c'' where
  rest := by rw [h.rest, h'.rest, List.append_assoc]
  offset := by rw [h'.offset, h.offset, List.length_append, Nat.add_assoc]
  position := by rw [h'.position, h.position, Position.afterAll_append]

theorem advance {ch : Char} {cs : List Char} (hc : c.rest = ch :: cs) :
    c.Passes [ch] c.advance := by
  simp only [Cursor.advance, hc]
  exact ⟨hc, rfl, rfl⟩

theorem pass (p : Char → Bool) (c : Cursor) : c.Passes (c.rest.takeWhile p) (c.pass p).2 :=
  ⟨List.takeWhile_append_dropWhile.symm, rfl, rfl⟩

theorem skipSpacing (c : Cursor) : c.Passes (c.rest.takeWhile Token.isSpacing) c.skipSpacing :=
  pass _ c

/-- A token moves the cursor over its own spelling. -/
theorem readToken (c : Cursor) : c.Passes c.readToken.1.literal.toList c.readToken.2 := by
  cases hc : c.rest with
  | nil =>
    rw [readToken_end hc]
    exact .refl c
  | cons ch cs =>
    have hfirst := advance hc
    unfold Cursor.readToken
    rw [hc]
    dsimp only
    split
    · rw [readNumber, String.toList_ofList]
      exact pass _ c
    · split
      · rw [readWord, String.toList_ofList]
        exact hfirst.trans (pass _ c.advance)
      · split
        next hassign =>
          simp only [Bool.and_eq_true, decide_eq_true_eq, peek?, hc, List.getElem?_cons_succ,
            ← List.head?_eq_getElem?] at hassign
          obtain ⟨cs', rfl⟩ := List.head?_eq_some_iff.1 hassign.2
          have hadvance : c.advance.rest = '=' :: cs' := by simp [Cursor.advance, hc]
          rw [hassign.1] at hfirst
          rw [show ":=".toList = [':'] ++ ['='] by decide]
          exact hfirst.trans (advance hadvance)
        next =>
          rw [show ch.toString.toList = [ch] by simp]
          exact hfirst

end Passes

/-- Reading all tokens moves the cursor to the end of the text. -/
theorem passes_tokens (c : Cursor) : c.Passes c.rest c.tokens.2 := by
  induction c using tokens.induct with
  | case1 c next =>
    rename_i hend
    have hrest : c.skipSpacing.rest = [] := kind_readToken_eq_endOfInput.1 hend
    have hspacing : c.rest.takeWhile Token.isSpacing = c.rest := by
      rw [← List.append_nil (c.rest.takeWhile _), ← hrest, c.spacing_append_skipSpacing]
    have hskip := Passes.skipSpacing c
    rw [hspacing] at hskip
    rwa [tokens, if_pos hend, nextToken, readToken_end hrest]
  | case2 c next hend =>
    rename_i ih
    have hread := Passes.readToken c.skipSpacing
    have hnext := (Passes.skipSpacing c).trans (hread.trans ih)
    rw [tokens, if_neg hend]
    rwa [show next.2.rest = c.skipSpacing.readToken.2.rest from rfl, ← hread.rest,
      ← (Passes.skipSpacing c).rest] at hnext

theorem take_end {c : Cursor} (hc : c.rest = []) (count : Nat) :
    (c.take count).1 = List.replicate count (Token.atEnd c.position) := by
  have hskip : c.skipSpacing = c := by
    obtain ⟨offset, position, rest⟩ := c
    obtain rfl : rest = [] := hc
    rfl
  have hnext : c.nextToken = (Token.atEnd c.position, c) := by
    rw [nextToken, hskip, readToken_end hc]
  induction count with
  | zero => rfl
  | succ count ih =>
    rw [take, hnext, List.replicate_succ, ← ih]

end Cursor

/-! ## The tokens of the language -/

namespace TokenKind

/-- The signs of one character. -/
def signTable : List (Char × TokenKind) :=
  [('(', openParen), (')', closeParen), ('{', openBrace), ('}', closeBrace), ('+', plus),
   ('-', minus), ('.', point), ('*', times), ('/', divide), ('=', equals), (';', semicolon)]

theorem ofWord_of_mem {w : String} {kind : TokenKind} (h : (w, kind) ∈ keywords) :
    ofWord w = kind := by
  have hall : ∀ entry ∈ keywords, ofWord entry.1 = entry.2 := forall_mem_of_all (by decide)
  exact hall _ h

theorem ofSign_of_mem {ch : Char} {kind : TokenKind} (h : (ch, kind) ∈ signTable) :
    ofSign ch = kind := by
  have hall : ∀ entry ∈ signTable, ofSign entry.1 = entry.2 := forall_mem_of_all (by decide)
  exact hall _ h

theorem ofSign_cases (ch : Char) :
    (ch, ofSign ch) ∈ signTable ∨ (ch ∉ signTable.map Prod.fst ∧ ofSign ch = illegal) := by
  by_cases hch : ch ∈ signTable.map Prod.fst
  · obtain ⟨⟨_, kind⟩, hmem, rfl⟩ := List.mem_map.1 hch
    rw [ofSign_of_mem hmem]
    exact .inl hmem
  · refine .inr ⟨hch, ?_⟩
    unfold ofSign
    split
    case h_12 => rfl
    all_goals exact absurd (by decide) hch

end TokenKind

namespace Token

/-- The tokens of the language, each with what may stand behind it: numbers and words are not
    continued, and a colon that stands alone is not followed by an equals sign. -/
inductive ReadBefore (rest : List Char) : Token → Prop
  | number {digits : List Char} {p : Position} (hne : digits ≠ [])
    (hdigits : ∀ ch ∈ digits, isDigit ch) (hstop : ∀ ch ∈ rest.head?, ¬ isDigit ch) :
    ReadBefore rest ⟨.integer, String.ofList digits, p⟩
  | keyword {w : String} {kind : TokenKind} {p : Position} (hw : IsWord w)
    (hkind : (w, kind) ∈ TokenKind.keywords) (hstop : ∀ ch ∈ rest.head?, ¬ isWordChar ch) :
    ReadBefore rest ⟨kind, w, p⟩
  | name {w : String} {p : Position} (hw : IsName w) (hstop : ∀ ch ∈ rest.head?, ¬ isWordChar ch) :
    ReadBefore rest ⟨.identifier, w, p⟩
  | assign {p : Position} : ReadBefore rest ⟨.assign, ":=", p⟩
  | sign {ch : Char} {kind : TokenKind} {p : Position} (hkind : (ch, kind) ∈ TokenKind.signTable) :
    ReadBefore rest ⟨kind, ch.toString, p⟩
  | illegal {ch : Char} {p : Position} (hspacing : ¬ isSpacing ch) (hword : ¬ isWordChar ch)
    (hsign : ch ∉ TokenKind.signTable.map Prod.fst) (hcolon : ch = ':' → rest.head? ≠ some '=') :
    ReadBefore rest ⟨.illegal, ch.toString, p⟩

/-- A token that can be read and is not continued is one of the language, wherever it stands. -/
theorem IsRead.readBefore {t : Token} {rest : List Char} (h : t.IsRead)
    (hstop : ∀ ch ∈ rest.head?, ¬ t.continuedBy ch) (p : Position) :
    ReadBefore rest ⟨t.kind, t.literal, p⟩ := by
  cases h with
  | @number first cs hdigits =>
    simp only [continuedBy_number (hdigits first List.mem_cons_self)] at hstop
    exact .number (List.cons_ne_nil _ _) hdigits hstop
  | @word w hw =>
    simp only [continuedBy_word hw] at hstop
    obtain hkey | ⟨hfree, hkind⟩ := ofWord_cases w
    · exact .keyword hw hkey hstop
    · rw [Token.word, hkind]
      exact .name ⟨hw, hfree⟩ hstop
  | assign => exact .assign
  | @sign ch hs hw =>
    obtain hsign | ⟨hnone, hkind⟩ := TokenKind.ofSign_cases ch
    · exact .sign hsign
    · rw [Token.sign, hkind]
      refine .illegal hs hw hnone ?_
      rintro rfl heq
      exact hstop '=' heq (by rw [continuedBy_sign hw]; rfl)

theorem not_isWordChar_of_mem_signTable {ch : Char} {kind : TokenKind}
    (h : (ch, kind) ∈ TokenKind.signTable) : ¬ isSpacing ch ∧ ¬ isWordChar ch ∧ ch ≠ ':' := by
  have hascii : ∀ entry ∈ TokenKind.signTable, entry.1.toNat < 128 ∧
      (('a' ≤ entry.1 && entry.1 ≤ 'z') || ('A' ≤ entry.1 && entry.1 ≤ 'Z') || entry.1 = '_' ||
        isDigit entry.1) = false ∧ ¬ isSpacing entry.1 ∧ entry.1 ≠ ':' :=
    forall_mem_of_all (by decide)
  obtain ⟨hch, hword, hspacing, hcolon⟩ := hascii _ h
  rw [isWordChar, isLetter_of_ascii hch, hword]
  exact ⟨hspacing, by decide, hcolon⟩

end Token

namespace Cursor

theorem readBefore_readToken {c : Cursor} (hs : ∀ ch ∈ c.rest.head?, ¬ Token.isSpacing ch)
    (hne : c.rest ≠ []) : c.readToken.1.ReadBefore c.readToken.2.rest := by
  obtain ⟨hread, -, hstop⟩ := readToken_spec hs hne
  have hbefore := hread.readBefore hstop c.readToken.1.position
  rwa [Token.unplaced_eq] at hbefore

/-- A word that is not continued is read whole. -/
theorem readToken_isWord {c : Cursor} {w : String} {rest : List Char} (hw : IsWord w)
    (hc : c.rest = w.toList ++ rest) (hstop : ∀ ch ∈ rest.head?, ¬ Token.isWordChar ch) :
    c.readToken.1 = ⟨TokenKind.ofWord w, w, c.position⟩ := by
  obtain ⟨first, cs, hlist, hfirst, hcs⟩ := hw.exists_cons
  rw [hlist, List.cons_append] at hc
  rw [(readToken_word hc (Token.not_isDigit_of_isLetter hfirst) hfirst).1,
    takeWhile_append_of_stop hcs hstop, ← hlist, String.ofList_toList]

/-- A character that is no part of a word or a number, nor of an assignment sign, is read alone. -/
theorem readToken_lone {c : Cursor} {ch : Char} {rest : List Char} (hword : ¬ Token.isWordChar ch)
    (hcolon : ch = ':' → rest.head? ≠ some '=') (hc : c.rest = ch.toString.toList ++ rest) :
    c.readToken.1 = ⟨TokenKind.ofSign ch, ch.toString, c.position⟩ := by
  simp only [Token.isWordChar, Bool.or_eq_true, not_or] at hword
  rw [show ch.toString.toList = [ch] by simp, List.singleton_append] at hc
  exact (readToken_sign hc hword.2 hword.1 hcolon).1

end Cursor

namespace Token.ReadBefore

variable {t : Token} {rest : List Char}

/-- A token of the language is read from its spelling. -/
theorem readToken (h : t.ReadBefore rest) {c : Cursor} (hc : c.rest = t.literal.toList ++ rest) :
    c.readToken.1 = ⟨t.kind, t.literal, c.position⟩ := by
  cases h with
  | @number digits p hne hdigits hstop =>
    obtain ⟨first, cs, rfl⟩ := List.exists_cons_of_ne_nil hne
    obtain ⟨hfirst, hcs⟩ := List.forall_mem_cons.1 hdigits
    rw [String.toList_ofList, List.cons_append] at hc
    rw [(Cursor.readToken_number hc hfirst).1, takeWhile_append_of_stop hcs hstop]
  | @keyword w kind p hw hkind hstop =>
    rw [Cursor.readToken_isWord hw hc hstop, TokenKind.ofWord_of_mem hkind]
  | name hw hstop => rw [Cursor.readToken_isWord hw.toIsWord hc hstop, hw.ofWord]
  | assign => exact (Cursor.readToken_assign (by simpa using hc)).1
  | @sign ch kind p hkind =>
    obtain ⟨-, hword, hcolon⟩ := not_isWordChar_of_mem_signTable hkind
    rw [Cursor.readToken_lone hword (fun h => absurd h hcolon) hc, TokenKind.ofSign_of_mem hkind]
  | @illegal ch p hspacing hword hsign hcolon =>
    obtain hmem | ⟨-, hkind⟩ := TokenKind.ofSign_cases ch
    · exact absurd (List.mem_map_of_mem hmem) hsign
    · rw [Cursor.readToken_lone hword hcolon hc, hkind]

/-- A token starts with a character that is no spacing. -/
theorem exists_literal_eq (h : t.ReadBefore rest) :
    ∃ first cs, t.literal.toList = first :: cs ∧ ¬ isSpacing first := by
  cases h with
  | @number digits p hne hdigits hstop =>
    obtain ⟨first, cs, rfl⟩ := List.exists_cons_of_ne_nil hne
    exact ⟨first, cs, String.toList_ofList,
      not_isSpacing_of_isDigit (hdigits first List.mem_cons_self)⟩
  | keyword hw hkind hstop =>
    obtain ⟨first, cs, hlist, hfirst, -⟩ := hw.exists_cons
    exact ⟨first, cs, hlist, not_isSpacing_of_isLetter hfirst⟩
  | name hw hstop =>
    obtain ⟨first, cs, hlist, hfirst, -⟩ := hw.toIsWord.exists_cons
    exact ⟨first, cs, hlist, not_isSpacing_of_isLetter hfirst⟩
  | assign => exact ⟨':', ['='], by simp, by decide⟩
  | @sign ch kind p hkind => exact ⟨ch, [], by simp, (not_isWordChar_of_mem_signTable hkind).1⟩
  | @illegal ch p hspacing hword hsign hcolon => exact ⟨ch, [], by simp, hspacing⟩

end Token.ReadBefore

/-! ## Cutting a text -/

/-- Pieces that stand in a row behind the text before them: each token is of the language, stands
    where counting says, and is followed by spacing. -/
inductive Laid : List Char → List Piece → Prop
  | nil {before : List Char} : Laid before []
  | cons {before : List Char} {p : Piece} {pieces : List Piece}
    (hread : p.token.ReadBefore (p.gap ++ textOf pieces))
    (hplace : p.token.position = Position.behind before)
    (hgap : ∀ ch ∈ p.gap, Token.isSpacing ch) (hpieces : Laid (before ++ p.text) pieces) :
    Laid before (p :: pieces)

/-- The layout cuts the text into the tokens, of which the last stands at the end of the text. -/
structure Layout.Decomposes (l : Layout) (source : String) (tokens : List Token) : Prop where
  text : l.source = source
  lead : ∀ ch ∈ l.lead, Token.isSpacing ch
  pieces : Laid l.lead l.pieces
  tokens : tokens = l.tokens ++ [Token.atEnd (Position.behind source.toList)]

theorem Laid.not_isSpacing_head {before : List Char} {pieces : List Piece}
    (h : Laid before pieces) : ∀ ch ∈ (textOf pieces).head?, ¬ Token.isSpacing ch := by
  cases h with
  | nil => simp
  | cons hread =>
    obtain ⟨first, cs, hliteral, hfirst⟩ := hread.exists_literal_eq
    rw [textOf_cons, hliteral]
    rintro _ ⟨⟩
    exact hfirst

namespace Cursor

variable {c : Cursor}

/-- Spacing is moved over whole. -/
theorem passes_gap {gap rest : List Char} (hc : c.rest = gap ++ rest)
    (hgap : ∀ ch ∈ gap, Token.isSpacing ch) (hrest : ∀ ch ∈ rest.head?, ¬ Token.isSpacing ch) :
    c.Passes gap c.skipSpacing ∧ c.skipSpacing.rest = rest := by
  have hskip := Passes.skipSpacing c
  rw [hc, takeWhile_append_of_stop hgap hrest] at hskip
  exact ⟨hskip, List.append_cancel_left (hskip.rest.symm.trans hc)⟩

/-- Pieces that stand where the cursor does are what is read there. -/
theorem tokens_of_laid {before : List Char} {pieces : List Piece} (h : Laid before pieces)
    (hrest : c.skipSpacing.rest = textOf pieces)
    (hplace : c.skipSpacing.position = Position.behind before) :
    c.tokens.1 = pieces.map Piece.token ++
      [Token.atEnd (Position.behind (before ++ textOf pieces))] := by
  induction h generalizing c with
  | nil =>
    rw [textOf_nil] at hrest
    have hend : c.nextToken = (Token.atEnd c.skipSpacing.position, c.skipSpacing) :=
      readToken_end hrest
    rw [tokens_end (by rw [hend]; rfl), hend, hplace, textOf_nil, List.append_nil]
    rfl
  | @cons before p pieces hread hposition hgap hpieces ih =>
    have hne : c.nextToken.1.kind ≠ .endOfInput := by
      obtain ⟨first, cs, hliteral, -⟩ := hread.exists_literal_eq
      intro hend
      rw [kind_readToken_eq_endOfInput.1 hend, textOf_cons, hliteral] at hrest
      cases hrest
    rw [textOf_cons] at hrest
    have htoken : c.nextToken.1 = p.token := by
      rw [nextToken, hread.readToken hrest, hplace, ← hposition]
    -- the cursor moves over the token and over the spacing behind it
    have hpass : c.skipSpacing.Passes p.token.literal.toList c.nextToken.2 :=
      htoken ▸ Passes.readToken c.skipSpacing
    have hbehind : c.nextToken.2.rest = p.gap ++ textOf pieces :=
      List.append_cancel_left (hpass.rest.symm.trans hrest)
    obtain ⟨hspacing, hskip⟩ := passes_gap hbehind hgap hpieces.not_isSpacing_head
    have hnext : c.nextToken.2.skipSpacing.position = Position.behind (before ++ p.text) := by
      rw [(hpass.trans hspacing).position, hplace, Piece.text, Position.behind_append]
    rw [tokens_next hne, ih hskip hnext, htoken, textOf_cons, Piece.text, List.append_assoc,
      List.append_assoc]
    rfl

/-- What a cursor has in front can be cut. -/
theorem exists_laid (c : Cursor) {before : List Char}
    (hplace : c.skipSpacing.position = Position.behind before) :
    ∃ pieces, Laid before pieces ∧ textOf pieces = c.skipSpacing.rest := by
  induction c using tokens.induct generalizing before with
  | case1 c next =>
    rename_i hend
    exact ⟨[], .nil, (kind_readToken_eq_endOfInput.1 hend).symm⟩
  | case2 c next hend =>
    rename_i ih
    have hne : c.skipSpacing.rest ≠ [] := fun h => hend (kind_readToken_eq_endOfInput.2 h)
    have hpass := Passes.readToken c.skipSpacing
    have hspacing := Passes.skipSpacing next.2
    let p : Piece := ⟨next.1, next.2.rest.takeWhile Token.isSpacing⟩
    have hnext : next.2.skipSpacing.position = Position.behind (before ++ p.text) := by
      rw [Position.behind_append, ← hplace]
      exact (hpass.trans hspacing).position
    obtain ⟨pieces, hlaid, htext⟩ := ih hnext
    have hbehind : p.gap ++ textOf pieces = next.2.rest := by
      rw [htext]
      exact next.2.spacing_append_skipSpacing
    refine ⟨p :: pieces, .cons ?_ ?_ (List.all_eq_true.1 List.all_takeWhile) hlaid, ?_⟩
    · rw [hbehind]
      exact readBefore_readToken c.not_isSpacing_head_skipSpacing hne
    · exact (position_readToken _).trans hplace
    · rw [textOf_cons, hbehind]
      exact hpass.rest.symm

end Cursor

/-- The pieces of a text are what is read from it. -/
theorem tokenize_of_laid {source : String} {l : Layout} (htext : l.source = source)
    (hlead : ∀ ch ∈ l.lead, Token.isSpacing ch) (hpieces : Laid l.lead l.pieces) :
    tokenize source = l.tokens ++ [Token.atEnd (Position.behind source.toList)] := by
  have hrest : source.toList = l.lead ++ textOf l.pieces := by
    rw [← htext, Layout.source, String.toList_ofList]
  obtain ⟨hpass, hskip⟩ :=
    Cursor.passes_gap (c := Cursor.ofSource source) hrest hlead hpieces.not_isSpacing_head
  rw [hrest]
  exact Cursor.tokens_of_laid hpieces hskip (hpass.position.trans (Position.afterAll_start _))

theorem exists_layout (source : String) :
    ∃ l : Layout, l.source = source ∧ (∀ ch ∈ l.lead, Token.isSpacing ch) ∧
      Laid l.lead l.pieces := by
  have hskip := Cursor.Passes.skipSpacing (Cursor.ofSource source)
  obtain ⟨pieces, hlaid, htext⟩ := (Cursor.ofSource source).exists_laid
    (hskip.position.trans (Position.afterAll_start _))
  refine ⟨⟨source.toList.takeWhile Token.isSpacing, pieces⟩, ?_,
    List.all_eq_true.1 List.all_takeWhile, hlaid⟩
  have hrest : source.toList.takeWhile Token.isSpacing ++ textOf pieces = source.toList := by
    rw [htext]
    exact (Cursor.ofSource source).spacing_append_skipSpacing
  rw [Layout.source, hrest, String.ofList_toList]

/-- A text can be cut into tokens of the language and spacing in one way only. The tokens of that
    way, with the end token behind them, are those that are read, and from then on the same end
    token is read again and again. -/
theorem tokenize_unique_decomposition (source : String) :
    (∀ tokens, (∃ l : Layout, l.Decomposes source tokens) ↔ tokens = tokenize source) ∧
      ∀ count, ((Cursor.ofSource source).tokens.2.take count).1 =
        List.replicate count (Token.atEnd (Position.behind source.toList)) := by
  refine ⟨fun tokens => ⟨?_, ?_⟩, fun count => ?_⟩
  · rintro ⟨l, htext, hlead, hpieces, htokens⟩
    rw [htokens, tokenize_of_laid htext hlead hpieces]
  · rintro rfl
    obtain ⟨l, htext, hlead, hpieces⟩ := exists_layout source
    exact ⟨l, htext, hlead, hpieces, tokenize_of_laid htext hlead hpieces⟩
  · have hpass := (Cursor.ofSource source).passes_tokens
    have hend : (Cursor.ofSource source).tokens.2.rest = [] :=
      List.self_eq_append_right.1 hpass.rest
    have hplace : (Cursor.ofSource source).tokens.2.position = Position.behind source.toList :=
      hpass.position.trans (Position.afterAll_start _)
    rw [Cursor.take_end hend, hplace]

end Castellano
