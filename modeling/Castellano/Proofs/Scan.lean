import Castellano.Proofs.Relabel

/-!
# The tokens of a text, without positions

Which tokens a text has depends on its characters alone, not on where it stands. `scan` lists them
without positions and without the end token, and is described by one equation for each way a token
can start.

* `scan_spacing`, `scan_number`, `scan_word`, `scan_assign`, `scan_sign`: the equations.
* `scan_append`: a text can be cut before any character that continues no token.
* `TokenStream.Ended`: only the end token of a stream ends it, as in the stream of every source.
* `TokenStream.unplaced_ofSource`: the stream of a source is made of the tokens that `scan` lists.
-/

namespace Castellano

/-- What a check of each member shows. A statement about the members of a short list is evaluated in
    this form, and never by running through all characters. -/
theorem forall_mem_of_all {α : Type} {l : List α} {p : α → Prop} [DecidablePred p]
    (h : l.all fun a => decide (p a)) : ∀ a ∈ l, p a :=
  fun a ha => of_decide_eq_true (List.all_eq_true.1 h a ha)

/-! ## Classes of characters -/

namespace Token

theorem not_isSpacing_of_isDigit {ch : Char} (h : isDigit ch) : ¬ isSpacing ch := by
  intro hs
  simp only [isSpacing, Bool.or_eq_true, decide_eq_true_eq] at hs
  rcases hs with (rfl | rfl) | rfl <;> exact absurd h (by decide)

theorem not_ascii_of_mem_accented : ∀ ch ∈ accented, ¬ ch.toNat < 128 :=
  forall_mem_of_all (by decide)

/-- Among the ASCII characters, the letters are known without a look at the accented ones. -/
theorem isLetter_of_ascii {ch : Char} (h : ch.toNat < 128) :
    isLetter ch = (('a' ≤ ch && ch ≤ 'z') || ('A' ≤ ch && ch ≤ 'Z') || ch = '_') := by
  have haccented : accented.contains ch = false := by
    rw [Bool.eq_false_iff]
    intro hmem
    exact not_ascii_of_mem_accented ch (List.contains_iff_mem.1 hmem) h
  rw [isLetter, haccented, Bool.or_false]

theorem not_isSpacing_of_isLetter {ch : Char} (h : isLetter ch) : ¬ isSpacing ch := by
  intro hs
  simp only [isSpacing, Bool.or_eq_true, decide_eq_true_eq] at hs
  have hascii : ch.toNat < 128 := by
    rcases hs with (rfl | rfl) | rfl <;> decide
  rw [isLetter_of_ascii hascii] at h
  rcases hs with (rfl | rfl) | rfl <;> exact absurd h (by decide)

theorem not_isDigit_of_isLetter {ch : Char} (h : isLetter ch) : ¬ isDigit ch := by
  intro hd
  simp only [isDigit, Bool.and_eq_true, decide_eq_true_eq] at hd
  have hascii : ch.toNat < 128 :=
    Nat.lt_of_le_of_lt (show ch.toNat ≤ '9'.toNat from hd.2) (by decide)
  simp only [isLetter_of_ascii hascii, Bool.or_eq_true, Bool.and_eq_true, decide_eq_true_eq] at h
  rcases h with (⟨h, -⟩ | ⟨h, -⟩) | rfl
  · exact absurd (Char.le_trans h hd.2) (by decide)
  · exact absurd (Char.le_trans h hd.2) (by decide)
  · exact absurd hd.2 (by decide)

end Token

namespace Cursor

/-! ## The token in front -/

section Read

variable {c : Cursor} {ch : Char} {cs : List Char}

theorem readToken_end (hc : c.rest = []) : c.readToken = (Token.atEnd c.position, c) := by
  simp [readToken, hc]

theorem readToken_number (hc : c.rest = ch :: cs) (hd : Token.isDigit ch) :
    c.readToken.1 = ⟨.integer, String.ofList (ch :: cs.takeWhile Token.isDigit), c.position⟩ ∧
      c.readToken.2.rest = cs.dropWhile Token.isDigit := by
  simp [readToken, readNumber, pass, hc, hd]

theorem readToken_word (hc : c.rest = ch :: cs) (hd : ¬ Token.isDigit ch) (hl : Token.isLetter ch) :
    c.readToken.1 = ⟨TokenKind.ofWord (String.ofList (ch :: cs.takeWhile Token.isWordChar)),
        String.ofList (ch :: cs.takeWhile Token.isWordChar), c.position⟩ ∧
      c.readToken.2.rest = cs.dropWhile Token.isWordChar := by
  simp [readToken, readWord, pass, advance, hc, hd, hl]

theorem readToken_assign (hc : c.rest = ':' :: '=' :: cs) :
    c.readToken.1 = ⟨.assign, ":=", c.position⟩ ∧ c.readToken.2.rest = cs := by
  have hd : Token.isDigit ':' = false := by decide
  have hl : Token.isLetter ':' = false := Token.isLetter_of_ascii (by decide)
  simp [readToken, peek?, advance, hc, hd, hl]

theorem readToken_sign (hc : c.rest = ch :: cs) (hd : ¬ Token.isDigit ch) (hl : ¬ Token.isLetter ch)
    (ha : ch = ':' → cs.head? ≠ some '=') :
    c.readToken.1 = ⟨TokenKind.ofSign ch, ch.toString, c.position⟩ ∧ c.readToken.2.rest = cs := by
  have hassign : ¬ (ch = ':' ∧ cs[0]? = some '=') := by
    rintro ⟨h1, h2⟩
    exact ha h1 (by rw [← h2, List.head?_eq_getElem?])
  simp [readToken, peek?, hc, hd, hl, hassign, advance]

/-- A token starts in one of four ways: as a number, as a word, as the assignment sign, or as a
    single sign. -/
theorem start_cases (ch : Char) (cs : List Char) :
    Token.isDigit ch ∨ (¬ Token.isDigit ch ∧ Token.isLetter ch) ∨
      (ch = ':' ∧ ∃ cs', cs = '=' :: cs') ∨
      (¬ Token.isDigit ch ∧ ¬ Token.isLetter ch ∧ (ch = ':' → cs.head? ≠ some '=')) := by
  by_cases hd : Token.isDigit ch
  · exact .inl hd
  by_cases hl : Token.isLetter ch
  · exact .inr (.inl ⟨hd, hl⟩)
  by_cases ha : ch = ':' ∧ cs.head? = some '='
  · obtain ⟨cs', hcs⟩ := List.head?_eq_some_iff.1 ha.2
    exact .inr (.inr (.inl ⟨ha.1, cs', hcs⟩))
  · exact .inr (.inr (.inr ⟨hd, hl, fun h1 h2 => ha ⟨h1, h2⟩⟩))

theorem position_readToken (c : Cursor) : c.readToken.1.position = c.position := by
  unfold readToken
  split
  · rfl
  · split
    · rfl
    · split
      · rfl
      · split <;> rfl

end Read

/-! ## Reading does not depend on the place -/

theorem unplaced_readToken {c d : Cursor} (h : c.rest = d.rest) :
    c.readToken.1.unplaced = d.readToken.1.unplaced ∧ c.readToken.2.rest = d.readToken.2.rest := by
  cases hd : d.rest with
  | nil =>
    rw [readToken_end (h.trans hd), readToken_end hd]
    exact ⟨by simp [Token.unplaced_eq, Token.atEnd], h⟩
  | cons ch cs =>
    have hc := h.trans hd
    obtain h1 | ⟨h1, h2⟩ | ⟨rfl, cs', rfl⟩ | ⟨h1, h2, h3⟩ := start_cases ch cs
    · simp [readToken_number hc h1, readToken_number hd h1, Token.unplaced_eq]
    · simp [readToken_word hc h1 h2, readToken_word hd h1 h2, Token.unplaced_eq]
    · simp [readToken_assign hc, readToken_assign hd, Token.unplaced_eq]
    · simp [readToken_sign hc h1 h2 h3, readToken_sign hd h1 h2 h3, Token.unplaced_eq]

theorem unplaced_nextToken {c d : Cursor} (h : c.rest = d.rest) :
    c.nextToken.1.unplaced = d.nextToken.1.unplaced ∧ c.nextToken.2.rest = d.nextToken.2.rest := by
  apply unplaced_readToken
  simp [skipSpacing, pass, h]

theorem tokens_end {c : Cursor} (h : c.nextToken.1.kind = .endOfInput) :
    c.tokens.1 = [c.nextToken.1] := by
  rw [tokens, if_pos h]

theorem tokens_next {c : Cursor} (h : c.nextToken.1.kind ≠ .endOfInput) :
    c.tokens.1 = c.nextToken.1 :: c.nextToken.2.tokens.1 := by
  rw [tokens, if_neg h]

theorem unplaced_tokens {c d : Cursor} (h : c.rest = d.rest) :
    c.tokens.1.map Token.unplaced = d.tokens.1.map Token.unplaced := by
  induction c using tokens.induct generalizing d with
  | case1 c next =>
    rename_i hend
    obtain ⟨ht, -⟩ := unplaced_nextToken h
    have hkind : c.nextToken.1.kind = d.nextToken.1.kind := by
      simpa [Token.unplaced_eq] using congrArg Token.kind ht
    rw [tokens_end hend, tokens_end (hkind.symm.trans hend), List.map_singleton, ht,
      List.map_singleton]
  | case2 c next hend =>
    rename_i ih
    obtain ⟨ht, hr⟩ := unplaced_nextToken h
    have hkind : c.nextToken.1.kind = d.nextToken.1.kind := by
      simpa [Token.unplaced_eq] using congrArg Token.kind ht
    rw [tokens_next hend, tokens_next fun h' => hend (hkind.trans h'), List.map_cons,
      List.map_cons, ht, ih hr]

theorem tokens_ne_nil (c : Cursor) : c.tokens.1 ≠ [] := by
  rw [tokens]
  split <;> simp

end Cursor

/-! ## Scanning -/

/-- The tokens of a text without their positions, up to the end token. -/
def scan (cs : List Char) : List Token :=
  (Cursor.mk 0 Position.start cs).tokens.1.dropLast.map Token.unplaced

theorem scan_rest (c : Cursor) : c.tokens.1.dropLast.map Token.unplaced = scan c.rest := by
  rw [scan, List.map_dropLast, List.map_dropLast,
    @Cursor.unplaced_tokens c ⟨0, Position.start, c.rest⟩ rfl]

theorem scan_end {c : Cursor} (h : c.nextToken.1.kind = .endOfInput) : scan c.rest = [] := by
  rw [← scan_rest, Cursor.tokens_end h]
  rfl

theorem scan_next {c : Cursor} (h : c.nextToken.1.kind ≠ .endOfInput) :
    scan c.rest = c.nextToken.1.unplaced :: scan c.nextToken.2.rest := by
  rw [← scan_rest, ← scan_rest, Cursor.tokens_next h,
    List.dropLast_cons_of_ne_nil (Cursor.tokens_ne_nil _), List.map_cons]

@[simp]
theorem scan_nil : scan [] = [] := by
  have h : (Cursor.mk 0 Position.start []).nextToken.1.kind = .endOfInput := rfl
  exact scan_end h

theorem scan_spacing {ch : Char} (h : Token.isSpacing ch) (cs : List Char) :
    scan (ch :: cs) = scan cs := by
  have hskip : (Cursor.mk 0 Position.start (ch :: cs)).skipSpacing.rest =
      (Cursor.mk 0 Position.start cs).skipSpacing.rest := by
    simp [Cursor.skipSpacing, Cursor.pass, h]
  obtain ⟨ht, hr⟩ := Cursor.unplaced_readToken hskip
  have hkind := congrArg Token.kind ht
  simp only [Token.unplaced_eq] at hkind
  by_cases hend : (Cursor.mk 0 Position.start cs).nextToken.1.kind = .endOfInput
  · rw [scan_end (c := ⟨0, Position.start, ch :: cs⟩) (hkind.trans hend),
      scan_end (c := ⟨0, Position.start, cs⟩) hend]
  · rw [scan_next (c := ⟨0, Position.start, ch :: cs⟩) (fun h' => hend (hkind.symm.trans h')),
      scan_next (c := ⟨0, Position.start, cs⟩) hend]
    simp only [Cursor.nextToken] at ht hr ⊢
    rw [ht, hr]

/-- The token that a text without leading spacing starts with, and the rest of the text. -/
theorem scan_cons {ch : Char} {cs rest : List Char} {kind : TokenKind} {literal : String}
    (hs : ¬ Token.isSpacing ch) (hkind : kind ≠ .endOfInput)
    (hread : ∀ c : Cursor, c.rest = ch :: cs →
      c.readToken.1 = ⟨kind, literal, c.position⟩ ∧ c.readToken.2.rest = rest) :
    scan (ch :: cs) = ⟨kind, literal, {}⟩ :: scan rest := by
  have hskip : (Cursor.mk 0 Position.start (ch :: cs)).skipSpacing.rest = ch :: cs := by
    simp [Cursor.skipSpacing, Cursor.pass, hs]
  obtain ⟨ht, hr⟩ := hread _ hskip
  have hnext : (Cursor.mk 0 Position.start (ch :: cs)).nextToken.1.kind ≠ .endOfInput := by
    rw [Cursor.nextToken, ht]
    exact hkind
  rw [scan_next (c := ⟨0, Position.start, ch :: cs⟩) hnext, Cursor.nextToken, ht, hr,
    Token.unplaced_eq]

theorem scan_number {ch : Char} (hd : Token.isDigit ch) (cs : List Char) :
    scan (ch :: cs) = ⟨.integer, String.ofList (ch :: cs.takeWhile Token.isDigit), {}⟩ ::
      scan (cs.dropWhile Token.isDigit) :=
  scan_cons (Token.not_isSpacing_of_isDigit hd) (by simp) fun _ hc => Cursor.readToken_number hc hd

theorem scan_word {ch : Char} (hl : Token.isLetter ch) (cs : List Char) :
    scan (ch :: cs) = ⟨TokenKind.ofWord (String.ofList (ch :: cs.takeWhile Token.isWordChar)),
        String.ofList (ch :: cs.takeWhile Token.isWordChar), {}⟩ ::
      scan (cs.dropWhile Token.isWordChar) :=
  scan_cons (Token.not_isSpacing_of_isLetter hl) (TokenKind.ofWord_ne_endOfInput _) fun _ hc =>
    Cursor.readToken_word hc (Token.not_isDigit_of_isLetter hl) hl

theorem scan_assign (cs : List Char) : scan (':' :: '=' :: cs) = ⟨.assign, ":=", {}⟩ :: scan cs :=
  scan_cons (by decide) (by simp) fun _ hc => Cursor.readToken_assign hc

theorem scan_sign {ch : Char} {cs : List Char} (hs : ¬ Token.isSpacing ch)
    (hw : ¬ Token.isWordChar ch) (ha : ch = ':' → cs.head? ≠ some '=') :
    scan (ch :: cs) = ⟨TokenKind.ofSign ch, ch.toString, {}⟩ :: scan cs := by
  simp only [Token.isWordChar, Bool.or_eq_true, not_or] at hw
  exact scan_cons hs (TokenKind.ofSign_ne_endOfInput _) fun _ hc =>
    Cursor.readToken_sign hc hw.2 hw.1 ha

theorem takeWhile_append_cons {α : Type} {p : α → Bool} {stop : α} (hp : ¬ p stop) (a b : List α) :
    (a ++ stop :: b).takeWhile p = a.takeWhile p := by
  induction a with
  | nil => simp [hp]
  | cons x a ih => by_cases hx : p x <;> simp [hx, ih]

theorem dropWhile_append_cons {α : Type} {p : α → Bool} {stop : α} (hp : ¬ p stop) (a b : List α) :
    (a ++ stop :: b).dropWhile p = a.dropWhile p ++ stop :: b := by
  induction a with
  | nil => simp [hp]
  | cons x a ih => by_cases hx : p x <;> simp [hx, ih]

/-- A text can be cut before a character that continues neither a word nor a number nor the
    assignment sign: the tokens of the two parts are the tokens of the whole. -/
theorem scan_append {ch : Char} (hw : ¬ Token.isWordChar ch) (he : ch ≠ '=') (a b : List Char) :
    scan (a ++ ch :: b) = scan a ++ scan (ch :: b) := by
  have hd : ¬ Token.isDigit ch := by
    intro h
    simp [Token.isWordChar, h] at hw
  have hshort : ∀ (p : Char → Bool) (cs : List Char), (cs.dropWhile p).length ≤ cs.length :=
    fun p cs => (List.dropWhile_suffix p).length_le
  induction hn : a.length using Nat.strongRecOn generalizing a with
  | ind n ih =>
    cases a with
    | nil => simp
    | cons x cs =>
      rw [List.length_cons] at hn
      by_cases hx : Token.isSpacing x
      · rw [List.cons_append, scan_spacing hx, scan_spacing hx, ih cs.length (by omega) cs rfl]
      obtain h1 | ⟨-, h2⟩ | ⟨rfl, cs', rfl⟩ | ⟨h1, h2, h3⟩ := Cursor.start_cases x cs
      · have hlt := hshort Token.isDigit cs
        rw [List.cons_append, scan_number h1, scan_number h1, takeWhile_append_cons hd,
          dropWhile_append_cons hd, ih _ (by omega) _ rfl, List.cons_append]
      · have hlt := hshort Token.isWordChar cs
        rw [List.cons_append, scan_word h2, scan_word h2, takeWhile_append_cons hw,
          dropWhile_append_cons hw, ih _ (by omega) _ rfl, List.cons_append]
      · rw [List.cons_append, List.cons_append, scan_assign, scan_assign,
          ih cs'.length (by simp at hn; omega) cs' rfl, List.cons_append]
      · have h12 : ¬ Token.isWordChar x := by simp [Token.isWordChar, h1, h2]
        have h3' : x = ':' → (cs ++ ch :: b).head? ≠ some '=' := by
          intro hx'
          cases cs with
          | nil => simpa using he
          | cons y cs => exact h3 hx'
        rw [List.cons_append, scan_sign hx h12 h3', scan_sign hx h12 h3,
          ih cs.length (by omega) cs rfl, List.cons_append]

/-! ## Streams -/

/-- The tokens before the end are no end tokens, and the last token is one. -/
structure TokenStream.Ended (s : TokenStream) : Prop where
  upcoming : ∀ t ∈ s.upcoming, t.kind ≠ .endOfInput
  last : s.last.kind = .endOfInput

/-- Reading a text gives tokens that are not the end token, and then the end token. -/
theorem Cursor.exists_tokens_eq (c : Cursor) :
    ∃ init p, c.tokens.1 = init ++ [Token.atEnd p] ∧ ∀ t ∈ init, t.kind ≠ .endOfInput := by
  induction c using tokens.induct with
  | case1 c next =>
    rename_i hend
    have hrest : c.skipSpacing.rest = [] := kind_readToken_eq_endOfInput.1 hend
    refine ⟨[], c.skipSpacing.position, ?_, by simp⟩
    rw [tokens_end hend, nextToken, readToken_end hrest, List.nil_append]
  | case2 c next hend =>
    rename_i ih
    obtain ⟨init, p, heq, hinit⟩ := ih
    refine ⟨c.nextToken.1 :: init, p, ?_, ?_⟩
    · rw [tokens_next hend, heq, List.cons_append]
    · rintro t (_ | ⟨_, ht⟩)
      · exact hend
      · exact hinit t ht

/-- Without positions, the tokens of a source are those that its text scans to, and the end. -/
theorem tokenize_unplaced (source : String) :
    (tokenize source).map Token.unplaced = scan source.toList ++ [Token.atEnd {}] := by
  obtain ⟨init, p, hinit, -⟩ := (Cursor.ofSource source).exists_tokens_eq
  have hscan := scan_rest (Cursor.ofSource source)
  rw [hinit, List.dropLast_concat] at hscan
  rw [tokenize, hinit, List.map_append, hscan]
  rfl

namespace TokenStream

theorem ofSource_eq {source : String} {init : List Token} {p : Position}
    (h : tokenize source = init ++ [Token.atEnd p]) : ofSource source = ⟨init, Token.atEnd p⟩ := by
  simp [ofSource, ofTokens, h]

theorem ended_ofSource (source : String) : (ofSource source).Ended := by
  obtain ⟨init, p, heq, hinit⟩ := (Cursor.ofSource source).exists_tokens_eq
  rw [ofSource_eq heq]
  exact ⟨hinit, rfl⟩

/-- Without positions, the stream of a source is made of the tokens that its text scans to. -/
theorem unplaced_ofSource (source : String) :
    (ofSource source).unplaced = ⟨scan source.toList, Token.atEnd {}⟩ := by
  obtain ⟨init, p, heq, -⟩ := (Cursor.ofSource source).exists_tokens_eq
  have hscan := scan_rest (Cursor.ofSource source)
  rw [heq, List.dropLast_concat] at hscan
  rw [ofSource_eq heq, show source.toList = (Cursor.ofSource source).rest from rfl, ← hscan]
  rfl

end TokenStream

end Castellano
