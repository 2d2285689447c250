import Castellano.Token.Basic

/-!
# Reading tokens

A cursor stands in a source text: it knows how many characters lie behind it, the position of the
character in front of it, and the characters still to be read. Its movements are total: at the end
of the text they stay there.

* `Cursor.advance`, `Cursor.pass` — the movements, over one character and over a longest run.
* `Cursor.nextToken` — the next token, behind any spacing.
* `Cursor.tokens`, `tokenize` — all tokens up to the end of the text.
* `Cursor.Move`, `Cursor.perform` — the movements as data, for any sequence of them.
-/

namespace Castellano

/-- A place in a text that is being read. -/
structure Cursor where
  /-- How many characters lie behind. -/
  offset : Nat
  /-- The position of the next character, or of the end of the text. -/
  position : Position
  /-- The characters still to be read. -/
  rest : List Char
deriving DecidableEq, Repr, Inhabited

namespace Cursor

/-- The cursor before the first character of a text. -/
def ofSource (source : String) : Cursor := ⟨0, Position.start, source.toList⟩

/-- The character in front of the cursor. -/
def current? (c : Cursor) : Option Char := c.rest.head?

/-- The character behind the current one. -/
def peek? (c : Cursor) : Option Char := c.rest[1]?

/-- Moves over one character; at the end of the text there is nothing to move over. -/
def advance (c : Cursor) : Cursor :=
  match c.rest with
  | [] => c
  | ch :: rest => ⟨c.offset + 1, c.position.after ch, rest⟩

/-- Moves over the longest run of characters that satisfy `p`, and returns the run. -/
def pass (p : Char → Bool) (c : Cursor) : List Char × Cursor :=
  let run := c.rest.takeWhile p
  (run, ⟨c.offset + run.length, c.position.afterAll run, c.rest.dropWhile p⟩)

/-- Moves over spacing. -/
def skipSpacing (c : Cursor) : Cursor := (c.pass Token.isSpacing).2

/-- Reads the longest run of digits, which may be empty. -/
def readNumber (c : Cursor) : String × Cursor :=
  let (digits, c) := c.pass Token.isDigit
  (String.ofList digits, c)

/-- Reads the word whose first character, `first`, is the current one: it goes on with the longest
    run of letters and digits behind it. -/
def readWord (first : Char) (c : Cursor) : String × Cursor :=
  let (run, c) := c.advance.pass Token.isWordChar
  (String.ofList (first :: run), c)

/-- Reads a word that starts with the current character, whatever that is. At the end of the text
    there is no word. -/
def readWord? (c : Cursor) : Option (String × Cursor) := c.current?.map fun ch => c.readWord ch

/-- Reads the token that starts with the current character: a number, a word, the assignment sign,
    or a single sign. At the end of the text it is the end token. -/
def readToken (c : Cursor) : Token × Cursor :=
  match c.rest with
  | [] => (Token.atEnd c.position, c)
  | ch :: _ =>
    if Token.isDigit ch then
      let (number, next) := c.readNumber
      (⟨.integer, number, c.position⟩, next)
    else if Token.isLetter ch then
      let (word, next) := c.readWord ch
      (⟨TokenKind.ofWord word, word, c.position⟩, next)
    else if ch = ':' && c.peek? = some '=' then (⟨.assign, ":=", c.position⟩, c.advance.advance)
    else (⟨TokenKind.ofSign ch, ch.toString, c.position⟩, c.advance)

/-- Reads the next token behind any spacing. -/
def nextToken (c : Cursor) : Token × Cursor := c.skipSpacing.readToken

/-! ## Progress -/

theorem length_rest_advance_le (c : Cursor) : c.advance.rest.length ≤ c.rest.length := by
  unfold advance
  split <;> simp_all

theorem length_rest_advance_lt {c : Cursor} (h : c.rest ≠ []) :
    c.advance.rest.length < c.rest.length := by
  unfold advance
  split <;> simp_all

theorem length_rest_pass_le (p : Char → Bool) (c : Cursor) :
    (c.pass p).2.rest.length ≤ c.rest.length :=
  (List.dropWhile_suffix p).length_le

theorem length_rest_pass_lt {p : Char → Bool} {c : Cursor} {ch : Char} {cs : List Char}
    (hc : c.rest = ch :: cs) (hp : p ch = true) : (c.pass p).2.rest.length < c.rest.length := by
  have : (c.pass p).2.rest = cs.dropWhile p := by simp [pass, hc, hp]
  rw [this, hc]
  exact Nat.lt_succ_of_le (List.dropWhile_suffix p).length_le

/-- Away from the end of the text, reading a token moves the cursor. -/
theorem length_rest_readToken_lt {c : Cursor} (h : c.rest ≠ []) :
    c.readToken.2.rest.length < c.rest.length := by
  obtain ⟨ch, cs, hc⟩ := List.exists_cons_of_ne_nil h
  have hadv := length_rest_advance_lt h
  unfold readToken
  rw [hc]
  simp only
  rw [← hc]
  split
  · exact length_rest_pass_lt hc ‹_›
  · split
    · exact Nat.lt_of_le_of_lt (length_rest_pass_le _ _) hadv
    · split
      · exact Nat.lt_of_le_of_lt (length_rest_advance_le _) hadv
      · exact hadv

/-- Only the end of the text gives the end token. -/
theorem kind_readToken_eq_endOfInput {c : Cursor} :
    c.readToken.1.kind = .endOfInput ↔ c.rest = [] := by
  unfold readToken
  split
  · simp_all [Token.atEnd]
  · rename_i ch cs hc
    simp only [hc, reduceCtorEq, iff_false]
    split
    · simp
    · split
      · exact TokenKind.ofWord_ne_endOfInput _
      · split
        · simp
        · exact TokenKind.ofSign_ne_endOfInput _

theorem length_rest_nextToken_le (c : Cursor) : c.nextToken.2.rest.length ≤ c.rest.length := by
  refine Nat.le_trans ?_ (length_rest_pass_le Token.isSpacing c)
  by_cases hend : c.skipSpacing.rest = []
  · rw [nextToken, readToken, hend]
    exact Nat.le_refl _
  · exact Nat.le_of_lt (length_rest_readToken_lt hend)

/-- Every token but the last moves the cursor. -/
theorem length_rest_nextToken_lt {c : Cursor} (h : c.nextToken.1.kind ≠ .endOfInput) :
    c.nextToken.2.rest.length < c.rest.length := by
  have hne : c.skipSpacing.rest ≠ [] := fun h' => h (kind_readToken_eq_endOfInput.2 h')
  exact Nat.lt_of_lt_of_le (length_rest_readToken_lt hne) (length_rest_pass_le _ c)

/-! ## All tokens -/

/-- The tokens from the cursor on, the end token included, and the cursor at the end. -/
def tokens (c : Cursor) : List Token × Cursor :=
  let next := c.nextToken
  if next.1.kind = .endOfInput then ([next.1], next.2)
  else
    let following := tokens next.2
    (next.1 :: following.1, following.2)
termination_by c.rest.length
decreasing_by exact length_rest_nextToken_lt ‹_›

/-- Reads `count` tokens. At the end of the text each of them is the end token. -/
def take (count : Nat) (c : Cursor) : List Token × Cursor :=
  match count with
  | 0 => ([], c)
  | count + 1 =>
    let (t, c) := c.nextToken
    let (ts, c) := c.take count
    (t :: ts, c)

/-! ## Movements as data -/

/-- The movements of a cursor. -/
inductive Move where
  | advance
  | peek
  | skipSpacing
  | readNumber
  | readWord
  | nextToken
deriving DecidableEq, Repr

/-- What a movement answers. -/
inductive Reply where
  /-- Nothing: the movement has no answer, or there is no further character. -/
  | nothing
  /-- A piece of text. -/
  | text (s : String)
  /-- A token. -/
  | token (t : Token)
  /-- There is no word at the end of the text. -/
  | noWord
deriving DecidableEq, Repr

/-- Makes one movement. -/
def perform (c : Cursor) : Move → Reply × Cursor
  | .advance => (.nothing, c.advance)
  | .peek => ((c.peek?.map fun ch => Reply.text ch.toString).getD .nothing, c)
  | .skipSpacing => (.nothing, c.skipSpacing)
  | .readNumber =>
    let (number, c) := c.readNumber
    (.text number, c)
  | .readWord =>
    match c.readWord? with
    | some (word, c) => (.text word, c)
    | none => (.noWord, c)
  | .nextToken =>
    let (t, c) := c.nextToken
    (.token t, c)

end Cursor

/-- The tokens of a source text, the end token included. -/
def tokenize (source : String) : List Token := (Cursor.ofSource source).tokens.1

end Castellano
