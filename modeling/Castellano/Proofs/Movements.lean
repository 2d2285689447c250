import Castellano.Proofs.Decomposition
import Mathlib.Order.Monotone.Basic

/-!
# Where a cursor stands, whatever its movements

A cursor may be moved in any way, also by movements that do not fit what is in front of it: a word
may be read where a sign or a line break stands, a number where a letter stands, and every movement
may be made at the end of the text. It always knows where it stands, it never goes back, and what it
answers is the text that it has moved over.

* `Cursor.StandsIn`: the cursor stands at a place of the text, knows its line and column, and has
  the rest of the text in front of it. What moves over a text keeps this (`Passes.standsIn`).
* `Cursor.exists_passes_perform`: every movement moves over some text, which may be empty.
* `Cursor.StandsIn.readNumber_eq`, `Cursor.StandsIn.readWord_eq`, `Cursor.StandsIn.nextToken_eq`:
  the movements that answer the text they have moved over.
* `cursor_knows_its_place`: the place and the answers of a cursor, for any sequence of movements.
-/

namespace Castellano

/-- The part of a text from one place to another. -/
def textBetween (text : List Char) (start stop : Nat) : String :=
  String.ofList ((text.take stop).drop start)

namespace Cursor

/-! ## Places in a text -/

/-- The cursor stands in the text: its place is not behind the end, its line and column are those
    behind the characters before it, and the characters from there on are still to be read. -/
structure StandsIn (c : Cursor) (text : List Char) : Prop where
  offset : c.offset ≤ text.length
  position : c.position = Position.behind (text.take c.offset)
  rest : c.rest = text.drop c.offset

theorem standsIn_ofSource (source : String) : (ofSource source).StandsIn source.toList :=
  ⟨Nat.zero_le _, rfl, rfl⟩

section Place

variable {c c' : Cursor} {text run : List Char}

namespace StandsIn

theorem current?_eq (h : c.StandsIn text) : c.current? = text[c.offset]? := by
  rw [current?, h.rest, List.head?_drop]

theorem offset_eq_length_iff (h : c.StandsIn text) : c.offset = text.length ↔ c.rest = [] := by
  have hle := h.offset
  rw [h.rest, List.drop_eq_nil_iff]
  omega

theorem current?_eq_none_iff (h : c.StandsIn text) :
    c.current? = none ↔ c.offset = text.length := by
  rw [h.offset_eq_length_iff, current?, List.head?_eq_none_iff]

end StandsIn

/-- What was moved over is the text between the two places. -/
theorem Passes.textBetween_eq (h : c.Passes run c') (hc : c.StandsIn text) :
    textBetween text c.offset c'.offset = String.ofList run := by
  have hrest : text.drop c.offset = run ++ c'.rest := by rw [← hc.rest, h.rest]
  rw [textBetween, List.drop_take, hrest, h.offset, Nat.add_sub_cancel_left, List.take_left]

/-- A cursor that has moved over a text still knows where it stands. -/
theorem Passes.standsIn (h : c.Passes run c') (hc : c.StandsIn text) : c'.StandsIn text := by
  have hrest : text.drop c.offset = run ++ c'.rest := by rw [← hc.rest, h.rest]
  have hlength : text.length - c.offset = run.length + c'.rest.length := by
    rw [← List.length_drop, hrest, List.length_append]
  have hle := hc.offset
  refine ⟨?_, ?_, ?_⟩
  · rw [h.offset]
    omega
  · have htake : text.take (c.offset + run.length) = text.take c.offset ++ run := by
      rw [List.take_add, hrest, List.take_left]
    rw [h.position, hc.position, h.offset, htake, Position.behind_append]
  · rw [h.offset, ← List.drop_drop, hrest, List.drop_left]

theorem Passes.offset_le (h : c.Passes run c') : c.offset ≤ c'.offset := by
  rw [h.offset]
  exact Nat.le_add_right _ _

end Place

/-! ## Single movements -/

theorem perform_readNumber (c : Cursor) :
    ∃ run, c.Passes run (c.perform .readNumber).2 ∧
      (c.perform .readNumber).1 = .text (String.ofList run) :=
  ⟨_, .pass Token.isDigit c, rfl⟩

/-- A word may start with any character. -/
theorem perform_readWord {c : Cursor} (hne : c.rest ≠ []) :
    ∃ run, c.Passes run (c.perform .readWord).2 ∧
      (c.perform .readWord).1 = .text (String.ofList run) := by
  obtain ⟨ch, cs, hc⟩ := List.exists_cons_of_ne_nil hne
  have hword : c.readWord? = some (c.readWord ch) := by
    rw [readWord?, current?, hc]
    rfl
  simp only [perform, hword]
  exact ⟨_, (Passes.advance hc).trans (.pass Token.isWordChar c.advance), rfl⟩

theorem perform_readWord_end {c : Cursor} (hc : c.rest = []) :
    c.perform .readWord = (.noWord, c) := by
  have hword : c.readWord? = none := by
    rw [readWord?, current?, hc]
    rfl
  simp only [perform, hword]

theorem perform_nextToken (c : Cursor) :
    ∃ t, (c.perform .nextToken).1 = .token t ∧
      c.skipSpacing.Passes t.literal.toList (c.perform .nextToken).2 :=
  ⟨_, rfl, .readToken c.skipSpacing⟩

/-- Whatever the movement, the cursor has moved over a part of its text. -/
theorem exists_passes_perform (c : Cursor) (move : Move) :
    ∃ run, c.Passes run (c.perform move).2 := by
  cases move with
  | advance =>
    show ∃ run, c.Passes run c.advance
    cases hc : c.rest with
    | nil =>
      rw [Cursor.advance, hc]
      exact ⟨[], .refl c⟩
    | cons ch cs => exact ⟨[ch], .advance hc⟩
  | peek => exact ⟨[], .refl c⟩
  | skipSpacing => exact ⟨_, .skipSpacing c⟩
  | readNumber =>
    obtain ⟨run, hpass, -⟩ := c.perform_readNumber
    exact ⟨run, hpass⟩
  | readWord =>
    by_cases hc : c.rest = []
    · rw [perform_readWord_end hc]
      exact ⟨[], .refl c⟩
    · obtain ⟨run, hpass, -⟩ := perform_readWord hc
      exact ⟨run, hpass⟩
  | nextToken =>
    obtain ⟨t, -, hpass⟩ := c.perform_nextToken
    exact ⟨_, (Passes.skipSpacing c).trans hpass⟩

/-- Only the reading of a word can find none, and only at the end of the text. -/
theorem perform_eq_noWord_iff (c : Cursor) (move : Move) :
    (c.perform move).1 = .noWord ↔ move = .readWord ∧ c.rest = [] := by
  cases move with
  | readWord =>
    by_cases hc : c.rest = []
    · simp [perform_readWord_end hc, hc]
    · obtain ⟨run, -, hreply⟩ := perform_readWord hc
      simp [hreply, hc]
  | peek => cases hpeek : c.peek? <;> simp [perform, hpeek]
  | advance | skipSpacing | readNumber | nextToken => simp [perform]

/-! ## What a movement answers -/

namespace StandsIn

variable {c : Cursor} {text : List Char} (h : c.StandsIn text)

include h

theorem readNumber_eq : (c.perform .readNumber).1 =
    .text (textBetween text c.offset (c.perform .readNumber).2.offset) := by
  obtain ⟨run, hpass, hreply⟩ := c.perform_readNumber
  rw [hpass.textBetween_eq h]
  exact hreply

theorem readWord_eq (hlt : c.offset < text.length) : (c.perform .readWord).1 =
    .text (textBetween text c.offset (c.perform .readWord).2.offset) := by
  have hne : c.rest ≠ [] := fun hrest => Nat.ne_of_lt hlt (h.offset_eq_length_iff.2 hrest)
  obtain ⟨run, hpass, hreply⟩ := perform_readWord hne
  rw [hpass.textBetween_eq h]
  exact hreply

theorem noWord_iff (move : Move) :
    (c.perform move).1 = .noWord ↔ move = .readWord ∧ c.offset = text.length := by
  rw [h.offset_eq_length_iff]
  exact c.perform_eq_noWord_iff move

theorem nextToken_eq : ∃ t, (c.perform .nextToken).1 = .token t ∧
    t.literal = textBetween text
      (c.offset + ((text.drop c.offset).takeWhile Token.isSpacing).length)
      (c.perform .nextToken).2.offset := by
  obtain ⟨t, hreply, hpass⟩ := c.perform_nextToken
  have hskip := Passes.skipSpacing c
  have hbetween := hpass.textBetween_eq (hskip.standsIn h)
  rw [hskip.offset, h.rest, String.ofList_toList] at hbetween
  exact ⟨t, hreply, hbetween.symm⟩

end StandsIn

/-! ## Sequences of movements -/

/-- Where a cursor stands after one movement after another. -/
def performAll (c : Cursor) (moves : List Move) : Cursor :=
  moves.foldl (fun c move => (c.perform move).2) c

theorem performAll_take_succ (c : Cursor) {moves : List Move} {k : Nat} {move : Move}
    (hk : moves[k]? = some move) :
    c.performAll (moves.take (k + 1)) = ((c.performAll (moves.take k)).perform move).2 := by
  simp [performAll, List.take_add_one, hk]

theorem performAll_standsIn {c : Cursor} {text : List Char} (h : c.StandsIn text)
    (moves : List Move) : (c.performAll moves).StandsIn text := by
  induction moves generalizing c with
  | nil => exact h
  | cons move moves ih =>
    obtain ⟨run, hpass⟩ := c.exists_passes_perform move
    exact ih (hpass.standsIn h)

theorem offset_performAll_take_le (c : Cursor) (moves : List Move) (k : Nat) :
    (c.performAll (moves.take k)).offset ≤ (c.performAll (moves.take (k + 1))).offset := by
  cases hk : moves[k]? with
  | none => rw [List.take_add_one, hk, Option.toList_none, List.append_nil]
  | some move =>
    obtain ⟨run, hpass⟩ := (c.performAll (moves.take k)).exists_passes_perform move
    rw [c.performAll_take_succ hk]
    exact hpass.offset_le

end Cursor

/-- However a cursor is moved, and in whatever order, it stands at a place of its source: the
    character in front of it is the one at that place, there is none exactly at the end, and its
    line and column are counted from the characters before. It never goes back, and a look ahead
    changes nothing. A number or a word that it answers is the text from the place before the
    movement to the place behind it; so is the spelling of a token, from behind the spacing on. Only
    at the end of the text is no word found, and then nothing changes. -/
theorem cursor_knows_its_place (source : String) (moves : List Cursor.Move) :
    let text := source.toList
    let cursor := fun k => (Cursor.ofSource source).performAll (moves.take k)
    let place := fun k => (cursor k).offset
    (∀ k, place k ≤ text.length ∧ (cursor k).current? = text[place k]? ∧
      ((cursor k).current? = none ↔ place k = text.length) ∧
      (cursor k).position = Position.behind (text.take (place k))) ∧
    place 0 = 0 ∧ Monotone place ∧
    ∀ k move, moves[k]? = some move →
      let reply := ((cursor k).perform move).1
      (move = .peek → cursor (k + 1) = cursor k) ∧
      (move = .readNumber → reply = .text (textBetween text (place k) (place (k + 1)))) ∧
      (move = .readWord → place k < text.length →
        reply = .text (textBetween text (place k) (place (k + 1)))) ∧
      (reply = .noWord ↔ move = .readWord ∧ place k = text.length) ∧
      (reply = .noWord → cursor (k + 1) = cursor k) ∧
      (move = .nextToken → ∃ t, reply = .token t ∧
        let spacing := (text.drop (place k)).takeWhile Token.isSpacing
        t.literal = textBetween text (place k + spacing.length) (place (k + 1))) := by
  intro text cursor place
  have hstands : ∀ k, (cursor k).StandsIn text :=
    fun k => Cursor.performAll_standsIn (Cursor.standsIn_ofSource source) _
  refine ⟨fun k => ?_, rfl, ?_, fun k move hk => ?_⟩
  · exact ⟨(hstands k).offset, (hstands k).current?_eq, (hstands k).current?_eq_none_iff,
      (hstands k).position⟩
  · exact monotone_nat_of_le_succ (Cursor.offset_performAll_take_le _ moves)
  · have hnext : cursor (k + 1) = ((cursor k).perform move).2 :=
      Cursor.performAll_take_succ _ hk
    have hplace : place (k + 1) = ((cursor k).perform move).2.offset :=
      congrArg Cursor.offset hnext
    intro reply
    refine ⟨?_, ?_, ?_, (hstands k).noWord_iff move, ?_, ?_⟩
    · rintro rfl
      exact hnext
    · rintro rfl
      rw [hplace]
      exact (hstands k).readNumber_eq
    · rintro rfl hlt
      rw [hplace]
      exact (hstands k).readWord_eq hlt
    · intro hreply
      obtain ⟨rfl, hrest⟩ := ((cursor k).perform_eq_noWord_iff move).1 hreply
      rw [hnext, Cursor.perform_readWord_end hrest]
    · rintro rfl
      rw [hplace]
      exact (hstands k).nextToken_eq

/-- A word that starts with a line break, a colon behind spacing, and then no further word. -/
theorem cursor_knows_its_place_line_break :
    let moves : List Cursor.Move := [.advance, .readWord, .nextToken, .readWord]
    let cursor := fun k => (Cursor.ofSource "ñ\n7 :").performAll (moves.take k)
    ((cursor 1).offset = 1 ∧ (cursor 2).offset = 3 ∧ (cursor 3).offset = 5) ∧
      (cursor 2).position = ⟨2, 1⟩ ∧ ((cursor 1).perform .readWord).1 = .text "\n7" ∧
      (∃ t, ((cursor 2).perform .nextToken).1 = .token t ∧ t.literal = ":") ∧
      ((cursor 3).perform .readWord).1 = .noWord ∧ cursor 4 = cursor 3 := by
  intro moves cursor
  have hplaces : (cursor 1).offset = 1 ∧ (cursor 2).offset = 3 ∧ (cursor 3).offset = 5 := by
    decide +kernel
  obtain ⟨hstands, -, -, hmoves⟩ := cursor_knows_its_place "ñ\n7 :" moves
  have hposition : (cursor 2).position = Position.behind ("ñ\n7 :".toList.take (cursor 2).offset) :=
    (hstands 2).2.2.2
  have hword : (cursor 1).offset < 5 → ((cursor 1).perform .readWord).1 =
      .text (textBetween "ñ\n7 :".toList (cursor 1).offset (cursor 2).offset) :=
    (hmoves 1 .readWord rfl).2.2.1 rfl
  obtain ⟨t, ht, hliteral⟩ := (hmoves 2 .nextToken rfl).2.2.2.2.2 rfl
  have hnone : (cursor 3).offset = 5 → ((cursor 3).perform .readWord).1 = .noWord :=
    fun h => (hmoves 3 .readWord rfl).2.2.2.1.2 ⟨rfl, h⟩
  have hsame : ((cursor 3).perform .readWord).1 = .noWord → cursor 4 = cursor 3 :=
    (hmoves 3 .readWord rfl).2.2.2.2.1
  change t.literal = textBetween "ñ\n7 :".toList ((cursor 2).offset +
    (("ñ\n7 :".toList.drop (cursor 2).offset).takeWhile Token.isSpacing).length) (cursor 3).offset
    at hliteral
  obtain ⟨hone, htwo, hthree⟩ := hplaces
  rw [htwo] at hposition
  rw [hone, htwo] at hword
  rw [htwo, hthree] at hliteral
  refine ⟨⟨hone, htwo, hthree⟩, hposition, hword (by decide), ⟨t, ht, hliteral⟩, hnone hthree,
    hsame (hnone hthree)⟩

end Castellano
