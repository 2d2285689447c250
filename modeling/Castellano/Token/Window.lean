import Castellano.Token.Cursor
import Castellano.Token.View

/-!
# The window on a source text

Three tokens of a source text, read as far as these need it: each movement reads one more token from
the cursor behind them.

* `Window.ofSource` — the window on the first three tokens.
* `Window.advance`, `skipPoints` — the movements.
* `Window.interrupt` — a movement that is cut short before it has read a token.
* `Window.remaining` — a bound on the movements up to the end.
-/

namespace Castellano

/-- Three tokens in view, and the cursor behind them. -/
structure Window where
  current : Token
  peek : Token
  peekTwice : Token
  cursor : Cursor
deriving DecidableEq, Repr, Inhabited

namespace Window

/-- The three tokens in view. -/
def tokens (w : Window) : List Token := [w.current, w.peek, w.peekTwice]

/-- Moves over the current token: the others move up, and one more token is read. -/
def advance (w : Window) : Window :=
  let (next, cursor) := w.cursor.nextToken
  ⟨w.peek, w.peekTwice, next, cursor⟩

/-- A movement that is cut short: the tokens have moved up, but none was read for the last place.
    What counts of it are the tokens in view; the text still to be read is left as it was. -/
def interrupt (w : Window) : Window := { w with current := w.peek, peek := w.peekTwice }

/-- The window before anything is read: end tokens hold the three places. -/
def unread (cursor : Cursor) : Window :=
  let placeholder := Token.atEnd Position.start
  ⟨placeholder, placeholder, placeholder, cursor⟩

/-- The window on the first three tokens of a source text. -/
def ofSource (source : String) : Window := (unread (.ofSource source)).advance.advance.advance

/-- How many characters are still to be read, and how many tokens in view lie before the end. -/
def remaining (w : Window) : Nat :=
  w.cursor.rest.length + w.tokens.countP fun t => t.kind ≠ .endOfInput

/-- Before the end, every movement leaves less. -/
theorem remaining_advance_lt {w : Window} (h : w.current.kind ≠ .endOfInput) :
    w.advance.remaining < w.remaining := by
  simp only [remaining, advance, tokens, List.countP_cons, List.countP_nil, ne_eq, decide_not, h,
    decide_false, Bool.not_false, if_true]
  by_cases hend : w.cursor.nextToken.1.kind = .endOfInput
  · -- the token that is read does not count
    have hle := w.cursor.length_rest_nextToken_le
    simp only [hend, decide_true, Bool.not_true, Bool.false_eq_true, if_false]
    omega
  · -- the token that is read takes a character at least
    have hlt := Cursor.length_rest_nextToken_lt hend
    simp only [hend, decide_false, Bool.not_false, if_true]
    omega

/-- Moves over points. -/
def skipPoints (w : Window) : Window :=
  if w.current.kind = .point then w.advance.skipPoints else w
termination_by w.remaining
decreasing_by
  apply remaining_advance_lt
  simp [‹w.current.kind = .point›]

instance : TokenView Window where
  current := current
  peek := peek
  peekTwice := peekTwice
  advance := advance
  skipPoints := skipPoints
  interrupt := interrupt
  remaining := remaining

@[simp]
theorem view_current (w : Window) : TokenView.current w = w.current := rfl

@[simp]
theorem view_advance (w : Window) : TokenView.advance w = w.advance := rfl

@[simp]
theorem view_skipPoints (w : Window) : TokenView.skipPoints w = w.skipPoints := rfl

@[simp]
theorem view_remaining (w : Window) : TokenView.remaining w = w.remaining := rfl

end Window

end Castellano
