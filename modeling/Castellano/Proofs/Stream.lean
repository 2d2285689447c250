import Castellano.Grammar.Rules
import Castellano.Token.Cursor

/-!
# Streams of tokens

All tokens that are still to be parsed, read beforehand. The end token is never used up: behind the
last token it stands again and again, so that there always is a current token and a view of two
more. Proofs about the rules of the grammar are about streams.

* `TokenStream.current`, `peek`, `peekTwice`: the three tokens in view.
* `TokenStream.advance`, `skipPoints`: the movements.
* `TokenStream.remaining`: how many tokens lie before the end; no movement increases it.
-/

namespace Castellano

/-- The tokens before the end, and the end token. -/
structure TokenStream where
  upcoming : List Token
  last : Token
deriving Repr, Inhabited

namespace TokenStream

/-- The stream of a list of tokens, of which the last is repeated. -/
def ofTokens (tokens : List Token) : TokenStream :=
  ⟨tokens.dropLast, tokens.getLastD (Token.atEnd Position.start)⟩

/-- The stream of the tokens of a source text. -/
def ofSource (source : String) : TokenStream := ofTokens (tokenize source)

/-- The token to be parsed next. -/
def current (s : TokenStream) : Token := s.upcoming.headD s.last

/-- The token behind the current one. -/
def peek (s : TokenStream) : Token := s.upcoming[1]?.getD s.last

/-- The second token behind the current one. -/
def peekTwice (s : TokenStream) : Token := s.upcoming[2]?.getD s.last

/-- Moves over the current token. -/
def advance (s : TokenStream) : TokenStream := { s with upcoming := s.upcoming.tail }

/-- Moves over points. -/
def skipPoints (s : TokenStream) : TokenStream :=
  { s with upcoming := s.upcoming.dropWhile fun t => t.kind = .point }

/-- How many tokens lie before the end. -/
def remaining (s : TokenStream) : Nat := s.upcoming.length

@[default_instance]
instance : TokenView TokenStream where
  current := current
  peek := peek
  peekTwice := peekTwice
  advance := advance
  skipPoints := skipPoints
  interrupt := id
  remaining := remaining

@[simp]
theorem view_current (s : TokenStream) : TokenView.current s = s.current := rfl

@[simp]
theorem view_peek (s : TokenStream) : TokenView.peek s = s.peek := rfl

@[simp]
theorem view_peekTwice (s : TokenStream) : TokenView.peekTwice s = s.peekTwice := rfl

@[simp]
theorem view_advance (s : TokenStream) : TokenView.advance s = s.advance := rfl

@[simp]
theorem view_skipPoints (s : TokenStream) : TokenView.skipPoints s = s.skipPoints := rfl

@[simp]
theorem view_remaining (s : TokenStream) : TokenView.remaining s = s.remaining := rfl

/-- How tightly the current token binds. -/
def precedence (s : TokenStream) : Precedence := .ofKind s.current.kind

@[simp]
theorem view_precedence (s : TokenStream) : TokenView.precedence s = s.precedence := rfl

theorem remaining_advance_le (s : TokenStream) : s.advance.remaining ≤ s.remaining := by
  simp [advance, remaining]

theorem remaining_skipPoints_le (s : TokenStream) : s.skipPoints.remaining ≤ s.remaining :=
  (List.dropWhile_suffix _).length_le

end TokenStream

end Castellano
