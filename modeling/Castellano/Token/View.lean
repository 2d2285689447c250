import Castellano.Token.Basic

/-!
# Tokens in view

What the rules of the grammar ask of the tokens they are applied to: three tokens in view, and the
movements over them.

* `TokenView` — tokens that can be parsed.
-/

namespace Castellano

/-- A row of tokens of which three are in view. -/
class TokenView (σ : Type) where
  /-- The token to be parsed next. -/
  current : σ → Token
  /-- The token behind the current one. -/
  peek : σ → Token
  /-- The second token behind the current one. -/
  peekTwice : σ → Token
  /-- Moves over the current token. -/
  advance : σ → σ
  /-- Moves over points. -/
  skipPoints : σ → σ
  /-- Where a movement leads that is cut short for lack of depth. -/
  interrupt : σ → σ
  /-- How far it is to the end, at most. -/
  remaining : σ → Nat

end Castellano
