import Castellano.Attempt
import Castellano.Diagnostic
import Castellano.Token.View

/-!
# Parsing steps

The steps from which the rules of the grammar are made. A step looks at the tokens in view, and
either returns something or fails; in both cases it says where it stopped.

* `ParseError`, `Failure` — how a step can fail.
* `Parse.accept`, `Parse.expect`, `Parse.fail` — single tokens.
* `Parse.manyTill` — a step repeated up to a closing token.
-/

namespace Castellano

/-- A fault of grammar and the token at which it shows. -/
structure ParseError where
  fault : GrammarFault
  token : Token
deriving DecidableEq, Repr

namespace ParseError

/-- The cause to report: an illegal character explains every fault that shows at it. -/
def cause (e : ParseError) : Fault :=
  if e.token.kind = .illegal then .illegalCharacter e.token.literal else .grammar e.fault

/-- The diagnostic that reports the error, at its token. -/
def diagnostic (e : ParseError) : Diagnostic := ⟨e.cause, e.token.position⟩

/-- The wording of the error with its place. -/
def message (e : ParseError) : String :=
  s!"{e.cause.message} (line {e.token.position.line}, column {e.token.position.column})"

end ParseError

/-- How a parsing step fails. -/
inductive Failure where
  /-- The tokens do not fit the grammar. -/
  | error (e : ParseError)
  /-- The tokens nest deeper than the limit allows. -/
  | tooDeep
deriving DecidableEq, Repr

/-- A parsing step. -/
abbrev Parse (σ α : Type) := Attempt Failure σ α

namespace Parse

variable {σ α : Type} [TokenView σ]

/-- The current token. -/
def current : Parse σ Token := do return TokenView.current (← Attempt.state)

/-- Moves over the current token. -/
def advance : Parse σ Unit := Attempt.update TokenView.advance

/-- Moves over points. -/
def skipPoints : Parse σ Unit := Attempt.update TokenView.skipPoints

/-- Fails at the given token. -/
def failAt (fault : GrammarFault) (token : Token) : Parse σ α :=
  Attempt.fail (.error ⟨fault, token⟩)

/-- Fails at the current token. -/
def fail (fault : GrammarFault) : Parse σ α := do failAt fault (← current)

/-- Fails for lack of depth, in the middle of a movement. -/
def exhaust : Parse σ α := do
  Attempt.update TokenView.interrupt
  Attempt.fail .tooDeep

/-- Moves over the current token if it is of the given kind, and says whether it was. -/
def accept (kind : TokenKind) : Parse σ Bool := do
  if (← current).kind = kind then
    advance
    return true
  else return false

/-- Moves over the current token, which has to be of the given kind. -/
def expect (kind : TokenKind) (fault : GrammarFault) : Parse σ Token := do
  let token ← current
  if token.kind = kind then
    advance
    return token
  else fail fault

/-- Moves over the current token, which has to be of the given kind; without words of the caller's
    own the fault names both kinds. -/
def expectWorded (kind : TokenKind) (message : String) : Parse σ Token := do
  let token ← current
  expect kind (if message = "" then .expected kind token.kind else .worded message)

/-- Repeats a step from the given place on. -/
def manyTillFrom (stop : TokenKind → Bool) (step : Parse σ α) (s : σ) :
    Attempt.Result Failure σ (List α) :=
  if stop (TokenView.current s).kind then .ok [] s
  else
    match step.run s with
    | .error e s' => .error e s'
    | .ok a s' =>
      if TokenView.remaining s' < TokenView.remaining s then
        match manyTillFrom stop step s' with
        | .error e s'' => .error e s''
        | .ok as s'' => .ok (a :: as) s''
      else .ok [a] s'
termination_by TokenView.remaining s

/-- Repeats a step until the current token is one to stop at, and collects what the step returns.
    A step that moves over no token is not repeated. -/
def manyTill (stop : TokenKind → Bool) (step : Parse σ α) : Parse σ (List α) :=
  ⟨manyTillFrom stop step⟩

end Parse

end Castellano
