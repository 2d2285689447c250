import Castellano.Grammar.Parse
import Castellano.Word64

/-!
# The rules of the grammar

Each rule is a parsing step. A rule that contains expressions or blocks takes the steps for them as
an argument, `Nested`; `nested limit` ties the knot: it allows `limit` levels of expressions and
blocks inside each other. Operators at one level and forms of one block are read in a loop and do
not add to the depth.

* `Precedence` — how tightly operators bind.
* `primary`, `expression` — expressions.
* `form`, `block` — forms and blocks.
* `nested` — expressions and blocks down to a given depth.
-/

namespace Castellano

/-- How tightly an operator binds, from loose to tight. -/
inductive Precedence where
  | lowest
  | equality
  | sum
  | product
  | call
deriving DecidableEq, Repr, Inhabited

namespace Precedence

/-- All levels, from loose to tight. -/
def all : List Precedence := [lowest, equality, sum, product, call]

/-- The name of a level. -/
def label : Precedence → String
  | lowest => "LOWEST"
  | equality => "EQUALITY"
  | sum => "SUM"
  | product => "PRODUCT"
  | call => "CALL"

/-- The level with the given name. -/
def ofLabel? (name : String) : Option Precedence := all.find? fun p => p.label == name

/-- The rank of a level. -/
def rank : Precedence → Nat
  | lowest => 0
  | equality => 1
  | sum => 2
  | product => 3
  | call => 4

instance : LT Precedence := ⟨fun p q => p.rank < q.rank⟩

instance (p q : Precedence) : Decidable (p < q) := inferInstanceAs (Decidable (p.rank < q.rank))

/-- How tightly a token binds what stands before it; a token that is no operator does not bind. -/
def ofKind : TokenKind → Precedence
  | .equals => equality
  | .plus | .minus => sum
  | .times | .divide => product
  | .openParen => call
  | _ => lowest

end Precedence

/-- The level at which the current token binds. -/
def TokenView.precedence {σ : Type} [TokenView σ] (s : σ) : Precedence := .ofKind (current s).kind

namespace Grammar

open Parse

/-- The steps for what stands inside other constructs. -/
structure Nested (σ : Type) where
  /-- An expression of operators that bind tighter than the given level. -/
  expression : Precedence → Parse σ Node
  block : Parse σ (Block Node)

variable {σ : Type} [TokenView σ]

/-! ## Expressions -/

/-- The end of a parenthesised list. -/
def closesList (kind : TokenKind) : Bool := kind = .closeParen || kind = .endOfInput

/-- A parameter: an expression that is a mere name. -/
def parameter (sub : Nested σ) : Parse σ Parameter := do
  let start ← current
  match ← sub.expression .lowest with
  | .identifier position name => return ⟨name, position⟩
  | _ => failAt .parameterNotName start

/-- A function literal: its keyword, the parameters in parentheses and the body. -/
def function (sub : Nested σ) : Parse σ Node := do
  let start ← current
  advance
  let _ ← expect .openParen .missingParameters
  let parameters ← manyTill closesList (parameter sub)
  let _ ← expect .closeParen .unclosedParameters
  let body ← sub.block
  return .function start.position parameters body

/-- An expression without operators behind it. The operand of a minus is as long as possible; the
    operand of `no` is as short as possible. -/
def primary (sub : Nested σ) : Parse σ Node := do
  skipPoints
  let token ← current
  match token.kind with
  | .integer =>
    advance
    return .integer token.position (Word64.ofDecimal token.literal)
  | .identifier =>
    advance
    return .identifier token.position token.literal
  | .verdadero =>
    advance
    return .boolean token.position true
  | .falso =>
    advance
    return .boolean token.position false
  | .openParen =>
    advance
    let inner ← sub.expression .lowest
    let _ ← expect .closeParen .unclosedParenthesis
    return inner
  | .minus =>
    advance
    if (← current).kind = .minus then fail .repeatedMinus
    else return .minus token.position (← sub.expression .lowest)
  | .no =>
    advance
    if (← current).kind = .no then fail .repeatedNo
    else return .not token.position (← sub.expression .call)
  | .funcion => function sub
  | .endOfInput => fail .unexpectedEnd
  | _ => fail (.unexpectedToken token.lexeme)

/-- An operator and its right operand, behind the left operand. -/
def binary (sub : Nested σ) (left : Node) : Parse σ Node := do
  let operator ← current
  advance
  let right ← sub.expression (.ofKind operator.kind)
  return .binary operator.position operator left right

/-- The arguments of a call, behind its callee, which has to be a name. -/
def call (sub : Nested σ) (callee : Node) : Parse σ Node :=
  match callee with
  | .identifier position name => do
    advance
    let arguments ← manyTill closesList (sub.expression .lowest)
    let _ ← expect .closeParen .unclosedArguments
    return .call position name arguments
  | _ => fail .calleeNotName

/-- One operator with its right operand, or one list of arguments. -/
def extend (sub : Nested σ) (left : Node) : Parse σ Node := do
  if (← current).kind = .openParen then call sub left else binary sub left

/-- Extends an expression by the operators that bind tighter than the given level, from the given
    place on. -/
def operatorsFrom (sub : Nested σ) (level : Precedence) (left : Node) (s : σ) :
    Attempt.Result Failure σ Node :=
  if level < TokenView.precedence s then
    match (extend sub left).run s with
    | .error e s' => .error e s'
    | .ok extended s' =>
      if TokenView.remaining s' < TokenView.remaining s then operatorsFrom sub level extended s'
      else .ok extended s'
  else .ok left s
termination_by TokenView.remaining s

/-- Extends an expression by the operators that bind tighter than the given level. -/
def operators (sub : Nested σ) (level : Precedence) (left : Node) : Parse σ Node :=
  ⟨operatorsFrom sub level left⟩

/-- An expression of operators that bind tighter than the given level, with the point that may end
    it. -/
def expression (sub : Nested σ) (level : Precedence) : Parse σ Node := do
  let first ← primary sub
  let whole ← operators sub level first
  let _ ← accept .point
  return whole

/-! ## Forms -/

/-- A binding: a name, the assignment sign and an expression. -/
def assignment (sub : Nested σ) : Parse σ Node := do
  let name ← current
  advance
  advance
  return .assignment name.position name.literal (← sub.expression .lowest)

/-- The current tokens read `si no entonces`. -/
def startsOtherwise (s : σ) : Bool :=
  (TokenView.current s).kind = .si && (TokenView.peek s).kind = .no &&
    (TokenView.peekTwice s).kind = .entonces

/-- The other block of a conditional, behind `sino` or `si no entonces`. -/
def alternative (sub : Nested σ) : Parse σ (Option (Block Node)) := do
  if ← accept .sino then return some (← sub.block)
  else if startsOtherwise (← Attempt.state) then
    advance
    advance
    advance
    return some (← sub.block)
  else return none

/-- A conditional: its keyword, the condition, a block and possibly another. -/
def conditional (sub : Nested σ) : Parse σ Node := do
  let start ← current
  advance
  let condition ← sub.expression .lowest
  let consequence ← sub.block
  return .conditional start.position condition consequence (← alternative sub)

/-- A loop: its keyword, the condition and the body. -/
def loop (sub : Nested σ) : Parse σ Node := do
  let start ← current
  advance
  let condition ← sub.expression .lowest
  return .loop start.position condition (← sub.block)

/-- A form, behind any points. -/
def form (sub : Nested σ) : Parse σ Node := do
  skipPoints
  let s ← Attempt.state
  if (TokenView.current s).kind = .identifier && (TokenView.peek s).kind = .assign then
    assignment sub
  else if (TokenView.current s).kind = .si then conditional sub
  else if (TokenView.current s).kind = .mientras then loop sub
  else sub.expression .lowest

/-- The end of a block in braces. -/
def closesBlock (kind : TokenKind) : Bool := kind = .closeBrace || kind = .endOfInput

/-- A block: forms in braces, or a single form without them. -/
def block (sub : Nested σ) : Parse σ (Block Node) := do
  let start ← current
  if ← accept .openBrace then
    skipPoints
    let forms ← manyTill closesBlock do
      let f ← form sub
      skipPoints
      return f
    let _ ← expect .closeBrace .unclosedBlock
    return ⟨forms, start.position⟩
  else return ⟨[← form sub], start.position⟩

/-! ## Depth -/

/-- Expressions and blocks with at most `limit` of them inside each other. -/
def nested : (limit : Nat) → Nested σ
  | 0 => ⟨fun _ => exhaust, exhaust⟩
  | limit + 1 => ⟨expression (nested limit), block (nested limit)⟩

end Grammar

end Castellano
