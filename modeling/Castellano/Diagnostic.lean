import Castellano.Value

/-!
# Diagnostics

What can be wrong with a source text and with the run of a program, and how it is worded. A fault is
a cause; a diagnostic is a fault with the position it concerns.

* `GrammarFault`, `MeaningFault` — the causes that parsing and evaluating can report.
* `Fault` — all causes, `Fault.label` the class they are reported under, `Fault.message` the words.
* `Diagnostic.toText` — the line that reports a diagnostic.
-/

namespace Castellano

/-- Why a sequence of tokens is not a program. -/
inductive GrammarFault where
  | unexpectedEnd
  | unexpectedToken (lexeme : String)
  | repeatedMinus
  | repeatedNo
  | unclosedParenthesis
  | unclosedBlock
  | unclosedArguments
  | unclosedParameters
  | missingParameters
  | calleeNotName
  | parameterNotName
  | expected (wanted found : TokenKind)
  | nestedTooDeeply
  /-- A fault in words of the caller's own. -/
  | worded (message : String)
deriving DecidableEq, Repr

/-- The wording of a fault of grammar. -/
def GrammarFault.message : GrammarFault → String
  | unexpectedEnd => "Unexpected end of input"
  | unexpectedToken lexeme => s!"Unexpected token {Text.quoted lexeme}"
  | repeatedMinus => "Unary '-' cannot be repeated"
  | repeatedNo => "'no' cannot be repeated"
  | unclosedParenthesis => "Expected ')' to close parenthesis"
  | unclosedBlock => "Expected '\x7d' to close block"
  | unclosedArguments => "Expected ')' after call arguments"
  | unclosedParameters => "Expected ')' after parameters"
  | missingParameters => "Expected '(' after 'función'"
  | calleeNotName => "Only names can be called"
  | parameterNotName => "Function parameters must be names"
  | expected wanted found => s!"Expected {wanted.label}, got {found.label}"
  | nestedTooDeeply => "Expression nested too deeply"
  | worded message => message

/-- Why a form has no value. -/
inductive MeaningFault where
  | unbound (name : String)
  | notNegatable (kind : ValueKind)
  | notInvertible (kind : ValueKind)
  | conditionNotBoolean (kind : ValueKind)
  | mixedOperands (operator : String) (left right : ValueKind)
  | functionOperands (operator : String)
  | notApplicable (operator : String) (kind : ValueKind)
  | unsupported (operator : String)
  | divisionByZero
  /-- A name is called whose value is not a function; there may be no value at all. -/
  | notFunction (name : String) (kind : Option ValueKind)
  | wrongArity (name : String) (expected found : Nat)
  | callsTooDeep
deriving DecidableEq, Repr

/-- The wording of a fault of meaning. -/
def MeaningFault.message : MeaningFault → String
  | unbound name => s!"Unbound name '{name}'"
  | notNegatable kind => s!"Cannot negate a {kind.label}"
  | notInvertible kind => s!"'no' expects a boolean, got {kind.label}"
  | conditionNotBoolean kind => s!"Condition must be a boolean, got {kind.label}"
  | mixedOperands operator left right =>
    s!"Cannot apply '{operator}' to {left.label} and {right.label}"
  | functionOperands operator => s!"Cannot apply '{operator}' to functions"
  | notApplicable operator kind => s!"Cannot apply '{operator}' to {kind.label}"
  | unsupported operator => s!"Unsupported operator '{operator}'"
  | divisionByZero => "Division by zero"
  | notFunction name kind =>
    let kind := (kind.map ValueKind.label).getD "no value"
    s!"'{name}' is not a function ({kind})"
  | wrongArity name expected found => s!"'{name}' expects {expected} argument(s), got {found}"
  | callsTooDeep => "Maximum call depth exceeded"

/-- The cause of a diagnostic. -/
inductive Fault where
  /-- A character that starts no token. -/
  | illegalCharacter (literal : String)
  | grammar (fault : GrammarFault)
  | meaning (fault : MeaningFault)
  /-- A remark under a label of the caller's own. -/
  | remark (label message : String)
deriving DecidableEq, Repr

namespace Fault

/-- The class under which a fault is reported. -/
def label : Fault → String
  | illegalCharacter _ => "lexical"
  | grammar _ => "syntactic"
  | meaning _ => "semantic"
  | remark label _ => label

/-- The wording of a fault. -/
def message : Fault → String
  | illegalCharacter literal => s!"Illegal character {Text.quoted literal}"
  | grammar fault => fault.message
  | meaning fault => fault.message
  | remark _ message => message

end Fault

/-- A fault and the position it concerns. -/
structure Diagnostic where
  fault : Fault
  position : Position := {}
deriving DecidableEq, Repr

/-- The line that reports a diagnostic. -/
def Diagnostic.toText (d : Diagnostic) : String :=
  s!"{d.fault.label} error at line {d.position.line}, column {d.position.column}: {d.fault.message}"

end Castellano
