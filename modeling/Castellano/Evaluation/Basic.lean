import Castellano.Attempt
import Castellano.Diagnostic
import Castellano.Limits
import Castellano.Node.Description
import Castellano.Word64

/-!
# Evaluation

Running a tree in a scope. A fault does not stop the run: it is recorded as a diagnostic, and the
form that failed has no value. A run stops before its end when it nests too deeply, when a loop
exceeds its rounds, or at a step that cannot be made; the bindings and diagnostics made until then
are kept. Each step that cannot always be made stands behind a check of its own.

* `Halt` — why a run stops before its end.
* `demand` — something that has to be there.
* `combine`, `negate`, `invert` — the operators on values.
* `layer`, `evaluate` — the value of a node, from those of the nodes below it and by depth.
* `evaluateProgram` — the value of the last form of a program.
-/

namespace Castellano

/-- Why a run stops before its end. -/
inductive Halt where
  /-- Nodes nest deeper than the limit allows. -/
  | tooDeep
  /-- A loop was still running after the last round allowed. -/
  | unfinished
  /-- What is listed here cannot be evaluated. -/
  | unhandled (description : String)
  /-- Something was asked of a value that is not there, or for a number where there is none. -/
  | missingValue
  /-- A quotient by zero was asked for. -/
  | zeroDivisor
deriving DecidableEq, Repr

/-- The wording of a stop at something that cannot be evaluated. -/
def Halt.unhandledMessage (description : String) : String := s!"Unhandled node type: {description}"

namespace Evaluation

/-- What a run changes: the current scope and the diagnostics. -/
structure State where
  env : Environment := {}
  diagnostics : List Diagnostic := []
deriving Inhabited

end Evaluation

/-- A run that may read and change the scope, record diagnostics, and stop before its end. -/
abbrev Evaluation (α : Type) := Attempt Halt Evaluation.State α

namespace Evaluation

/-! ## Operators on values -/

/-- Why an operation gives no result: a fault, which is to be reported, or a reason to stop. -/
inductive Setback where
  | fault (fault : MeaningFault)
  | halt (halt : Halt)
deriving DecidableEq, Repr

/-- What an operation comes to. -/
abbrev Outcome (α : Type) := Except Setback α

instance : MonadLift (Except Halt) Outcome := ⟨Except.mapError .halt⟩

/-- What has to be there; without it the run stops. -/
def demand {α : Type} (halt : Halt) : Option α → Except Halt α
  | some a => .ok a
  | none => .error halt

/-- The number with the opposite sign. -/
def negate (value : Value) : Outcome Value :=
  if value.kind ≠ .integer then throw (.fault (.notNegatable value.kind))
  else return .integer (Word64.wrap (-(← demand .missingValue value.content?)))

/-- The opposite truth value. -/
def invert (value : Value) : Outcome Value :=
  if value.kind ≠ .boolean then throw (.fault (.notInvertible value.kind))
  else return .boolean ((← demand .missingValue value.content?) == 0)

/-- The value of an arithmetic operator on two integers. -/
def combineIntegers (operator : Token) (a b : Int) : Outcome Value :=
  match operator.kind with
  | .plus => return .integer (Word64.wrap (a + b))
  | .minus => return .integer (Word64.wrap (a - b))
  | .times => return .integer (Word64.wrap (a * b))
  | .divide =>
    if b = 0 then throw (.fault .divisionByZero)
    else return .integer (Word64.wrap (← demand .zeroDivisor (Word64.quotient a b)))
  | _ => throw (.fault (.unsupported operator.literal))

/-- The value of an operator on two values, which have to be of one kind. Truth values can only be
    compared, functions not even that. -/
def combine (operator : Token) (left right : Value) : Outcome Value :=
  if left.kind ≠ right.kind then
    throw (.fault (.mixedOperands operator.literal left.kind right.kind))
  else if left.kind = .function then throw (.fault (.functionOperands operator.literal))
  else if operator.kind = .equals then do
    let a ← demand .missingValue left.content?
    let b ← demand .missingValue right.content?
    return .boolean (a == b)
  else if left.kind ≠ .integer then throw (.fault (.notApplicable operator.literal left.kind))
  else do
    let a ← demand .missingValue left.content?
    let b ← demand .missingValue right.content?
    combineIntegers operator a b

/-- The parameters and the body of the function that a name is bound to, if it takes the given
    number of arguments. -/
def callee (env : Environment) (name : String) (count : Nat) :
    Outcome (List Parameter × Block Node) :=
  if !env.contains name then throw (.fault (.unbound name))
  else
    match env.get name with
    | some (.function _ parameters body) =>
      if parameters.length ≠ count then
        throw (.fault (.wrongArity name parameters.length count))
      else return (parameters, body)
    | value =>
      if value.isNone then throw (.fault (.notFunction name none))
      else do throw (.fault (.notFunction name (← demand .missingValue value).kind))

/-! The checks keep the operators from stopping: what they come to, by the kinds of the values. -/

theorem combine_integers (operator : Token) (a b : Int) :
    combine operator (.integer a) (.integer b) =
      if operator.kind = .equals then .ok (.boolean (a == b)) else combineIntegers operator a b :=
  rfl

theorem combine_booleans (operator : Token) (a b : Bool) :
    combine operator (.boolean a) (.boolean b) =
      if operator.kind = .equals then .ok (.boolean (a == b))
      else .error (.fault (.notApplicable operator.literal .boolean)) := by
  cases a <;> cases b <;> rfl

theorem combine_of_kind_ne (operator : Token) {left right : Value} (h : left.kind ≠ right.kind) :
    combine operator left right =
      .error (.fault (.mixedOperands operator.literal left.kind right.kind)) :=
  if_pos h

theorem combineIntegers_divide {operator : Token} (h : operator.kind = .divide) (a b : Int) :
    combineIntegers operator a b =
      match Word64.quotient a b with
      | some q => .ok (.integer (Word64.wrap q))
      | none => .error (.fault .divisionByZero) := by
  simp only [combineIntegers, h, Word64.quotient]
  split <;> rfl

theorem callee_eq (env : Environment) (name : String) (count : Nat) :
    callee env name count =
      match env.find? name with
      | none => .error (.fault (.unbound name))
      | some (some (.function _ parameters body)) =>
        if parameters.length = count then .ok (parameters, body)
        else .error (.fault (.wrongArity name parameters.length count))
      | some value => .error (.fault (.notFunction name (value.map Value.kind))) := by
  rw [callee, Environment.contains, Environment.get]
  cases env.find? name with
  | none => rfl
  | some value =>
    cases value with
    | none => rfl
    | some value =>
      cases value with
      | integer n => rfl
      | boolean b => rfl
      | function p parameters body => exact ite_not _ _ _

/-! ## Steps of a run -/

/-- Records a fault; there is no value. -/
def report {α : Type} (position : Position) (fault : MeaningFault) : Evaluation (Option α) := do
  Attempt.update fun s => { s with diagnostics := s.diagnostics ++ [⟨.meaning fault, position⟩] }
  return none

/-- Reports a fault, or stops. -/
def concede {α : Type} (position : Position) : Setback → Evaluation (Option α)
  | .fault fault => report position fault
  | .halt halt => Attempt.fail halt

/-- The value of an operation, or a report of its fault. -/
def settle (position : Position) : Outcome Value → Evaluation (Option Value)
  | .ok value => return some value
  | .error setback => concede position setback

/-- Binds a name in the current scope. -/
def assign (name : String) (value : Option Value) : Evaluation Unit :=
  Attempt.update fun s => { s with env := s.env.set name value }

/-- Runs something in a scope of its own; the current scope is back afterwards. -/
def inScope {α : Type} (scope : Environment) (body : Evaluation α) : Evaluation α := ⟨fun s =>
  match body.run { s with env := scope } with
  | .ok a s' => .ok a { s' with env := s.env }
  | .error halt s' => .error halt { s' with env := s.env }⟩

/-- The values of nodes, from left to right. -/
def valuesOf (eval : Node → Evaluation (Option Value)) :
    List Node → Evaluation (List (Option Value))
  | [] => return []
  | node :: nodes => do
    let value ← eval node
    return value :: (← valuesOf eval nodes)

/-- Runs forms in order; the result is the last value that one of them had, or the given one. -/
def runForms (eval : Node → Evaluation (Option Value)) (result : Option Value) :
    List Node → Evaluation (Option Value)
  | [] => return result
  | form :: forms => do runForms eval ((← eval form).or result) forms

/-- Runs a block: the last value that one of its forms had. -/
def runBlock (eval : Node → Evaluation (Option Value)) (b : Block Node) :
    Evaluation (Option Value) :=
  runForms eval none b.forms

/-- The truth value of a condition. Another value is a fault of the condition. -/
def test (eval : Node → Evaluation (Option Value)) (node : Node) : Evaluation (Option Bool) := do
  let value ← eval node
  if value.isNone then return none
  else
    let value ← demand .missingValue value
    if value.kind ≠ .boolean then report node.position (.conditionNotBoolean value.kind)
    else return some ((← demand .missingValue value.content?) != 0)

theorem test_eq (eval : Node → Evaluation (Option Value)) (node : Node) :
    test eval node = eval node >>= fun
      | none => return none
      | some (.boolean b) => return some b
      | some value => report node.position (.conditionNotBoolean value.kind) := by
  refine congrArg (eval node >>= ·) (funext fun value => ?_)
  cases value with
  | none => rfl
  | some value =>
    cases value with
    | integer n => rfl
    | boolean b => cases b <;> rfl
    | function p parameters body => rfl

/-- Runs a body while a check holds, for the given number of rounds at most. The value is that of
    the last round, and none if the check has no truth value. -/
def repeatWhile (check : Evaluation (Option Bool)) (body : Evaluation (Option Value)) :
    (rounds : Nat) → (result : Option Value) → Evaluation (Option Value)
  | 0, _ => Attempt.fail .unfinished
  | rounds + 1, result => do
    match ← check with
    | none => return none
    | some false => return result
    | some true => do repeatWhile check body rounds (← body)

/-! ## Nodes -/

/-- The value of a node, from those of the nodes below it. -/
def layer (rounds : Nat) (eval : Node → Evaluation (Option Value)) :
    Node → Evaluation (Option Value)
  | .assignment _ name value => do
    assign name (← eval value)
    return none
  | .integer _ value => return some (.integer value)
  | .boolean _ value => return some (.boolean value)
  | .identifier position name => do
    match (← Attempt.state).env.find? name with
    | some value => return value
    | none => report position (.unbound name)
  | .binary position operator left right => do
    let left ← eval left
    let right ← eval right
    if left.isNone || right.isNone then return none
    else
      let left ← demand .missingValue left
      let right ← demand .missingValue right
      settle position (combine operator left right)
  | .minus position operand => do
    let value ← eval operand
    if value.isNone then return none
    else settle position (negate (← demand .missingValue value))
  | .not position operand => do
    let value ← eval operand
    if value.isNone then return none
    else settle position (invert (← demand .missingValue value))
  | .conditional _ condition consequence alternative => do
    match ← test eval condition with
    | none => return none
    | some true => runBlock eval consequence
    | some false =>
      if alternative.isNone then return none
      else runBlock eval (← demand .missingValue alternative)
  | .loop _ condition body => repeatWhile (test eval condition) (runBlock eval body) rounds none
  | .function position parameters body => return some (.function position parameters body)
  | .call position name arguments => do
    match callee (← Attempt.state).env name arguments.length with
    | .error setback => concede position setback
    | .ok (parameters, body) => do
      let values ← valuesOf eval arguments
      let scope := Environment.ofList ((parameters.map Parameter.name).zip values)
      inScope scope (runBlock eval body)
  | .block b => runBlock eval b
  | node => Attempt.fail (.unhandled node.describe)

/-- The value of a tree with at most `depth` nodes under evaluation inside each other. -/
def evaluateAt (rounds : Nat) : (depth : Nat) → Node → Evaluation (Option Value)
  | 0, _ => Attempt.fail .tooDeep
  | depth + 1, node => layer rounds (evaluateAt rounds depth) node

/-- The value of a tree. -/
def evaluate (limits : Limits) (node : Node) : Evaluation (Option Value) :=
  evaluateAt limits.rounds limits.depth node

/-- The value of an exhibit: only a tree can have one. -/
def evaluateExhibit (limits : Limits) : Exhibit → Evaluation (Option Value)
  | .tree node => evaluate limits node
  | other => Attempt.fail (.unhandled other.describe)

/-- Runs forms in order; the result is the value of the last one, or the given one. -/
def runSequence (eval : Node → Evaluation (Option Value)) (result : Option Value) :
    List Node → Evaluation (Option Value)
  | [] => return result
  | form :: forms => do runSequence eval (← eval form) forms

/-- Runs a program: the value of its last form. Nesting that is too deep ends the program with a
    diagnostic at its start. -/
def evaluateProgram (limits : Limits) (program : Program) : Evaluation (Option Value) := ⟨fun s =>
  match (runSequence (evaluate limits) none program.forms).run s with
  | .error .tooDeep s' => (report program.position .callsTooDeep).run s'
  | result => result⟩

end Evaluation

end Castellano
