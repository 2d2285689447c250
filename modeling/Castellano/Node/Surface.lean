import Castellano.Node.Outline
import Castellano.Text.Blank
import Castellano.Word64

/-!
# Source text of a tree

A tree written as a source: operators with both operands in parentheses, blocks in braces, and a
point behind every form that does not end in a block.

* `Node.surface?` — the source text of a tree that nests no deeper than the limit.
* `Exhibit.surface?` — the same for whatever may stand where a tree is expected.
-/

namespace Castellano

namespace Node

/-- A form ends in a block and takes no point. -/
def endsInBlock : Node → Bool
  | conditional .. | loop .. => true
  | _ => false

/-- The text of a form, with the point that ends it. -/
def surfaceForm (sub : Node → Option String) (node : Node) : Option String := do
  let text ← sub node
  return if node.endsInBlock then text else text ++ "."

/-- The text of forms, one behind the other. -/
def surfaceForms (sub : Node → Option String) (forms : List Node) : Option String := do
  return " ".intercalate (← forms.mapM (surfaceForm sub))

/-- The text of a block. -/
def surfaceBlock (sub : Node → Option String) (b : Block Node) : Option String := do
  return "\x7b" ++ (← surfaceForms sub b.forms) ++ "\x7d"

/-- The outline of a text on one line: its lines without the blanks around them. -/
def flattened (text : String) : String :=
  " ".intercalate ((Text.lines text.toList).map fun line => Text.trim (String.ofList line))

/-- The text of a node, given that of the nodes below it. A negative literal is written by the
    digits that wrap to it. -/
def surfaceLayer (sub : Node → Option String) : Node → Option String
  | integer _ value => some (toString (if value < 0 then value + Word64.modulus else value))
  | boolean _ value => some (if value then "verdadero" else "falso")
  | identifier _ name => some name
  | binary _ operator left right => do
    return "(" ++ (← sub left) ++ " " ++ operator.literal ++ " " ++ (← sub right) ++ ")"
  | minus _ operand => do return "(-" ++ (← sub operand) ++ ")"
  | not _ operand => do return "(no " ++ (← sub operand) ++ ")"
  | call _ name arguments => do
    let arguments ← arguments.mapM fun a => (· ++ ".") <$> sub a
    return name ++ "(" ++ " ".intercalate arguments ++ ")"
  | function _ parameters body => do
    let names := " ".intercalate (parameters.map fun p => p.name ++ ".")
    return "función(" ++ names ++ ") " ++ (← surfaceBlock sub body)
  | assignment _ name value => do return name ++ " := " ++ (← sub value)
  | conditional _ condition consequence none => do
    return "si " ++ (← sub condition) ++ " " ++ (← surfaceBlock sub consequence)
  | conditional _ condition consequence (some alternative) => do
    return "si " ++ (← sub condition) ++ " " ++ (← surfaceBlock sub consequence) ++ " sino " ++
      (← surfaceBlock sub alternative)
  | loop _ condition body => do
    return "mientras " ++ (← sub condition) ++ " " ++ (← surfaceBlock sub body)
  | block b => surfaceBlock sub b
  | program _ forms => surfaceForms sub forms
  | bare p kind => some (flattened (bare p kind).outlineParts.1)

/-- The source text of a tree with at most `limit` nodes above each other. -/
def surface? : (limit : Nat) → Node → Option String
  | 0, _ => none
  | limit + 1, node => surfaceLayer (surface? limit) node

end Node

/-- The source text of an exhibit: nothing has none, and a plain text is put on one line. -/
def Exhibit.surface? (limit : Nat) : Exhibit → Option String
  | tree node => node.surface? limit
  | nothing => some ""
  | text s => some (Node.flattened s)

end Castellano
