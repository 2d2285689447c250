import Castellano.Json
import Castellano.Node.Basic

/-!
# Trees as JSON

A node is an object with its kind, its position and what belongs to its kind. Of a parameter only
the name is written.

* `Node.toJson?` — the JSON of a tree that nests no deeper than the limit.
-/

namespace Castellano

namespace Node

/-- The object of a node: its kind and position, then the given fields. -/
def jsonObject (kind : NodeKind) (position : Position) (fields : List (String × Json)) : Json :=
  .object ([("node_type", .string kind.label), ("line", .integer position.line),
    ("column", .integer position.column)] ++ fields)

/-- The JSON of a block, given that of its forms. -/
def jsonBlock (sub : Node → Option Json) (b : Block Node) : Option Json := do
  let forms ← b.forms.mapM sub
  return jsonObject .block b.position [("forms", .array forms)]

/-- The fields that belong to the kind of a node, given the JSON of the nodes below it. -/
def jsonFields (sub : Node → Option Json) : Node → Option (List (String × Json))
  | integer _ value => some [("value", .integer value)]
  | boolean _ value => some [("value", .boolean value)]
  | identifier _ name => some [("name", .string name)]
  | binary _ operator left right => do
    let left ← sub left
    let right ← sub right
    return [("operator", .string operator.literal), ("left", left), ("right", right)]
  | minus _ operand | not _ operand => do return [("operand", ← sub operand)]
  | call _ name arguments => do
    let arguments ← arguments.mapM sub
    return [("name", .string name), ("arguments", .array arguments)]
  | function _ parameters body => do
    let body ← jsonBlock sub body
    return [("parameters", .array (parameters.map fun p => .string p.name)), ("body", body)]
  | assignment _ name value => do
    let value ← sub value
    return [("name", .string name), ("value", value)]
  | conditional _ condition consequence alternative => do
    let condition ← sub condition
    let consequence ← jsonBlock sub consequence
    let alternative ← (alternative.map (jsonBlock sub)).getD (some .null)
    return [("condition", condition), ("consequence", consequence), ("alternative", alternative)]
  | loop _ condition body => do
    let condition ← sub condition
    let body ← jsonBlock sub body
    return [("condition", condition), ("body", body)]
  | block b => do return [("forms", .array (← b.forms.mapM sub))]
  | program _ forms => do return [("forms", .array (← forms.mapM sub))]
  | bare _ _ => some []

/-- The JSON of a node, given that of the nodes below it. -/
def jsonLayer (sub : Node → Option Json) (node : Node) : Option Json := do
  return jsonObject node.kind node.position (← jsonFields sub node)

/-- The JSON of a tree with at most `limit` nodes above each other. -/
def toJson? : (limit : Nat) → Node → Option Json
  | 0, _ => none
  | limit + 1, node => jsonLayer (toJson? limit) node

end Node

end Castellano
