import Castellano.Value

/-!
# Field listings

A node, a value or a scope written out with all its fields, in a fixed order: kind and position
first, then what belongs to the kind.

* `Node.describe`, `Value.describe`, `Environment.describe` — the listings.
* `Exhibit.describe` — the listing of whatever may stand where a tree is expected.
-/

namespace Castellano

namespace Node

/-- The text of a truth value in listings. -/
def truthText (b : Bool) : String := if b then "True" else "False"

/-- The listing of items between brackets. -/
def listing (items : List String) : String := "[" ++ ", ".intercalate items ++ "]"

/-- A listing: the given name, the kind and the position of a node, and its own fields. -/
def fieldListing (name : String) (kind : NodeKind) (p : Position)
    (fields : List (String × String)) : String :=
  let own := fields.map fun (field, value) => field ++ "=" ++ value
  let shared :=
    [s!"type=<NodeType.{kind.label}: {kind.number}>", s!"line={p.line}", s!"column={p.column}"]
  name ++ "(" ++ ", ".intercalate (shared ++ own) ++ ")"

/-- The listing of a name. -/
def describeName (p : Position) (name : String) : String :=
  fieldListing "IdentifierNode" .identifier p [("name", Text.quoted name)]

/-- The listing of parameters. -/
def describeParameters (parameters : List Parameter) : String :=
  listing (parameters.map fun p => describeName p.position p.name)

/-- The listing of a block, given those of its forms. -/
def describeBlock (p : Position) (forms : List String) : String :=
  fieldListing "BlockNode" .block p [("forms", listing forms)]

/-- The listing of a function, given that of its body. -/
def describeFunction (p : Position) (parameters : List Parameter) (body : String) : String :=
  fieldListing "FunctionNode" .function p
    [("parameters", describeParameters parameters), ("body", body)]

mutual

/-- The listing of a tree. -/
def describe : Node → String
  | integer p value => fieldListing "IntegerNode" .integer p [("value", toString value)]
  | boolean p value => fieldListing "BooleanNode" .boolean p [("value", truthText value)]
  | identifier p name => describeName p name
  | binary p operator left right =>
    fieldListing "InfixNode" .binary p
      [("left", left.describe), ("operator", operator.describe), ("right", right.describe)]
  | minus p operand => fieldListing "MinusNode" .minus p [("operand", operand.describe)]
  | not p operand => fieldListing "NotNode" .not p [("operand", operand.describe)]
  | call p name arguments =>
    fieldListing "FunctionCallNode" .call p
      [("name", Text.quoted name), ("arguments", listing (describeAll arguments))]
  | function p parameters ⟨forms, bp⟩ =>
    describeFunction p parameters (describeBlock bp (describeAll forms))
  | assignment p name value =>
    fieldListing "AssignmentNode" .assignment p
      [("name", Text.quoted name), ("value", value.describe)]
  | conditional p condition ⟨consequence, cp⟩ none =>
    fieldListing "IfNode" .conditional p
      [("condition", condition.describe),
       ("consequence", describeBlock cp (describeAll consequence)), ("alternative", "None")]
  | conditional p condition ⟨consequence, cp⟩ (some ⟨alternative, ap⟩) =>
    fieldListing "IfNode" .conditional p
      [("condition", condition.describe),
       ("consequence", describeBlock cp (describeAll consequence)),
       ("alternative", describeBlock ap (describeAll alternative))]
  | loop p condition ⟨forms, bp⟩ =>
    fieldListing "WhileNode" .loop p
      [("condition", condition.describe), ("body", describeBlock bp (describeAll forms))]
  | block ⟨forms, p⟩ => describeBlock p (describeAll forms)
  | program p forms =>
    fieldListing "ProgramNode" .program p [("forms", listing (describeAll forms))]
  | bare p kind => fieldListing "ASTNode" kind p []

/-- The listings of trees. -/
def describeAll : List Node → List String
  | [] => []
  | node :: nodes => node.describe :: describeAll nodes

end

end Node

/-- The listing of an exhibit; a plain text stands for itself. -/
def Exhibit.describe : Exhibit → String
  | tree node => node.describe
  | nothing => "None"
  | text s => s

/-- The listing of a value. -/
def Value.describe : Value → String
  | integer n => s!"IntegerObject(type=<ObjectType.INTEGER: 1>, value={n})"
  | boolean b => s!"BooleanObject(type=<ObjectType.BOOLEAN: 2>, value={Node.truthText b})"
  | function p parameters body =>
    let literal := (Node.function p parameters body).describe
    s!"FunctionObject(type=<ObjectType.FUNCTION: 3>, function={literal})"

/-- The listing of a scope: its bindings in their order. -/
def Environment.describe (env : Environment) : String :=
  let bindings := env.bindings.map fun (name, value) =>
    Text.quoted name ++ ": " ++ (value.map Value.describe).getD "None"
  "Environment(\x7b" ++ ", ".intercalate bindings ++ "\x7d)"

end Castellano
