import Castellano.Node.Basic

/-!
# Outlines

A tree line by line: each node on a line of its own, indented under its parent and led by its role
there.

* `Node.outline?` — the outline of a tree that nests no deeper than the limit.
* `Exhibit.outline?` — the outline of whatever may stand where a tree is expected.
-/

namespace Castellano

namespace Node

/-- A line of an outline. A negative indentation is none. -/
def outlineLine (indent : Int) (role text : String) : String :=
  String.ofList (List.replicate indent.toNat ' ') ++ role ++ text

/-- The nodes with their roles, numbered. -/
def numbered (role : String) (nodes : List Node) : List (String × Node) :=
  nodes.zipIdx.map fun (node, i) => (s!"{role}[{i}]: ", node)

/-- What the line of a node says, how far the nodes below it are indented, and these nodes with
    their roles. -/
def outlineParts : Node → String × Nat × List (String × Node)
  | integer _ value => (s!"Integer({value})", 0, [])
  | boolean _ value => (if value then "Boolean(True)" else "Boolean(False)", 0, [])
  | identifier _ name => (s!"Identifier({name})", 0, [])
  | binary _ operator left right =>
    (s!"Infix({operator.literal})", 2, [("left: ", left), ("right: ", right)])
  | minus _ operand => ("Minus", 2, [("", operand)])
  | not _ operand => ("Not", 2, [("", operand)])
  | call _ name arguments => (s!"FunctionCall({name})", 4, numbered "arg" arguments)
  | function _ parameters body =>
    let names := ", ".intercalate (parameters.map Parameter.name)
    (s!"Function(params=[{names}])", 4, [("body: ", block body)])
  | assignment _ name value => (s!"Assignment({name})", 2, [("value: ", value)])
  | loop _ condition body => ("While", 4, [("condition: ", condition), ("body: ", block body)])
  | conditional _ condition consequence alternative =>
    ("If", 4, [("condition: ", condition), ("then: ", block consequence)] ++
      alternative.toList.map fun b => ("else: ", block b))
  | block b => ("Block", 4, numbered "form" b.forms)
  | program _ forms => ("Program", 4, numbered "form" forms)
  | bare _ _ => ("Unknown node type: <class 'ast_nodes.ASTNode'>", 0, [])

/-- The lines of a tree with at most `limit` nodes above each other, at the given indentation and
    in the given role. -/
def outlineLines? : (limit : Nat) → (indent : Int) → (role : String) → Node → Option (List String)
  | 0, _, _, _ => none
  | limit + 1, indent, role, node => do
    let (text, step, children) := node.outlineParts
    let below ← children.mapM fun (role, child) => outlineLines? limit (indent + step) role child
    return outlineLine indent role text :: below.flatten

/-- The outline of a tree with at most `limit` nodes above each other. -/
def outline? (limit : Nat) (indent : Int) (role : String) (node : Node) : Option String :=
  (outlineLines? limit indent role node).map "\n".intercalate

end Node

/-- The outline of an exhibit; what is not a tree has a single line. -/
def Exhibit.outline? (limit : Nat) (indent : Int) (role : String) : Exhibit → Option String
  | tree node => node.outline? limit indent role
  | nothing => some (Node.outlineLine indent role "None")
  | text s => some (Node.outlineLine indent role s)

end Castellano
