import Castellano.Node.Basic

/-!
# Trees as graphs

A tree drawn as a graph: a box for each node, an arrow to each node below it, labelled by the role
it has there. Boxes are numbered from zero; the nodes below a node get their numbers when it is
drawn, and each of them is then drawn with all that lies below it before the next.

* `Node.boxLabel`, `Node.branches` — what a box says, and the nodes that its arrows lead to.
* `Node.statements` — the boxes and arrows in the order in which they are drawn.
* `Dot.quote`, `Node.dot` — the text of a graph in the DOT language.
-/

namespace Castellano

/-- What is drawn. -/
inductive Statement where
  | box (id : Nat) (label : String)
  | arrow (source target : Nat) (role : String)
deriving DecidableEq, Repr

namespace Node

/-! ## Boxes and arrows -/

/-- The label of a box: the kind of the node and, on a second line, what is special to it. -/
def boxLabel : Node → String
  | integer _ value => s!"Integer\\n{value}"
  | boolean _ value => if value then "Boolean\\nverdadero" else "Boolean\\nfalso"
  | identifier _ name => s!"Identifier\\n{name}"
  | binary _ operator _ _ => s!"Infix\\n{operator.literal}"
  | assignment _ name _ => s!"Assignment\\n{name} :="
  | call _ name _ => s!"FunctionCall\\n{name}()"
  | node => node.kind.title

/-- The nodes with their roles, numbered. -/
def roles (role : String) (nodes : List Node) : List (String × Node) :=
  nodes.zipIdx.map fun entry => (s!"{role}[{entry.2}]", entry.1)

/-- The nodes right below a node, with their roles. The parameters of a function are drawn as
    names. -/
def branches : Node → List (String × Node)
  | integer .. | boolean .. | identifier .. | bare .. => []
  | binary _ _ left right => [("left", left), ("right", right)]
  | minus _ operand | not _ operand => [("operand", operand)]
  | assignment _ _ value => [("value", value)]
  | call _ _ arguments => roles "arg" arguments
  | function _ parameters body =>
    roles "param" (parameters.map Parameter.toNode) ++ [("body", block body)]
  | conditional _ condition consequence alternative =>
    [("condition", condition), ("then", block consequence)] ++
      alternative.toList.map fun b => ("else", block b)
  | loop _ condition body => [("condition", condition), ("body", block body)]
  | block ⟨forms, _⟩ | program _ forms => roles "form" forms

theorem map_snd_roles (role : String) (nodes : List Node) :
    (roles role nodes).map Prod.snd = nodes := by
  rw [roles, List.map_map]
  exact List.zipIdx_map_fst 0 nodes

/-! ## Sizes -/

mutual

/-- How many boxes a tree has. -/
def size : Node → Nat
  | integer .. | boolean .. | identifier .. | bare .. => 1
  | binary _ _ left right => left.size + right.size + 1
  | minus _ operand | not _ operand => operand.size + 1
  | assignment _ _ value => value.size + 1
  | call _ _ arguments => sizeAll arguments + 1
  | function _ parameters ⟨body, _⟩ => parameters.length + (sizeAll body + 1) + 1
  | conditional _ condition ⟨consequence, _⟩ none => condition.size + (sizeAll consequence + 1) + 1
  | conditional _ condition ⟨consequence, _⟩ (some ⟨alternative, _⟩) =>
    condition.size + (sizeAll consequence + 1) + (sizeAll alternative + 1) + 1
  | loop _ condition ⟨body, _⟩ => condition.size + (sizeAll body + 1) + 1
  | block ⟨forms, _⟩ | program _ forms => sizeAll forms + 1

/-- How many boxes several trees have. -/
def sizeAll : List Node → Nat
  | [] => 0
  | node :: nodes => node.size + sizeAll nodes

end

theorem sizeAll_append (nodes others : List Node) :
    sizeAll (nodes ++ others) = sizeAll nodes + sizeAll others := by
  induction nodes with
  | nil => simp [sizeAll]
  | cons node nodes ih => rw [List.cons_append, sizeAll, sizeAll, ih, Nat.add_assoc]

theorem sizeAll_parameters (parameters : List Parameter) :
    sizeAll (parameters.map Parameter.toNode) = parameters.length := by
  induction parameters with
  | nil => rfl
  | cons q parameters ih =>
    rw [List.map_cons, sizeAll, ih, Parameter.toNode, size, List.length_cons,
      Nat.add_comm]

/-- A tree has one box for its root, and those of the trees below. -/
theorem size_eq (node : Node) : node.size = sizeAll (node.branches.map Prod.snd) + 1 := by
  cases node with
  | call p name arguments => rw [size, branches, map_snd_roles]
  | function p parameters body =>
    obtain ⟨forms, q⟩ := body
    rw [size, branches, List.map_append, map_snd_roles, sizeAll_append, sizeAll_parameters]
    rfl
  | conditional p condition consequence alternative =>
    cases alternative <;> simp [size, branches, sizeAll, Nat.add_assoc]
  | block b => rw [size, branches, map_snd_roles]
  | program p forms => rw [size, branches, map_snd_roles]
  | _ => simp [size, branches, sizeAll, Nat.add_assoc]

/-! ## Drawing -/

/-- The arrows from a box to those below it, which are numbered from `first` on. -/
def arrows (id first : Nat) (branches : List (String × Node)) : List Statement :=
  (branches.zipIdx first).map fun entry => .arrow id entry.2 entry.1.1

/-- The nodes below a box with their numbers, from `first` on. -/
def numbers (first : Nat) (branches : List (String × Node)) : List (Nat × Node) :=
  (branches.zipIdx first).map fun entry => (entry.2, entry.1.2)

theorem map_snd_numbers (first : Nat) (branches : List (String × Node)) :
    (numbers first branches).map Prod.snd = branches.map Prod.snd := by
  conv => rhs; rw [← List.zipIdx_map_fst first branches]
  simp only [numbers, List.map_map]
  rfl

/-- The statements of the pending nodes, the first of them first, when `next` is the first unused
    number. A node is drawn with its arrows, and the nodes below it are the next ones. -/
def drawPending (next : Nat) : (pending : List (Nat × Node)) → List Statement
  | [] => []
  | (id, node) :: pending =>
    .box id node.boxLabel :: arrows id next node.branches ++
      drawPending (next + node.branches.length) (numbers next node.branches ++ pending)
termination_by pending => sizeAll (pending.map Prod.snd)
decreasing_by
  have hsize := size_eq node
  simp only [List.map_append, List.map_cons, sizeAll_append, sizeAll, map_snd_numbers]
  omega

/-- The statements of a tree, in the order in which they are drawn. -/
def statements (node : Node) : List Statement := drawPending 1 [(0, node)]

end Node

/-! ## The DOT language -/

namespace Dot

/-- The text is marked up between angle brackets. -/
def isMarkup (cs : List Char) : Bool :=
  cs.head? = some '<' && cs.getLast? = some '>' && 2 ≤ cs.length

/-- A letter of a plain name. -/
def isNameStart (c : Char) : Bool := c.isAlpha || c = '_'

/-- The text is a name. -/
def isName (cs : List Char) : Bool :=
  match cs with
  | [] => false
  | c :: rest => isNameStart c && rest.all fun d => isNameStart d || d.isDigit

/-- The text is a number without a sign: digits, digits behind a point, or digits, a point and
    possibly more digits. -/
def isUnsigned (cs : List Char) : Bool :=
  let whole := cs.takeWhile Char.isDigit
  match cs.dropWhile Char.isDigit with
  | [] => !whole.isEmpty
  | '.' :: fraction => (!whole.isEmpty || !fraction.isEmpty) && fraction.all Char.isDigit
  | _ => false

/-- The text is a number. -/
def isNumber : List Char → Bool
  | '-' :: cs => isUnsigned cs
  | cs => isUnsigned cs

/-- The words that have a meaning of their own. -/
def reserved : List String := ["node", "edge", "graph", "digraph", "subgraph", "strict"]

/-- Puts a backslash before every quote that has none; `escaped` says whether an odd number of
    backslashes stands right before. -/
def escapeQuotes (escaped : Bool) : List Char → List Char
  | [] => []
  | c :: cs =>
    if c = '"' then
      if escaped then c :: escapeQuotes false cs else '\\' :: c :: escapeQuotes false cs
    else c :: escapeQuotes (c = '\\' && !escaped) cs

/-- A label as DOT writes it: markup, plain names and numbers as they are, anything else between
    quotes. -/
def quote (label : String) : String :=
  let cs := label.toList
  if isMarkup cs then label
  else if (isName cs || isNumber cs) && !reserved.contains label.toLower then label
  else String.ofList ('"' :: escapeQuotes false cs ++ ['"'])

/-- The line of a statement. -/
def line : Statement → String
  | .box id label => s!"\tn{id} [label={quote label}]\n"
  | .arrow source target role => s!"\tn{source} -> n{target} [label={quote role} fontsize=8]\n"

/-- The lines before the statements. -/
def opening : String :=
  "digraph \x7b\n\tgraph [rankdir=TB]\n\tnode [fontname=Helvetica fontsize=10 shape=box]\n"

/-- The text of a graph. -/
def text (statements : List Statement) : String :=
  opening ++ String.join (statements.map line) ++ "\x7d\n"

end Dot

/-- The DOT text of a tree. -/
def Node.dot (node : Node) : String := Dot.text node.statements

end Castellano
