import Castellano.Token.Basic

/-!
# Trees

The tree of a program. A form is an expression, an assignment, a conditional or a loop; a block is a
list of forms. One type holds them all, because the functions that show and run a tree accept any
nesting of them; which nestings a source can produce is a property of the grammar.

* `Node` — trees, with the position of each node.
* `Block`, `Parameter` — the parts that only occur in certain places.
* `Program` — a list of forms with the position of its start.
* `NodeKind` — the kinds of nodes, with their names.
* `Exhibit` — what can be handed to a function that shows trees: a tree, nothing, or plain text.
-/

namespace Castellano

/-- The kinds of nodes. -/
inductive NodeKind where
  | program
  | block
  | assignment
  | identifier
  | integer
  | boolean
  | binary
  | minus
  | not
  | conditional
  | loop
  | function
  | call
deriving DecidableEq, Repr, Inhabited

namespace NodeKind

/-- All kinds, in the order of their numbers. -/
def all : List NodeKind :=
  [program, block, assignment, identifier, integer, boolean, binary, minus, not, conditional, loop,
   function, call]

/-- The name of a kind in listings. -/
def label : NodeKind → String
  | program => "PROGRAM"
  | block => "BLOCK"
  | assignment => "ASSIGNMENT"
  | identifier => "IDENTIFIER"
  | integer => "INTEGER"
  | boolean => "BOOLEAN"
  | binary => "INFIX"
  | minus => "MINUS"
  | not => "NOT"
  | conditional => "IF"
  | loop => "WHILE"
  | function => "FUNCTION"
  | call => "FUNCTION_CALL"

/-- The name of a kind in titles. -/
def title : NodeKind → String
  | program => "Program"
  | block => "Block"
  | assignment => "Assignment"
  | identifier => "Identifier"
  | integer => "Integer"
  | boolean => "Boolean"
  | binary => "Infix"
  | minus => "Minus"
  | not => "Not"
  | conditional => "If"
  | loop => "While"
  | function => "Function"
  | call => "FunctionCall"

/-- The number of a kind, counted from one. -/
def number (kind : NodeKind) : Nat := all.idxOf kind + 1

/-- The kind with the given name. -/
def ofLabel? (name : String) : Option NodeKind := all.find? fun kind => kind.label == name

end NodeKind

/-- A parameter of a function. -/
structure Parameter where
  name : String
  position : Position := {}
deriving DecidableEq, Repr, Inhabited

/-- A list of forms with the position of the token that starts it. -/
structure Block (α : Type) where
  forms : List α
  position : Position := {}
deriving Repr, Inhabited

/-- A tree. -/
inductive Node where
  /-- An integer literal. -/
  | integer (position : Position) (value : Int)
  /-- `verdadero` or `falso`. -/
  | boolean (position : Position) (value : Bool)
  /-- A name that stands for its value. -/
  | identifier (position : Position) (name : String)
  /-- Two operands joined by an operator. -/
  | binary (position : Position) (operator : Token) (left right : Node)
  /-- A negated number. -/
  | minus (position : Position) (operand : Node)
  /-- A negated truth value. -/
  | not (position : Position) (operand : Node)
  /-- A call of a named function. -/
  | call (position : Position) (name : String) (arguments : List Node)
  /-- A function literal. -/
  | function (position : Position) (parameters : List Parameter) (body : Block Node)
  /-- A binding of a name. -/
  | assignment (position : Position) (name : String) (value : Node)
  /-- A choice between a block and, possibly, another. -/
  | conditional (position : Position) (condition : Node) (consequence : Block Node)
      (alternative : Option (Block Node))
  /-- A block repeated while a condition holds. -/
  | loop (position : Position) (condition : Node) (body : Block Node)
  /-- A block in the place of a form. -/
  | block (block : Block Node)
  /-- A whole program in the place of a form. -/
  | program (position : Position) (forms : List Node)
  /-- A node of which only the kind is known. -/
  | bare (position : Position) (kind : NodeKind)
deriving Inhabited

namespace Node

/-- The position of a node. -/
def position : Node → Position
  | integer p _ | boolean p _ | identifier p _ | binary p _ _ _ | minus p _ | not p _ => p
  | call p _ _ | function p _ _ | assignment p _ _ | conditional p _ _ _ | loop p _ _ => p
  | program p _ | bare p _ => p
  | block b => b.position

/-- The kind of a node. -/
def kind : Node → NodeKind
  | integer .. => .integer
  | boolean .. => .boolean
  | identifier .. => .identifier
  | binary .. => .binary
  | minus .. => .minus
  | not .. => .not
  | call .. => .call
  | function .. => .function
  | assignment .. => .assignment
  | conditional .. => .conditional
  | loop .. => .loop
  | block .. => .block
  | program .. => .program
  | bare _ kind => kind

end Node

/-- The name of a parameter as a node of its own. -/
def Parameter.toNode (p : Parameter) : Node := .identifier p.position p.name

/-- A program: its forms and the position of its first token. -/
structure Program where
  forms : List Node
  position : Position := {}
deriving Inhabited

/-- The program as a tree. -/
def Program.toNode (p : Program) : Node := .program p.position p.forms

/-- What can be handed to a function that shows or runs trees. -/
inductive Exhibit where
  | tree (node : Node)
  | nothing
  | text (s : String)

end Castellano
