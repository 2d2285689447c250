import Castellano.Proofs.Shape

/-!
# The places of nodes

Every node of a tree but its root has a role in the node right above it. What the grammar allows can
be said node by node: which nodes may have which role, and what a node of each kind may hold.

* `Role`, `Node.children`: the nodes right below a node, with their roles; blocks and parameters
  count as nodes.
* `Node.Below`: the nodes anywhere below a root.
* `Node.Fits`: what the grammar asks of a node in a role.
* `Role.Admits`: the shapes of whole trees that a role asks for; what is admitted fits, and so does
  all that lies below.
* `Grammatical`: the nodes of programs that the grammar builds, and these programs.
* `parsed_nodes_fit`: every node of every parsed program fits its role.
-/

namespace Castellano

/-! ## Nodes and their roles -/

/-- What a node is to the node right above it. -/
inductive Role where
  | form
  | left
  | right
  | operand
  | argument
  | parameter
  | value
  | condition
  | consequence
  | alternative
  | body
deriving DecidableEq, Repr

namespace Node

/-- The nodes right below a node, with their roles. -/
def children : Node → List (Role × Node)
  | integer .. | boolean .. | identifier .. | bare .. => []
  | binary _ _ left right => [(.left, left), (.right, right)]
  | minus _ operand | not _ operand => [(.operand, operand)]
  | call _ _ arguments => arguments.map fun a => (.argument, a)
  | function _ parameters body =>
    (parameters.map fun q => (.parameter, q.toNode)) ++ [(.body, block body)]
  | assignment _ _ value => [(.value, value)]
  | conditional _ condition consequence alternative =>
    [(.condition, condition), (.consequence, block consequence)] ++
      alternative.toList.map fun b => (.alternative, block b)
  | loop _ condition body => [(.condition, condition), (.body, block body)]
  | block b => b.forms.map fun f => (.form, f)
  | program _ forms => forms.map fun f => (.form, f)

/-- The node stands somewhere below the root, in the given role. -/
inductive Below (root : Node) : Role → Node → Prop
  | child {role : Role} {node : Node} (h : (role, node) ∈ root.children) : Below root role node
  | deeper {role role' : Role} {node node' : Node} (h : Below root role node)
    (h' : (role', node') ∈ node.children) : Below root role' node'

/-- The name that a node reads, calls or binds. -/
def name? : Node → Option String
  | identifier _ name | call _ name _ | assignment _ name _ => some name
  | _ => none

/-- What the grammar asks of a node in the given role. -/
structure Fits (role : Role) (node : Node) : Prop where
  /-- Integers have 64 bits. -/
  integer : ∀ {p : Position} {value : Int}, node = .integer p value → Word64.InRange value
  /-- Operators are spelled as their kind says. -/
  operator : ∀ {p : Position} {operator : Token} {left right : Node},
    node = .binary p operator left right → operator.IsOperator
  /-- Names are words, but no keywords. -/
  name : ∀ {name : String}, node.name? = some name → IsName name
  /-- Assignments, conditionals and loops are forms of a program or a block, and nothing else. -/
  statement : node.kind ∈ [.assignment, .conditional, .loop] → role = .form
  /-- Blocks are branches of a conditional or bodies of a loop or a function. -/
  block : node.kind = .block → role ∈ [.consequence, .alternative, .body]
  /-- Parameters are names. -/
  parameter : role = .parameter → ∃ p name, node = .identifier p name
  /-- No program lies below another node. -/
  program : node.kind ≠ .program
  /-- Of every node more than the kind is known. -/
  bare : ∀ (p : Position) (kind : NodeKind), node ≠ .bare p kind

end Node

/-! ## Shapes by role -/

/-- The node has the shape that the grammar gives to nodes in the role. -/
def Role.Admits : Role → Node → Prop
  | form, node => Shaped .form node
  | parameter, node => ∃ q : Parameter, node = q.toNode ∧ IsName q.name
  | consequence, node | alternative, node | body, node =>
    ∃ b : Block Node, node = .block b ∧ ∀ f ∈ b.forms, Shaped .form f
  | _, node => Shaped .operand node

namespace Shaped

variable {place : Place} {node : Node}

/-- What lies right below a shaped node has the shape that its role asks for. -/
theorem admits_child (h : Shaped place node) {role : Role} {child : Node}
    (hchild : (role, child) ∈ node.children) : role.Admits child := by
  cases h with
  | integer _ | boolean | identifier _ => simp [Node.children] at hchild
  | binary _ hleft hright =>
    simp only [Node.children, List.mem_cons, Prod.mk.injEq, List.not_mem_nil, or_false] at hchild
    obtain ⟨rfl, rfl⟩ | ⟨rfl, rfl⟩ := hchild
    · exact hleft
    · exact hright
  | minus h | not h | assignment _ h =>
    simp only [Node.children, List.mem_singleton, Prod.mk.injEq] at hchild
    obtain ⟨rfl, rfl⟩ := hchild
    exact h
  | call _ harguments =>
    simp only [Node.children, List.mem_map, Prod.mk.injEq] at hchild
    obtain ⟨a, ha, rfl, rfl⟩ := hchild
    exact harguments a ha
  | @function _ _ _ body hparameters hbody =>
    simp only [Node.children, List.mem_append, List.mem_map, List.mem_singleton,
      Prod.mk.injEq] at hchild
    obtain ⟨q, hq, rfl, rfl⟩ | ⟨rfl, rfl⟩ := hchild
    · exact ⟨q, rfl, hparameters q hq⟩
    · exact ⟨body, rfl, hbody⟩
  | @conditional _ _ consequence alternative hcondition hconsequence halternative =>
    simp only [Node.children, List.mem_append, List.mem_cons, Prod.mk.injEq, List.not_mem_nil,
      or_false, List.mem_map, Option.mem_toList] at hchild
    obtain (⟨rfl, rfl⟩ | ⟨rfl, rfl⟩) | ⟨b, hb, rfl, rfl⟩ := hchild
    · exact hcondition
    · exact ⟨consequence, rfl, hconsequence⟩
    · exact ⟨b, rfl, halternative b hb⟩
  | @loop _ _ body hcondition hbody =>
    simp only [Node.children, List.mem_cons, Prod.mk.injEq, List.not_mem_nil, or_false] at hchild
    obtain ⟨rfl, rfl⟩ | ⟨rfl, rfl⟩ := hchild
    · exact hcondition
    · exact ⟨body, rfl, hbody⟩

/-- A shaped node fits a role if it is a name where the role is that of a parameter, and if the role
    is that of a form where the node need not be an operand. -/
theorem fits (h : Shaped place node) {role : Role}
    (hparameter : role = .parameter → ∃ p name, node = .identifier p name)
    (hform : place = .form → role = .form) : node.Fits role where
  integer := by
    rintro p value rfl
    cases h with
    | integer h => exact h
  operator := by
    rintro p operator left right rfl
    cases h with
    | binary hoperator _ _ => exact hoperator
  name := by
    intro name hname
    cases h with
    | identifier h => exact Option.some.inj hname ▸ h
    | call h _ => exact Option.some.inj hname ▸ h
    | assignment h _ => exact Option.some.inj hname ▸ h
    | _ => cases hname
  statement := by
    intro hkind
    cases h with
    | assignment _ _ | conditional _ _ _ | loop _ _ => exact hform rfl
    | _ => simp [Node.kind] at hkind
  block := by
    intro hkind
    cases h <;> cases hkind
  parameter := hparameter
  program := by
    intro hkind
    cases h <;> cases hkind
  bare := by
    rintro p kind rfl
    cases h

end Shaped

theorem Block.fits (b : Block Node) {role : Role}
    (hrole : role ∈ [.consequence, .alternative, .body]) : (Node.block b).Fits role where
  integer := by rintro _ _ ⟨⟩
  operator := by rintro _ _ _ _ ⟨⟩
  name := by rintro _ ⟨⟩
  statement := by simp [Node.kind]
  block := fun _ => hrole
  parameter := by
    rintro rfl
    simp at hrole
  program := by simp [Node.kind]
  bare := by rintro _ _ ⟨⟩

namespace Role.Admits

variable {role : Role} {node : Node}

theorem child (h : role.Admits node) {role' : Role} {node' : Node}
    (hchild : (role', node') ∈ node.children) : role'.Admits node' := by
  cases role with
  | parameter =>
    obtain ⟨q, rfl, -⟩ := h
    cases hchild
  | consequence | alternative | body =>
    obtain ⟨b, rfl, hforms⟩ := h
    simp only [Node.children, List.mem_map, Prod.mk.injEq] at hchild
    obtain ⟨f, hf, rfl, rfl⟩ := hchild
    exact hforms f hf
  | _ => exact Shaped.admits_child h hchild

theorem fits (h : role.Admits node) : node.Fits role := by
  cases role with
  | form => exact Shaped.fits h (by simp) fun _ => rfl
  | parameter =>
    obtain ⟨q, rfl, hq⟩ := h
    have hname : Shaped .operand q.toNode := .identifier hq
    exact hname.fits (fun _ => ⟨q.position, q.name, rfl⟩) (by simp)
  | consequence | alternative | body =>
    obtain ⟨b, rfl, -⟩ := h
    exact b.fits (by simp)
  | _ => exact Shaped.fits h (by simp) (by simp)

end Role.Admits

/-! ## Programs -/

/-- The node stands somewhere in the program. -/
def Program.Contains (p : Program) (node : Node) : Prop := ∃ role, p.toNode.Below role node

/-- Below a shaped program every node has the shape that its role asks for. -/
theorem Program.Shaped.admits {p : Program} (hp : p.Shaped) {role : Role} {node : Node}
    (h : p.toNode.Below role node) : role.Admits node := by
  induction h with
  | child h =>
    simp only [Program.toNode, Node.children, List.mem_map, Prod.mk.injEq] at h
    obtain ⟨f, hf, rfl, rfl⟩ := h
    exact hp f hf
  | deeper _ hchild ih => exact ih.child hchild

/-- A node of a program that the grammar builds, or the program itself. -/
inductive Grammatical : Node → Prop
  | admitted {role : Role} {node : Node} (h : role.Admits node) : Grammatical node
  | program {p : Program} (h : p.Shaped) : Grammatical p.toNode

namespace Grammatical

variable {node : Node}

theorem not_bare (h : Grammatical node) (p : Position) (kind : NodeKind) : node ≠ .bare p kind := by
  cases h with
  | admitted h => exact h.fits.bare p kind
  | program _ => exact Node.noConfusion

theorem child (h : Grammatical node) {role : Role} {child : Node}
    (hchild : (role, child) ∈ node.children) : Grammatical child := by
  cases h with
  | admitted h => exact .admitted (h.child hchild)
  | program h => exact .admitted (h.admits (.child hchild))

theorem isName (h : Grammatical node) {name : String} (hname : node.name? = some name) :
    IsName name := by
  cases h with
  | admitted h => exact h.fits.name hname
  | program _ => cases hname

theorem isOperator {p : Position} {operator : Token} {left right : Node}
    (h : Grammatical (.binary p operator left right)) : operator.IsOperator := by
  generalize hnode : Node.binary p operator left right = node at h
  cases h with
  | admitted h => exact h.fits.operator hnode.symm
  | program _ => cases hnode

theorem isName_parameter {p : Position} {parameters : List Parameter} {body : Block Node}
    (h : Grammatical (.function p parameters body)) {q : Parameter} (hq : q ∈ parameters) :
    IsName q.name := by
  have hchild : (Role.parameter, q.toNode) ∈ (Node.function p parameters body).children :=
    List.mem_append_left _ (List.mem_map_of_mem hq)
  exact (h.child hchild).isName rfl

end Grammatical

/-- Every node of a parsed program fits its role, also if the source has a diagnostic. -/
theorem parsed_nodes_fit (limits : Limits) (source : String) {role : Role} {node : Node}
    (h : (parseSource limits source).1.toNode.Below role node) : node.Fits role :=
  ((parseSource_shaped limits source).admits h).fits

/-- The integer that is assigned in the branch of a conditional, in a source with a diagnostic. -/
theorem parsed_nodes_fit_assigned :
    (parseSource ⟨9, 0⟩ "si x z := 9223372036854775808 )").2.length = 1 ∧
    ∃ node, (parseSource ⟨9, 0⟩ "si x z := 9223372036854775808 )").1.toNode.Below .value node ∧
      node.kind = .integer ∧ node.Fits .value := by
  generalize hroot : (parseSource ⟨9, 0⟩ "si x z := 9223372036854775808 )").1.toNode = root
  have hvalue : (Role.value, NodeKind.integer) ∈
      (((root.children.flatMap fun c => c.2.children).flatMap fun c => c.2.children).flatMap
        fun c => c.2.children).map fun c => (c.1, c.2.kind) := by
    rw [← hroot]
    decide +kernel
  simp only [List.mem_map, List.mem_flatMap, Prod.mk.injEq] at hvalue
  obtain ⟨⟨_, node⟩, ⟨_, ⟨_, ⟨_, h₁, h₂⟩, h₃⟩, h₄⟩, rfl, hkind⟩ := hvalue
  have hbelow : root.Below .value node := .deeper (.deeper (.deeper (.child h₁) h₂) h₃) h₄
  refine ⟨by decide +kernel, node, hbelow, hkind, ?_⟩
  rw [← hroot] at hbelow
  exact parsed_nodes_fit ⟨9, 0⟩ _ hbelow

end Castellano
