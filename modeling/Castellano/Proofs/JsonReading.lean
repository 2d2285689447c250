import Castellano.Node.Json
import Castellano.Proofs.Places
import Castellano.Proofs.Printing
import Castellano.Proofs.SourceOrder

/-!
# JSON can be read back

The JSON of a node names its kind and has all that its tree holds, except that of an operator only
the sign is written and of a parameter only the name. In a parsed program an operator stands where
its node does and is spelled as its kind says, so that it can be restored; the position of a
parameter is lost.

* `Node.nominal`: a tree with the positions of parameters forgotten.
* `Json.node?`: the reader of trees.
* `Readable`: the trees that can be read back; parsed programs are such.
* `Node.node?_of_toJson?`: reading what was written restores all but the positions of parameters.
* `Node.toJson?_nominal`: these are not written.
-/

namespace Castellano

/-! ## Trees without the positions of parameters -/

/-- The parameter without its position. -/
def Parameter.unplaced (q : Parameter) : Parameter := ⟨q.name, {}⟩

mutual

/-- The tree with parameters that are names without positions; everything else is kept. -/
def Node.nominal : Node → Node
  | .integer p value => .integer p value
  | .boolean p value => .boolean p value
  | .identifier p name => .identifier p name
  | .binary p operator left right => .binary p operator left.nominal right.nominal
  | .minus p operand => .minus p operand.nominal
  | .not p operand => .not p operand.nominal
  | .call p name arguments => .call p name (Node.nominalAll arguments)
  | .function p parameters body =>
    .function p (parameters.map Parameter.unplaced) (Block.nominal body)
  | .assignment p name value => .assignment p name value.nominal
  | .conditional p condition consequence alternative =>
    .conditional p condition.nominal (Block.nominal consequence)
      (Block.nominalOption alternative)
  | .loop p condition body => .loop p condition.nominal (Block.nominal body)
  | .block b => .block (Block.nominal b)
  | .program p forms => .program p (Node.nominalAll forms)
  | .bare p kind => .bare p kind

/-- The trees without the positions of parameters. -/
def Node.nominalAll : List Node → List Node
  | [] => []
  | node :: nodes => node.nominal :: Node.nominalAll nodes

/-- The block without the positions of parameters. -/
def Block.nominal : Block Node → Block Node
  | ⟨forms, position⟩ => ⟨Node.nominalAll forms, position⟩

/-- The block, if there is one, without the positions of parameters. -/
def Block.nominalOption : Option (Block Node) → Option (Block Node)
  | none => none
  | some b => some (Block.nominal b)

end

/-- The program without the positions of parameters. -/
def Program.nominal (p : Program) : Program := ⟨p.forms.map Node.nominal, p.position⟩

@[simp]
theorem Node.nominalAll_eq_map (nodes : List Node) :
    Node.nominalAll nodes = nodes.map Node.nominal := by
  induction nodes with
  | nil => rfl
  | cons node nodes ih => rw [Node.nominalAll, ih, List.map_cons]

@[simp]
theorem Block.nominalOption_eq_map (b : Option (Block Node)) :
    Block.nominalOption b = b.map Block.nominal := by
  cases b <;> rfl

theorem Block.nominal_eq (b : Block Node) :
    Block.nominal b = ⟨b.forms.map Node.nominal, b.position⟩ := by
  obtain ⟨forms, position⟩ := b
  rw [Block.nominal, Node.nominalAll_eq_map]

/-! ## Reading -/

/-- The kind of the operator with the given sign. -/
def TokenKind.ofOperatorSign? (sign : String) : Option TokenKind :=
  (operatorSigns.find? fun entry => entry.2 == sign).map Prod.fst

namespace Json

variable (sub : Json → Option Node)

/-- Reads a block, given how its forms are read. -/
def block? : Json → Option (Block Node)
  | object [_, (_, integer line), (_, integer column), (_, array forms)] => do
    return ⟨← forms.mapM sub, ⟨line, column⟩⟩
  | _ => none

/-- Reads what may stand in the place of a second branch. -/
def alternative? : Json → Option (Option (Block Node))
  | null => some none
  | json => some <$> block? sub json

/-- Reads a parameter, whose position is not written. -/
def parameter? : Json → Option Parameter
  | string name => some ⟨name, {}⟩
  | _ => none

/-- Reads the fields of a node of the given kind. An operator stands where its node does. -/
def fields? (p : Position) : NodeKind → List (String × Json) → Option Node
  | .integer, [(_, integer value)] => some (.integer p value)
  | .boolean, [(_, boolean value)] => some (.boolean p value)
  | .identifier, [(_, string name)] => some (.identifier p name)
  | .binary, [(_, string sign), (_, left), (_, right)] => do
    let kind ← TokenKind.ofOperatorSign? sign
    return .binary p ⟨kind, sign, p⟩ (← sub left) (← sub right)
  | .minus, [(_, operand)] => do return .minus p (← sub operand)
  | .not, [(_, operand)] => do return .not p (← sub operand)
  | .call, [(_, string name), (_, array arguments)] => do
    return .call p name (← arguments.mapM sub)
  | .function, [(_, array parameters), (_, body)] => do
    return .function p (← parameters.mapM parameter?) (← block? sub body)
  | .assignment, [(_, string name), (_, value)] => do return .assignment p name (← sub value)
  | .conditional, [(_, condition), (_, consequence), (_, alternative)] => do
    return .conditional p (← sub condition) (← block? sub consequence)
      (← alternative? sub alternative)
  | .loop, [(_, condition), (_, body)] => do return .loop p (← sub condition) (← block? sub body)
  | .block, [(_, array forms)] => do return .block ⟨← forms.mapM sub, p⟩
  | .program, [(_, array forms)] => do return .program p (← forms.mapM sub)
  | _, _ => none

/-- Reads a node, given how those below it are read. -/
def layer? : Json → Option Node
  | object ((_, string label) :: (_, integer line) :: (_, integer column) :: fields) => do
    fields? sub ⟨line, column⟩ (← NodeKind.ofLabel? label) fields
  | _ => none

/-- Reads a tree with at most `limit` nodes above each other. -/
def node? : (limit : Nat) → Json → Option Node
  | 0, _ => none
  | limit + 1, json => layer? (node? limit) json

end Json

/-! ## Trees that can be read back -/

theorem Node.inOrder_subset_all {nodes : List Node} {node : Node} (h : node ∈ nodes) :
    node.inOrder ⊆ Node.inOrderAll nodes := by
  induction nodes with
  | nil => cases h
  | cons first nodes ih =>
    rw [Node.inOrderAll]
    obtain rfl | h := List.mem_cons.1 h
    · exact List.subset_append_left _ _
    · exact List.Subset.trans (ih h) (List.subset_append_right _ _)

theorem Block.inOrder_eq (b : Block Node) : Block.inOrder b = Node.inOrderAll b.forms := by
  obtain ⟨forms, position⟩ := b
  rw [Block.inOrder]

/-- The nodes of a part of a tree are among those of the tree. -/
theorem Node.inOrder_subset_of_child {node child : Node} {role : Role}
    (h : (role, child) ∈ node.children) : child.inOrder ⊆ node.inOrder := by
  cases node with
  | integer | boolean | identifier | bare => cases h
  | binary p operator left right =>
    simp only [children, List.mem_cons, Prod.mk.injEq, List.not_mem_nil, or_false] at h
    rw [inOrder]
    obtain ⟨-, rfl⟩ | ⟨-, rfl⟩ := h
    · exact List.subset_append_left _ _
    · exact List.Subset.trans (List.subset_cons_self _ _) (List.subset_append_right _ _)
  | minus p operand | not p operand | assignment p name operand =>
    simp only [children, List.mem_singleton, Prod.mk.injEq] at h
    rw [inOrder, h.2]
    exact List.subset_cons_self _ _
  | call p name arguments =>
    simp only [children, List.mem_map, Prod.mk.injEq] at h
    obtain ⟨a, ha, -, rfl⟩ := h
    rw [inOrder]
    exact List.Subset.trans (inOrder_subset_all ha) (List.subset_cons_self _ _)
  | function p parameters body =>
    simp only [children, List.mem_append, List.mem_map, List.mem_singleton, Prod.mk.injEq] at h
    rw [inOrder]
    refine List.Subset.trans ?_ (List.subset_cons_self _ _)
    obtain ⟨q, hq, -, rfl⟩ | ⟨-, rfl⟩ := h
    · refine List.Subset.trans ?_ (List.subset_append_left _ _)
      rintro n hn
      obtain rfl := List.mem_singleton.1 hn
      exact List.mem_map_of_mem hq
    · exact List.subset_append_right _ _
  | conditional p condition consequence alternative =>
    simp only [children, List.mem_append, List.mem_cons, Prod.mk.injEq, List.not_mem_nil,
      or_false, List.mem_map, Option.mem_toList] at h
    rw [inOrder]
    refine List.Subset.trans ?_ (List.subset_cons_self _ _)
    obtain (⟨-, rfl⟩ | ⟨-, rfl⟩) | ⟨b, rfl, -, rfl⟩ := h
    · exact List.Subset.trans (List.subset_append_left _ _) (List.subset_append_left _ _)
    · exact List.Subset.trans (List.subset_append_right _ _) (List.subset_append_left _ _)
    · exact List.subset_append_right _ _
  | loop p condition body =>
    simp only [children, List.mem_cons, Prod.mk.injEq, List.not_mem_nil, or_false] at h
    rw [inOrder]
    refine List.Subset.trans ?_ (List.subset_cons_self _ _)
    obtain ⟨-, rfl⟩ | ⟨-, rfl⟩ := h
    · exact List.subset_append_left _ _
    · exact List.subset_append_right _ _
  | block b =>
    simp only [children, List.mem_map, Prod.mk.injEq] at h
    obtain ⟨f, hf, -, rfl⟩ := h
    rw [inOrder, Block.inOrder_eq]
    exact inOrder_subset_all hf
  | program p forms =>
    simp only [children, List.mem_map, Prod.mk.injEq] at h
    obtain ⟨f, hf, -, rfl⟩ := h
    rw [inOrder]
    exact inOrder_subset_all hf

/-- A tree of the grammar in which every node stands for a token. -/
structure Readable (node : Node) : Prop where
  grammatical : Grammatical node
  standsFor : ∀ n ∈ node.inOrder, ∃ t, n.StandsFor t

namespace Readable

theorem child {node child : Node} (h : Readable node)
    (hchild : child ∈ node.children.map Prod.snd) : Readable child := by
  obtain ⟨⟨role, child⟩, hmem, rfl⟩ := List.mem_map.1 hchild
  refine ⟨h.grammatical.child hmem, fun n hn => ?_⟩
  exact h.standsFor n (Node.inOrder_subset_of_child hmem hn)

/-- An operator is known from its sign and from the position of its node. -/
theorem operator_eq {p : Position} {operator : Token} {left right : Node}
    (h : Readable (.binary p operator left right)) :
    ∃ kind, TokenKind.ofOperatorSign? operator.literal = some kind ∧
      operator = ⟨kind, operator.literal, p⟩ := by
  have hsigns : ∀ entry ∈ TokenKind.operatorSigns,
      TokenKind.ofOperatorSign? entry.2 = some entry.1 := by decide
  -- the node stands for its operator, and so both have one position
  obtain ⟨t, -, rfl, rfl⟩ := h.standsFor (.binary p operator left right) (by simp [Node.inOrder])
  exact ⟨operator.kind, hsigns _ h.grammatical.isOperator, rfl⟩

end Readable

/-- Every parsed program is readable, also if the source has a diagnostic. -/
theorem readable_parseSource (limits : Limits) (source : String) :
    Readable (parseSource limits source).1.toNode := by
  refine ⟨.program (parseSource_shaped limits source), ?_⟩
  obtain ⟨s₁, ⟨read, -, -, haccounts⟩, -⟩ := Grammar.forms_reads
    (Grammar.nested_reads limits.depth) (TokenStream.ended_ofSource source)
  intro n hn
  rw [Program.toNode, Node.inOrder, parseSource_eq] at hn
  obtain ⟨t, -, ht⟩ := exists_mem_of_forall₂ haccounts.significant hn
  exact ⟨t, ht⟩

/-! ## What is written is read -/

theorem NodeKind.ofLabel?_label (kind : NodeKind) : ofLabel? kind.label = some kind := by
  cases kind <;> decide

section Layer

variable {write : Node → Option Json} {read : Json → Option Node}
  (hsub : ∀ {node : Node} {json : Json}, Readable node → write node = some json →
    read json = some node.nominal)

include hsub

theorem block?_of_jsonBlock {b : Block Node} {json : Json} (hb : Readable (.block b))
    (h : Node.jsonBlock write b = some json) :
    Json.block? read json = some (Block.nominal b) := by
  simp only [Node.jsonBlock, Option.bind_eq_bind, Option.bind_eq_some_iff, Option.pure_def,
    Option.some.injEq] at h
  obtain ⟨jsons, hforms, rfl⟩ := h
  have hread := mapM_of_mapM (f := Node.nominal) hforms fun f hf json hjson =>
    hsub (hb.child (by simpa [Node.children] using hf)) hjson
  rw [Block.nominal_eq]
  simp [Node.jsonObject, Json.block?, hread]

omit hsub in
theorem alternative?_of_block? {json : Json} {b : Block Node}
    (h : Json.block? read json = some b) : Json.alternative? read json = some (some b) := by
  cases json with
  | null => cases h
  | _ =>
    rw [Json.alternative?, h]
    · rfl
    · simp

theorem alternative?_of_jsonBlock {alternative : Option (Block Node)} {json : Json}
    (hb : ∀ b ∈ alternative, Readable (.block b))
    (h : (alternative.map (Node.jsonBlock write)).getD (some .null) = some json) :
    Json.alternative? read json = some (alternative.map Block.nominal) := by
  cases alternative with
  | none =>
    obtain rfl := Option.some.inj h
    rfl
  | some b => exact alternative?_of_block? (block?_of_jsonBlock hsub (hb b rfl) h)

omit hsub in
theorem mapM_parameter? (parameters : List Parameter) :
    (parameters.map fun q => Json.string q.name).mapM Json.parameter? =
      some (parameters.map Parameter.unplaced) := by
  rw [mapM_eq_some_iff, List.forall₂_map_left_iff, List.forall₂_map_right_iff, List.forall₂_same]
  intro q _
  rfl

/-- The fields of a node are read back if those of the nodes below it are. -/
theorem fields?_of_jsonFields {node : Node} {fields : List (String × Json)}
    (hnode : Readable node) (h : Node.jsonFields write node = some fields) :
    Json.fields? read node.position node.kind fields = some node.nominal := by
  have hall : ∀ {nodes : List Node} {jsons : List Json}, (∀ n ∈ nodes, Readable n) →
      nodes.mapM write = some jsons → jsons.mapM read = some (nodes.map Node.nominal) :=
    fun hnodes hjsons => mapM_of_mapM hjsons fun n hn _ => hsub (hnodes n hn)
  cases node <;>
    simp only [Node.jsonFields, Option.bind_eq_bind, Option.bind_eq_some_iff, Option.pure_def,
      Option.some.injEq] at h
  case integer | boolean | identifier =>
    subst h
    rfl
  case bare p kind => exact absurd rfl (hnode.grammatical.not_bare p kind)
  case binary p operator left right =>
    obtain ⟨left', hleft, right', hright, rfl⟩ := h
    obtain ⟨kind, hkind, hoperator⟩ := hnode.operator_eq
    have hleft := hsub (hnode.child (by simp [Node.children])) hleft
    have hright := hsub (hnode.child (by simp [Node.children])) hright
    simp [Node.position, Node.kind, Node.nominal, Json.fields?, hkind, hleft, hright,
      ← hoperator]
  case minus | not | assignment =>
    obtain ⟨operand', hoperand, rfl⟩ := h
    have hoperand := hsub (hnode.child (by simp [Node.children])) hoperand
    simp [Node.position, Node.kind, Node.nominal, Json.fields?, hoperand]
  case call p name arguments =>
    obtain ⟨arguments', harguments, rfl⟩ := h
    have harguments := hall (fun a ha => hnode.child (by simpa [Node.children] using ha)) harguments
    simp [Node.position, Node.kind, Node.nominal, Json.fields?, harguments]
  case function p parameters body =>
    obtain ⟨body', hbody, rfl⟩ := h
    have hbody := block?_of_jsonBlock hsub (hnode.child (by simp [Node.children])) hbody
    simp only [Node.position, Node.kind, Node.nominal, Json.fields?, hbody, mapM_parameter?]
    rfl
  case conditional p condition consequence alternative =>
    obtain ⟨condition', hcondition, consequence', hconsequence, alternative', halternative, rfl⟩ :=
      h
    have hcondition := hsub (hnode.child (by simp [Node.children])) hcondition
    have hconsequence := block?_of_jsonBlock hsub (hnode.child (by simp [Node.children]))
      hconsequence
    have halternative := alternative?_of_jsonBlock hsub
      (fun b hb => hnode.child (by simp [Node.children, Option.mem_def.1 hb])) halternative
    simp [Node.position, Node.kind, Node.nominal, Json.fields?, hcondition, hconsequence,
      halternative]
  case loop p condition body =>
    obtain ⟨condition', hcondition, body', hbody, rfl⟩ := h
    have hcondition := hsub (hnode.child (by simp [Node.children])) hcondition
    have hbody := block?_of_jsonBlock hsub (hnode.child (by simp [Node.children])) hbody
    simp [Node.position, Node.kind, Node.nominal, Json.fields?, hcondition, hbody]
  case block b =>
    obtain ⟨forms', hforms, rfl⟩ := h
    have hforms := hall (fun f hf => hnode.child (by simpa [Node.children] using hf)) hforms
    simp [Node.position, Node.kind, Node.nominal, Json.fields?, hforms, Block.nominal_eq]
  case program p forms =>
    obtain ⟨forms', hforms, rfl⟩ := h
    have hforms := hall (fun f hf => hnode.child (by simpa [Node.children] using hf)) hforms
    simp [Node.position, Node.kind, Node.nominal, Json.fields?, hforms]

theorem layer?_of_jsonLayer {node : Node} {json : Json} (hnode : Readable node)
    (h : Node.jsonLayer write node = some json) :
    Json.layer? read json = some node.nominal := by
  simp only [Node.jsonLayer, Option.bind_eq_bind, Option.bind_eq_some_iff, Option.pure_def,
    Option.some.injEq] at h
  obtain ⟨fields, hfields, rfl⟩ := h
  rw [Node.jsonObject, List.cons_append, List.cons_append, List.cons_append, List.nil_append,
    Json.layer?, NodeKind.ofLabel?_label]
  exact fields?_of_jsonFields hsub hnode hfields

end Layer

/-- A tree is read back from its JSON, except for the positions of parameters. -/
theorem Node.node?_of_toJson? {limit limit' : Nat} (hle : limit ≤ limit') {node : Node}
    {json : Json} (hnode : Readable node) (h : node.toJson? limit = some json) :
    json.node? limit' = some node.nominal := by
  induction limit generalizing limit' node json with
  | zero => cases h
  | succ limit ih =>
    obtain ⟨limit', rfl⟩ : ∃ n, limit' = n + 1 := ⟨limit' - 1, by omega⟩
    exact layer?_of_jsonLayer (fun hchild hjson => ih (by omega) hchild hjson) hnode h

/-! ## What is not written -/

section Rewritten

variable {write write' : Node → Option Json}
  (hsub : ∀ {node : Node} {json : Json}, write node = some json →
    write' node.nominal = some json)

include hsub

theorem mapM_nominal {nodes : List Node} {jsons : List Json}
    (h : nodes.mapM write = some jsons) : (nodes.map Node.nominal).mapM write' = some jsons := by
  rw [mapM_eq_some_iff] at h ⊢
  rw [List.forall₂_map_left_iff]
  exact h.imp fun _ _ => hsub

theorem jsonBlock_nominal {b : Block Node} {json : Json}
    (h : Node.jsonBlock write b = some json) :
    Node.jsonBlock write' (Block.nominal b) = some json := by
  simp only [Node.jsonBlock, Option.bind_eq_bind, Option.bind_eq_some_iff, Option.pure_def,
    Option.some.injEq] at h
  obtain ⟨jsons, hforms, rfl⟩ := h
  rw [Block.nominal_eq]
  simp [Node.jsonBlock, mapM_nominal hsub hforms]

/-- The positions of parameters have no effect on the fields of a node. -/
theorem jsonFields_nominal {node : Node} {fields : List (String × Json)}
    (h : Node.jsonFields write node = some fields) :
    Node.jsonFields write' node.nominal = some fields := by
  cases node <;>
    simp only [Node.jsonFields, Option.bind_eq_bind, Option.bind_eq_some_iff, Option.pure_def,
      Option.some.injEq] at h
  case integer | boolean | identifier | bare =>
    subst h
    rfl
  case binary =>
    obtain ⟨left', hleft, right', hright, rfl⟩ := h
    simp [Node.nominal, Node.jsonFields, hsub hleft, hsub hright]
  case minus | not | assignment =>
    obtain ⟨operand', hoperand, rfl⟩ := h
    simp [Node.nominal, Node.jsonFields, hsub hoperand]
  case call | program =>
    obtain ⟨nodes', hnodes, rfl⟩ := h
    simp [Node.nominal, Node.jsonFields, mapM_nominal hsub hnodes]
  case block b =>
    obtain ⟨nodes', hnodes, rfl⟩ := h
    simp [Node.nominal, Node.jsonFields, Block.nominal_eq, mapM_nominal hsub hnodes]
  case function p parameters body =>
    obtain ⟨body', hbody, rfl⟩ := h
    simp [Node.nominal, Node.jsonFields, jsonBlock_nominal hsub hbody, Parameter.unplaced]
  case conditional p condition consequence alternative =>
    obtain ⟨condition', hcondition, consequence', hconsequence, alternative', halternative, rfl⟩ :=
      h
    have hrest : ((alternative.map Block.nominal).map (Node.jsonBlock write')).getD
        (some .null) = some alternative' := by
      cases alternative with
      | none => exact halternative
      | some b => exact jsonBlock_nominal hsub halternative
    simp only [Node.nominal, Node.jsonFields, hsub hcondition,
      jsonBlock_nominal hsub hconsequence, Block.nominalOption_eq_map, hrest]
    rfl
  case loop =>
    obtain ⟨condition', hcondition, body', hbody, rfl⟩ := h
    simp [Node.nominal, Node.jsonFields, hsub hcondition, jsonBlock_nominal hsub hbody]

end Rewritten

theorem Node.kind_nominal (node : Node) : node.nominal.kind = node.kind := by
  cases node <;> rfl

theorem Node.position_nominal (node : Node) : node.nominal.position = node.position := by
  cases node with
  | block b =>
    rw [Node.nominal, Block.nominal_eq]
    rfl
  | _ => rfl

/-- Under a larger limit, and without the positions of parameters, a tree has the same JSON. -/
theorem Node.toJson?_nominal {limit limit' : Nat} (hle : limit ≤ limit') {node : Node}
    {json : Json} (h : node.toJson? limit = some json) :
    node.nominal.toJson? limit' = some json := by
  induction limit generalizing limit' node json with
  | zero => cases h
  | succ limit ih =>
    obtain ⟨limit', rfl⟩ : ∃ n, limit' = n + 1 := ⟨limit' - 1, by omega⟩
    rw [Node.toJson?, Node.jsonLayer, Option.bind_eq_bind, Option.bind_eq_some_iff] at h
    obtain ⟨fields, hfields, hobject⟩ := h
    have hfields' := jsonFields_nominal (fun hjson => ih (Nat.le_of_succ_le_succ hle) hjson)
      hfields
    rw [Node.toJson?, Node.jsonLayer, hfields', Node.kind_nominal, Node.position_nominal]
    exact hobject

theorem Program.nominal_toNode (p : Program) : p.toNode.nominal = p.nominal.toNode := by
  rw [Program.toNode, Node.nominal, Node.nominalAll_eq_map]
  rfl

/-- Parsed programs whose JSON comes to an end have the same JSON exactly if they are equal except
    for the positions of parameters. -/
theorem json_determines_program {limits limits' : Limits} {source source' : String}
    {limit limit' : Nat} {json json' : Json}
    (h : (parseSource limits source).1.toNode.toJson? limit = some json)
    (h' : (parseSource limits' source').1.toNode.toJson? limit' = some json') :
    json = json' ↔
      (parseSource limits source).1.nominal = (parseSource limits' source').1.nominal := by
  constructor
  · rintro rfl
    have hread := Node.node?_of_toJson? (Nat.le_max_left limit limit')
      (readable_parseSource limits source) h
    have hread' := Node.node?_of_toJson? (Nat.le_max_right limit limit')
      (readable_parseSource limits' source') h'
    rw [hread', Option.some.injEq, Program.nominal_toNode, Program.nominal_toNode] at hread
    obtain ⟨hposition, hforms⟩ := Node.program.inj hread.symm
    exact congrArg₂ Program.mk hforms hposition
  · intro hprogram
    have hwritten := Node.toJson?_nominal (Nat.le_max_left limit limit') h
    have hwritten' := Node.toJson?_nominal (Nat.le_max_right limit limit') h'
    rw [Program.nominal_toNode, hprogram, ← Program.nominal_toNode, hwritten'] at hwritten
    exact (Option.some.inj hwritten).symm

/-- Moving an operator shows in the JSON. -/
theorem json_determines_program_moved :
    ((parseSource ⟨9, 0⟩ "x + -1").1.toNode.toJson? 9).isSome ∧
    ((parseSource ⟨9, 0⟩ "x  +-1").1.toNode.toJson? 9).isSome ∧
    (parseSource ⟨9, 0⟩ "x + -1").1.toNode.toJson? 9 ≠
      (parseSource ⟨9, 0⟩ "x  +-1").1.toNode.toJson? 9 := by
  obtain ⟨hsome, hsome', hplaces⟩ :
      ((parseSource ⟨9, 0⟩ "x + -1").1.toNode.toJson? 9).isSome ∧
      ((parseSource ⟨9, 0⟩ "x  +-1").1.toNode.toJson? 9).isSome ∧
      (parseSource ⟨9, 0⟩ "x + -1").1.nominal.forms.map Node.position ≠
        (parseSource ⟨9, 0⟩ "x  +-1").1.nominal.forms.map Node.position := by
    decide +kernel
  refine ⟨hsome, hsome', fun hsame => hplaces ?_⟩
  obtain ⟨json, h⟩ := Option.isSome_iff_exists.1 hsome
  have h' := hsame.symm.trans h
  rw [(json_determines_program h h').1 rfl]

end Castellano
