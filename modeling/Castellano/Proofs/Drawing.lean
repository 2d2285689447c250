import Castellano.Node.Graph

/-!
# The graph of a tree is the tree

Nodes are drawn from a stack of pending nodes, and the nodes below a node are numbered before any
of them is drawn. All the same the statements are those of a walk down the tree: the box of a node,
its arrows, and then what is drawn for each node below it in turn.

* `Diagram`: a tree of which only the shape, the contents of its boxes and the roles are left;
  `Node.diagram` is that of a tree with its labels.
* `Diagram.number`, `Diagram.statements`: the numbers that a walk down gives to the boxes, and the
  statements of a diagram with numbers.
* `Diagram.number_spec`: each number is given once.
* `Diagram.readsBack`: a diagram can be read back from its statements.
* `Node.drawPending_numbers`: drawing from the stack walks down the trees on top of it, and goes on
  with the rest.
* `drawing_is_the_tree`: what is drawn of a tree.
-/

namespace Castellano

namespace Statement

/-- The number and the label of a box. -/
def box? : Statement → Option (Nat × String)
  | box id label => some (id, label)
  | arrow .. => none

/-- The number of the box that an arrow leads to, and the role of that box. -/
def arrow? : Statement → Option (Nat × String)
  | box .. => none
  | arrow _ target role => some (target, role)

end Statement

/-! ## Diagrams -/

/-- Boxes inside each other, each with a content and, for those below it, their roles. -/
inductive Diagram (α : Type) where
  | box (content : α) (below : List (String × Diagram α))

namespace Diagram

variable {α β : Type}

/-- What holds of a box whenever it holds of all boxes right below it holds of every diagram. -/
@[elab_as_elim, induction_eliminator]
theorem induction {motive : Diagram α → Prop}
    (box : ∀ content below, (∀ entry ∈ below, motive entry.2) → motive (box content below)) :
    ∀ d, motive d
  | .box content below => box content below fun entry _ => induction box entry.2
termination_by d => sizeOf d
decreasing_by
  have hentry := List.sizeOf_lt_of_mem ‹entry ∈ below›
  obtain ⟨role, d⟩ := entry
  simp only [Prod.mk.sizeOf_spec, Diagram.box.sizeOf_spec] at hentry ⊢
  omega

/-- The content of the outer box. -/
def content : Diagram α → α
  | box content _ => content

mutual

/-- The contents of all boxes, each before those of the boxes below it. -/
def preorder : Diagram α → List α
  | box content below => content :: preorderAll below

/-- The contents of all boxes of several diagrams. -/
def preorderAll : List (String × Diagram α) → List α
  | [] => []
  | (_, d) :: rest => d.preorder ++ preorderAll rest

end

mutual

/-- The diagram with other contents. -/
def map (f : α → β) : Diagram α → Diagram β
  | box content below => box (f content) (mapAll f below)

/-- The diagrams with other contents. -/
def mapAll (f : α → β) : List (String × Diagram α) → List (String × Diagram β)
  | [] => []
  | (role, d) :: rest => (role, d.map f) :: mapAll f rest

end

mutual

/-- The diagram with a number in each box: `id` in the outer one, and the numbers from `next` on in
    those below it, first in all that lie right below it. Also the first number that is left. -/
def number (id next : Nat) : Diagram α → Diagram (Nat × α) × Nat
  | box content below =>
    let numbered := numberAll next (next + below.length) below
    (box (id, content) numbered.1, numbered.2)

/-- The diagrams with numbers in their boxes: those from `id` on in the outer ones, and those from
    `next` on below them. Also the first number that is left. -/
def numberAll (id next : Nat) :
    List (String × Diagram α) → List (String × Diagram (Nat × α)) × Nat
  | [] => ([], next)
  | (role, d) :: rest =>
    let first := number id next d
    let others := numberAll (id + 1) first.2 rest
    ((role, first.1) :: others.1, others.2)

end

/-- The arrows from a box to the outer boxes of diagrams with numbers. -/
def arrows (source : Nat) (below : List (String × Diagram (Nat × String))) : List Statement :=
  below.map fun entry => .arrow source entry.2.content.1 entry.1

mutual

/-- The statements of a diagram with numbers: the outer box, the arrows to the boxes right below it,
    and the statements of each of these in turn. -/
def statements : Diagram (Nat × String) → List Statement
  | box content below =>
    .box content.1 content.2 :: (arrows content.1 below ++ statementsAll below)

/-- The statements of several diagrams, one after the other. -/
def statementsAll : List (String × Diagram (Nat × String)) → List Statement
  | [] => []
  | (_, d) :: rest => d.statements ++ statementsAll rest

end

theorem preorder_map (f : α → β) (d : Diagram α) : (d.map f).preorder = d.preorder.map f := by
  induction d with
  | box content below ih =>
    rw [map, preorder, preorder, List.map_cons]
    congr 1
    induction below with
    | nil => rfl
    | cons entry below ihb =>
      obtain ⟨hfirst, hrest⟩ := List.forall_mem_cons.1 ih
      rw [mapAll, preorderAll, preorderAll, List.map_append, hfirst, ihb hrest]

/-! ## Numbers -/

theorem content_number (d : Diagram α) (id next : Nat) :
    (d.number id next).1.content.1 = id := by
  cases d
  rfl

theorem map_snd_numberAll {below : List (String × Diagram α)}
    (h : ∀ entry ∈ below, ∀ id next, (entry.2.number id next).1.map Prod.snd = entry.2)
    (id next : Nat) : mapAll Prod.snd (numberAll id next below).1 = below := by
  induction below generalizing id next with
  | nil => rfl
  | cons entry below ih =>
    obtain ⟨hfirst, hrest⟩ := List.forall_mem_cons.1 h
    rw [numberAll, mapAll, hfirst, ih hrest]

/-- Numbers are added, and nothing else is changed. -/
theorem map_snd_number (d : Diagram α) (id next : Nat) :
    (d.number id next).1.map Prod.snd = d := by
  induction d generalizing id next with
  | box content below ih => rw [number, map, map_snd_numberAll ih]

/-- The walk gives the number `id` to the outer box and, in some order, the numbers from `next` on
    to the others. -/
def NumbersOnce (d : Diagram α) : Prop :=
  ∀ id next, ∃ others, d.preorder.length = others + 1 ∧ (d.number id next).2 = next + others ∧
    ((d.number id next).1.preorder.map Prod.fst).Perm (id :: List.range' next others)

theorem numberAll_spec {below : List (String × Diagram α)}
    (h : ∀ entry ∈ below, NumbersOnce entry.2) (id next : Nat) :
    ∃ others, (preorderAll below).length = others + below.length ∧
      (numberAll id next below).2 = next + others ∧
      ((preorderAll (numberAll id next below).1).map Prod.fst).Perm
        (List.range' id below.length ++ List.range' next others) := by
  induction below generalizing id next with
  | nil => exact ⟨0, rfl, rfl, .refl _⟩
  | cons entry below ih =>
    obtain ⟨hfirst, hrest⟩ := List.forall_mem_cons.1 h
    obtain ⟨k, hlength, hfree, hperm⟩ := hfirst id next
    obtain ⟨l, hlengths, hfrees, hperms⟩ := ih hrest (id + 1) (next + k)
    refine ⟨k + l, ?_, ?_, ?_⟩
    · rw [preorderAll, List.length_append, hlength, hlengths, List.length_cons]
      omega
    · rw [numberAll, hfree, hfrees]
      omega
    · rw [numberAll, hfree, preorderAll, List.map_append, List.length_cons, List.range'_succ,
        ← List.range'_append_1, List.cons_append]
      refine (hperm.append hperms).trans ?_
      rw [List.cons_append, ← List.append_assoc, ← List.append_assoc]
      exact ((List.perm_append_comm).append_right _).cons id

theorem number_spec (d : Diagram α) : NumbersOnce d := by
  induction d with
  | box content below ih =>
    intro id next
    obtain ⟨others, hlength, hfree, hperm⟩ := numberAll_spec ih next (next + below.length)
    refine ⟨below.length + others, ?_, ?_, ?_⟩
    · rw [preorder, List.length_cons, hlength]
      omega
    · rw [number, hfree]
      omega
    · rw [number, preorder, List.map_cons, ← List.range'_append_1]
      exact hperm.cons id

/-! ## Boxes and arrows of a diagram -/

theorem filterMap_box?_arrows (source : Nat) (below : List (String × Diagram (Nat × String))) :
    (arrows source below).filterMap Statement.box? = [] := by
  induction below with
  | nil => rfl
  | cons entry below ih => exact ih

theorem filterMap_arrow?_arrows (source : Nat) (below : List (String × Diagram (Nat × String))) :
    (arrows source below).filterMap Statement.arrow? =
      below.map fun entry => (entry.2.content.1, entry.1) := by
  induction below with
  | nil => rfl
  | cons entry below ih => exact congrArg _ ih

/-- The boxes are those of the diagram, in order. -/
theorem filterMap_box?_statements (d : Diagram (Nat × String)) :
    d.statements.filterMap Statement.box? = d.preorder := by
  induction d with
  | box content below ih =>
    have hbelow : (statementsAll below).filterMap Statement.box? = preorderAll below := by
      induction below with
      | nil => rfl
      | cons entry below ihb =>
        obtain ⟨hfirst, hrest⟩ := List.forall_mem_cons.1 ih
        rw [statementsAll, preorderAll, List.filterMap_append, hfirst, ihb hrest]
    show content :: (arrows content.1 below ++ statementsAll below).filterMap Statement.box? = _
    rw [List.filterMap_append, filterMap_box?_arrows, hbelow, List.nil_append, preorder]

/-- The numbers of the boxes that arrows lead to. -/
def targets (statements : List Statement) : List Nat :=
  (statements.filterMap Statement.arrow?).map Prod.fst

theorem targets_append (as bs : List Statement) :
    targets (as ++ bs) = targets as ++ targets bs := by
  simp [targets]

theorem targets_arrows (source : Nat) (below : List (String × Diagram (Nat × String))) :
    targets (arrows source below) = below.map fun entry => entry.2.content.1 := by
  rw [targets, filterMap_arrow?_arrows, List.map_map]
  rfl

/-- The arrows lead, in some order, to all boxes but the outer one. -/
theorem targets_statements_perm (d : Diagram (Nat × String)) :
    (d.content.1 :: targets d.statements).Perm (d.preorder.map Prod.fst) := by
  induction d with
  | box content below ih =>
    have hbelow : ((below.map fun entry => entry.2.content.1) ++ targets (statementsAll below)).Perm
        ((preorderAll below).map Prod.fst) := by
      induction below with
      | nil => exact .refl _
      | cons entry below ihb =>
        obtain ⟨hfirst, hrest⟩ := List.forall_mem_cons.1 ih
        rw [statementsAll, preorderAll, targets_append, List.map_append, List.map_cons]
        refine List.Perm.trans (.cons _ ?_) (hfirst.append (ihb hrest))
        show (_ ++ (targets entry.2.statements ++ _)).Perm (targets entry.2.statements ++ (_ ++ _))
        rw [← List.append_assoc, ← List.append_assoc]
        exact List.perm_append_comm.append_right _
    rw [preorder, List.map_cons]
    show (content.1 :: targets (arrows content.1 below ++ statementsAll below)).Perm _
    rw [targets_append, targets_arrows]
    exact hbelow.cons _

/-! ## Reading a diagram back -/

/-- The statements do not begin with an arrow. -/
def NoArrowFirst (statements : List Statement) : Prop :=
  ∀ s ∈ statements.head?, s.arrow? = none

theorem noArrowFirst_statementsAll (below : List (String × Diagram (Nat × String)))
    {rest : List Statement} (h : NoArrowFirst rest) :
    NoArrowFirst (statementsAll below ++ rest) := by
  cases below with
  | nil => exact h
  | cons entry below =>
    obtain ⟨role, content, below'⟩ := entry
    rw [statementsAll, statements]
    rintro _ ⟨⟩
    rfl

theorem takeWhile_arrows (source : Nat) (below : List (String × Diagram (Nat × String)))
    {rest : List Statement} (h : NoArrowFirst rest) :
    (arrows source below ++ rest).takeWhile (fun s => s.arrow?.isSome) = arrows source below := by
  induction below with
  | nil =>
    cases rest with
    | nil => rfl
    | cons s rest => simp [arrows, h s rfl]
  | cons entry below ih => exact congrArg _ ih

/-- Arrows can be told from what follows, and they give the roles of the boxes right below. -/
theorem arrows_append_inj {source : Nat} {below below' : List (String × Diagram (Nat × String))}
    {rest rest' : List Statement} (hrest : NoArrowFirst rest) (hrest' : NoArrowFirst rest')
    (h : arrows source below ++ rest = arrows source below' ++ rest') :
    below.map Prod.fst = below'.map Prod.fst ∧ rest = rest' := by
  have htake := congrArg (List.takeWhile fun s => s.arrow?.isSome) h
  rw [takeWhile_arrows source below hrest, takeWhile_arrows source below' hrest'] at htake
  rw [htake] at h
  have hroles := congrArg (fun as => (as.filterMap Statement.arrow?).map Prod.snd) htake
  simp only [filterMap_arrow?_arrows, List.map_map] at hroles
  exact ⟨hroles, List.append_cancel_left h⟩

/-- The diagram can be read back from its statements, whatever is drawn behind them. -/
def ReadsBack (d : Diagram (Nat × String)) : Prop :=
  ∀ d' rest rest', NoArrowFirst rest → NoArrowFirst rest' →
    d.statements ++ rest = d'.statements ++ rest' → d = d' ∧ rest = rest'

theorem statementsAll_append_inj {below : List (String × Diagram (Nat × String))}
    (hbelow : ∀ entry ∈ below, ReadsBack entry.2) {below' : List (String × Diagram (Nat × String))}
    (hroles : below.map Prod.fst = below'.map Prod.fst) {rest rest' : List Statement}
    (hrest : NoArrowFirst rest) (hrest' : NoArrowFirst rest')
    (h : statementsAll below ++ rest = statementsAll below' ++ rest') :
    below = below' ∧ rest = rest' := by
  induction below generalizing below' with
  | nil =>
    obtain rfl : below' = [] := by simpa using hroles.symm
    exact ⟨rfl, h⟩
  | cons entry below ih =>
    obtain ⟨hfirst, hothers⟩ := List.forall_mem_cons.1 hbelow
    cases below' with
    | nil => cases hroles
    | cons entry' below' =>
      obtain ⟨hrole, hroles⟩ := List.cons.inj hroles
      rw [statementsAll, statementsAll, List.append_assoc, List.append_assoc] at h
      obtain ⟨hd, htail⟩ := hfirst _ _ _ (noArrowFirst_statementsAll below hrest)
        (noArrowFirst_statementsAll below' hrest') h
      obtain ⟨rfl, rfl⟩ := ih hothers hroles htail
      exact ⟨by rw [Prod.ext hrole hd], rfl⟩

theorem readsBack (d : Diagram (Nat × String)) : ReadsBack d := by
  induction d with
  | box content below ih =>
    rintro ⟨content', below'⟩ rest rest' hrest hrest' h
    rw [statements, statements, List.cons_append, List.cons_append, List.append_assoc,
      List.append_assoc] at h
    obtain ⟨hbox, h⟩ := List.cons.inj h
    obtain ⟨hid, hlabel⟩ := Statement.box.inj hbox
    obtain rfl : content = content' := Prod.ext hid hlabel
    obtain ⟨hroles, htail⟩ := arrows_append_inj (noArrowFirst_statementsAll below hrest)
      (noArrowFirst_statementsAll below' hrest') h
    obtain ⟨rfl, hrests⟩ := statementsAll_append_inj ih hroles hrest hrest' htail
    exact ⟨rfl, hrests⟩

theorem statements_injective {d d' : Diagram (Nat × String)} (h : d.statements = d'.statements) :
    d = d' := by
  have hnil : NoArrowFirst [] := by simp [NoArrowFirst]
  exact (readsBack d d' [] [] hnil hnil (by rw [h])).1

end Diagram

/-! ## Trees -/

namespace Node

theorem size_lt_of_mem_branches {node : Node} {entry : String × Node}
    (h : entry ∈ node.branches) : entry.2.size < node.size := by
  obtain ⟨before, after, hsplit⟩ := List.append_of_mem h
  rw [size_eq node, hsplit, List.map_append, sizeAll_append, List.map_cons, sizeAll]
  omega

/-- What holds of a node whenever it holds of all nodes right below it holds of every node. -/
@[elab_as_elim]
theorem branches_induction {motive : Node → Prop}
    (step : ∀ node, (∀ entry ∈ node.branches, motive entry.2) → motive node) (node : Node) :
    motive node :=
  step node fun entry _ => branches_induction step entry.2
termination_by node.size
decreasing_by exact size_lt_of_mem_branches ‹_›

/-- The tree with its labels and roles, and nothing else. -/
def diagram (node : Node) : Diagram String :=
  .box node.boxLabel (node.branches.attach.map fun entry => (entry.1.1, entry.1.2.diagram))
termination_by node.size
decreasing_by exact size_lt_of_mem_branches entry.2

/-- The diagrams of nodes that have roles. -/
def diagrams (branches : List (String × Node)) : List (String × Diagram String) :=
  branches.map fun entry => (entry.1, entry.2.diagram)

theorem diagrams_cons (entry : String × Node) (branches : List (String × Node)) :
    diagrams (entry :: branches) = (entry.1, entry.2.diagram) :: diagrams branches := rfl

theorem length_diagrams (branches : List (String × Node)) :
    (diagrams branches).length = branches.length := List.length_map _

theorem diagram_eq (node : Node) : node.diagram = .box node.boxLabel (diagrams node.branches) := by
  rw [diagram, diagrams, ← List.attach_map_val (l := node.branches)]

/-- The nodes of a tree, each before all nodes below it. -/
def preorder (node : Node) : List Node :=
  node :: (node.branches.attach.map fun entry => entry.1.2.preorder).flatten
termination_by node.size
decreasing_by exact size_lt_of_mem_branches entry.2

theorem preorder_eq (node : Node) :
    node.preorder = node :: (node.branches.map fun entry => entry.2.preorder).flatten := by
  rw [preorder, ← List.attach_map_val (l := node.branches)]

end Node

/-! ## Drawing from the stack -/

namespace Node

open Diagram (numberAll statementsAll)

theorem arrows_numberAll (source id next : Nat) (branches : List (String × Node)) :
    Diagram.arrows source (numberAll id next (diagrams branches)).1 =
      arrows source id branches := by
  induction branches generalizing id next with
  | nil => rfl
  | cons entry branches ih =>
    show Statement.arrow source (entry.2.diagram.number id next).1.content.1 entry.1 ::
      Diagram.arrows source (numberAll (id + 1) _ (diagrams branches)).1 = _
    rw [Diagram.content_number, ih]
    rfl

/-- Drawing from a stack with numbered nodes on top walks down these nodes one after the other, and
    then goes on with the rest of the stack. -/
theorem drawPending_numbers (branches : List (String × Node)) (id next : Nat)
    (pending : List (Nat × Node)) :
    drawPending next (numbers id branches ++ pending) =
      statementsAll (numberAll id next (diagrams branches)).1 ++
        drawPending (numberAll id next (diagrams branches)).2 pending := by
  -- the nodes below the first one are put on the stack, so that the induction is on all nodes
  induction hn : sizeAll (branches.map Prod.snd) using Nat.strongRecOn
    generalizing branches id next pending with
  | ind n ih =>
    cases branches with
    | nil => rfl
    | cons entry branches =>
      have hsize := size_eq entry.2
      rw [List.map_cons, sizeAll] at hn
      have hnumbers : numbers id (entry :: branches) = (id, entry.2) :: numbers (id + 1) branches :=
        rfl
      rw [hnumbers, List.cons_append, drawPending, ih _ (by omega) _ _ _ _ rfl,
        ih _ (by omega) _ _ _ _ rfl, diagrams_cons, numberAll, statementsAll, diagram_eq,
        Diagram.number, Diagram.statements, arrows_numberAll, length_diagrams]
      simp only [List.cons_append, List.append_assoc]

/-- The statements of a tree are those of its diagram, numbered on a walk down. -/
theorem statements_eq (node : Node) : node.statements = (node.diagram.number 0 1).1.statements := by
  have hwalk := drawPending_numbers [("", node)] 0 1 []
  rw [diagrams_cons, numberAll, statementsAll, List.append_nil] at hwalk
  refine Eq.trans hwalk ?_
  rw [drawPending, List.append_nil]
  exact List.append_nil _

theorem preorder_diagram (node : Node) : node.diagram.preorder = node.preorder.map boxLabel := by
  induction node using branches_induction with
  | step node hbelow =>
    rw [diagram_eq, preorder_eq, Diagram.preorder, List.map_cons]
    congr 1
    generalize node.branches = branches at hbelow
    induction branches with
    | nil => rfl
    | cons entry branches ih =>
      obtain ⟨hfirst, hrest⟩ := List.forall_mem_cons.1 hbelow
      rw [diagrams_cons, Diagram.preorderAll, hfirst, ih hrest, List.map_cons, List.flatten_cons,
        List.map_append]

theorem length_preorder (node : Node) : node.preorder.length = node.size := by
  induction node using branches_induction with
  | step node hbelow =>
    rw [preorder_eq, size_eq, List.length_cons]
    congr 1
    generalize node.branches = branches at hbelow
    induction branches with
    | nil => rfl
    | cons entry branches ih =>
      obtain ⟨hfirst, hrest⟩ := List.forall_mem_cons.1 hbelow
      rw [List.map_cons, List.map_cons, List.flatten_cons, List.length_append, hfirst, ih hrest,
        sizeAll]

end Node

/-- The graph of a tree is the tree. For a tree of as many nodes as `size` says, parameters of
    functions with them, as many boxes are drawn, and an arrow less. The boxes have the numbers from
    zero on, each once, and each of them but zero is led to by one arrow. The labels are those of
    the nodes in the order of a walk down the tree; behind each box stand the arrows to the boxes
    right below it, in order and with their roles. So the statements of two trees are the same
    exactly if the trees have the same shape, labels and roles. -/
theorem drawing_is_the_tree (node : Node) :
    let boxes := node.statements.filterMap Statement.box?
    let arrows := node.statements.filterMap Statement.arrow?
    boxes.length = node.size ∧ arrows.length = node.size - 1 ∧
    (boxes.map Prod.fst).Perm (List.range node.size) ∧
    (arrows.map Prod.fst).Perm (List.range' 1 (node.size - 1)) ∧
    boxes.map Prod.snd = node.preorder.map Node.boxLabel ∧
    (∃ numbered : Diagram (Nat × String), numbered.map Prod.snd = node.diagram ∧
      numbered.content.1 = 0 ∧ node.statements = numbered.statements) ∧
    ∀ other : Node, other.statements = node.statements ↔ other.diagram = node.diagram := by
  intro boxes arrows
  let numbered := (node.diagram.number 0 1).1
  have hdrawn : node.statements = numbered.statements := node.statements_eq
  have hlabels : numbered.map Prod.snd = node.diagram := Diagram.map_snd_number _ 0 1
  have hroot : numbered.content.1 = 0 := Diagram.content_number _ 0 1
  have hboxes : boxes = numbered.preorder := by
    simp only [boxes, hdrawn, Diagram.filterMap_box?_statements]
  obtain ⟨others, hlength, -, hnumbers⟩ := Diagram.number_spec node.diagram 0 1
  have hsize : node.size = others + 1 := by
    rw [← hlength, node.preorder_diagram, List.length_map, node.length_preorder]
  have hids : (boxes.map Prod.fst).Perm (List.range node.size) := by
    rw [hboxes, hsize, List.range_eq_range', List.range'_succ]
    exact hnumbers
  have htargets : (arrows.map Prod.fst).Perm (List.range' 1 (node.size - 1)) := by
    have hall := (Diagram.targets_statements_perm numbered).trans hnumbers
    rw [hroot, List.perm_cons, ← hdrawn] at hall
    rw [hsize]
    exact hall
  refine ⟨?_, ?_, hids, htargets, ?_, ⟨numbered, hlabels, hroot, hdrawn⟩, fun other => ⟨?_, ?_⟩⟩
  · simpa using hids.length_eq
  · simpa using htargets.length_eq
  · rw [hboxes, ← Diagram.preorder_map, hlabels, node.preorder_diagram]
  · intro h
    rw [other.statements_eq, hdrawn] at h
    rw [← hlabels, ← Diagram.statements_injective h, Diagram.map_snd_number]
  · intro h
    rw [other.statements_eq, node.statements_eq, h]

end Castellano
