import Castellano.Node.Outline
import Castellano.Proofs.Decimal
import Castellano.Proofs.Places
import Castellano.Proofs.Printing
import Mathlib

/-!
# Outlines can be read back

The line of a node says its kind and, in parentheses, what distinguishes it from others of its kind.
The nodes below it stand on the lines behind that are indented further, and the least indented of
these are their first lines. Hence the outline of a parsed program determines the program, except
for the positions, which are not printed.

* `headline_inj`: a line determines the kind and the detail of its node.
* `outlineLines?_isChunk`: the lines of a node are a chunk at its indentation.
* `unplaced_eq_of_outlined`: a node is its kind, its detail and the nodes below it.
* `unplaced_eq_of_outlineLines?`: the lines of a tree determine it up to positions.
-/

namespace Castellano

/-! ## What a line says -/

namespace NodeKind

theorem find?_title (kind : NodeKind) : all.find? (fun k => k.title = kind.title) = some kind := by
  cases kind <;> decide

theorem title_inj {kind kind' : NodeKind} (h : kind.title = kind'.title) : kind = kind' := by
  have hfind := find?_title kind
  rw [h, find?_title kind'] at hfind
  exact (Option.some.inj hfind).symm

theorem title_plain (kind : NodeKind) :
    kind.title ≠ "" ∧ ∀ c ∈ kind.title.toList, c ≠ '(' ∧ c ≠ ' ' ∧ c ≠ '\n' := by
  refine ⟨by cases kind <;> decide, ?_⟩
  cases kind <;> exact forall_mem_of_all (by decide)

end NodeKind

namespace Node

/-- What the line of a node has in parentheses behind the title of its kind. -/
def detail? : Node → Option String
  | integer _ value => some (toString value)
  | boolean _ value => some (if value then "True" else "False")
  | identifier _ name | call _ name _ | assignment _ name _ => some name
  | binary _ operator _ _ => some operator.literal
  | function _ parameters _ =>
    some ("params=[" ++ ", ".intercalate (parameters.map Parameter.name) ++ "]")
  | _ => none

end Node

/-- The title of a kind with a detail in parentheses. -/
def headline (kind : NodeKind) (detail : Option String) : String :=
  kind.title ++ (detail.map fun text => "(" ++ text ++ ")").getD ""

theorem Node.outlineParts_function (p : Position) (parameters : List Parameter)
    (body : Block Node) :
    (function p parameters body).outlineParts =
      ("Function(params=[" ++ ", ".intercalate (parameters.map Parameter.name) ++ "])", 4,
        [("body: ", block body)]) := rfl

theorem Node.outlineParts_fst {node : Node} (h : ∀ p kind, node ≠ .bare p kind) :
    node.outlineParts.1 = headline node.kind node.detail? := by
  cases node with
  | bare p kind => exact absurd rfl (h p kind)
  | boolean p value => cases value <;> rfl
  | function p parameters body =>
    have hopen : "Function(params=[" = "Function" ++ ("(" ++ "params=[") := by decide
    have hclose : "])" = "]" ++ ")" := by decide
    rw [outlineParts_function]
    show _ = "Function" ++ ("(" ++ ("params=[" ++ _ ++ "]") ++ ")")
    rw [hopen, hclose]
    simp only [String.append_assoc]
  | _ => rfl

/-- The kind and the detail can be told from the line. -/
theorem headline_inj {kind kind' : NodeKind} {detail detail' : Option String}
    (h : headline kind detail = headline kind' detail') : kind = kind' ∧ detail = detail' := by
  have htitle : ∀ kind : NodeKind, ∀ c ∈ kind.title.toList, (c != '(') = true := by
    intro kind c hc
    exact bne_iff_ne.2 (kind.title_plain.2 c hc).1
  have hrest : ∀ detail : Option String,
      ∀ c ∈ ((detail.map fun text => "(" ++ text ++ ")").getD "").toList.head?,
        ¬ (c != '(') = true := by
    rintro (_ | text)
    · simp
    · simp
  have hlist := congrArg String.toList h
  rw [headline, headline, String.toList_append, String.toList_append] at hlist
  obtain ⟨hkind, hdetail⟩ := run_append_inj (htitle kind) (htitle kind') (hrest detail)
    (hrest detail') hlist
  refine ⟨NodeKind.title_inj (String.toList_inj.1 hkind), ?_⟩
  rw [String.toList_inj] at hdetail
  cases detail with
  | none =>
    cases detail' with
    | none => rfl
    | some text' => simp [← String.toList_inj] at hdetail
  | some text =>
    cases detail' with
    | none => simp [← String.toList_inj] at hdetail
    | some text' =>
      rw [Option.map_some, Option.map_some, Option.getD_some, Option.getD_some,
        String.append_left_inj, String.append_right_inj] at hdetail
      rw [hdetail]

/-! ## Plain texts -/

/-- A text on one line that does not start with a blank. -/
structure IsPlain (text : String) : Prop where
  start : text.toList.head? ≠ some ' '
  oneLine : '\n' ∉ text.toList

instance (text : String) : Decidable (IsPlain text) :=
  decidable_of_iff (text.toList.head? ≠ some ' ' ∧ '\n' ∉ text.toList)
    ⟨fun h => ⟨h.1, h.2⟩, fun h => ⟨h.start, h.oneLine⟩⟩

theorem IsPlain.append {a b : String} (ha : IsPlain a) (hb : IsPlain b) : IsPlain (a ++ b) := by
  refine ⟨?_, ?_⟩
  · rw [String.toList_append, List.head?_append]
    cases hhead : a.toList.head? with
    | none => exact hb.start
    | some c =>
      have hstart := ha.start
      rw [hhead] at hstart
      exact hstart
  · rw [String.toList_append, List.mem_append, not_or]
    exact ⟨ha.oneLine, hb.oneLine⟩

theorem not_newline_mem_repr (n : Nat) : '\n' ∉ n.repr.toList := by
  rw [Nat.toList_repr]
  intro h
  exact absurd (isDigit_of_mem_toDigits h) (by decide)

theorem not_newline_mem_toString (value : Int) : '\n' ∉ (toString value).toList := by
  rw [Word64.toList_toString, List.mem_append, not_or]
  refine ⟨?_, fun h => absurd (isDigit_of_mem_toDigits h) (by decide)⟩
  split <;> decide

theorem IsWord.not_mem {word : String} (h : IsWord word) {c : Char} (hc : ¬ Token.isWordChar c) :
    c ∉ word.toList :=
  fun hmem => hc (List.all_eq_true.1 h.chars c hmem)

/-! ## Roles -/

/-- The role of the member of a list with the given index. -/
def numberedRole (role : String) (i : Nat) : String := s!"{role}[{i}]: "

theorem isPlain_numberedRole {role : String} (h : IsPlain role) (i : Nat) :
    IsPlain (numberedRole role i) := by
  have hi : '\n' ∉ (toString i).toList := not_newline_mem_repr i
  have hrest : IsPlain ("[" ++ (toString i ++ "]: ")) := by
    refine ⟨by simp, ?_⟩
    simp only [String.toList_append, List.mem_append, not_or]
    exact ⟨by decide, hi, by decide⟩
  have hsplit : numberedRole role i = role ++ ("[" ++ (toString i ++ "]: ")) := by
    show role ++ "[" ++ toString i ++ "]: " = _
    simp only [String.append_assoc]
  rw [hsplit]
  exact h.append hrest

namespace Node

theorem map_fst_numbered (role : String) (nodes : List Node) :
    (numbered role nodes).map Prod.fst = (List.range nodes.length).map (numberedRole role) := by
  refine List.ext_getElem (by simp [numbered]) fun i h h' => ?_
  simp [numbered, numberedRole]

theorem map_snd_numbered (role : String) (nodes : List Node) :
    (numbered role nodes).map Prod.snd = nodes := by
  refine List.ext_getElem (by simp [numbered]) fun i h h' => ?_
  simp [numbered]

theorem length_numbered (role : String) (nodes : List Node) :
    (numbered role nodes).length = nodes.length := by
  simp [numbered]

/-- The nodes below a node in its outline, with their roles. -/
def outlined (node : Node) : List (String × Node) := node.outlineParts.2.2

/-- How far these are indented. -/
def outlineStep (node : Node) : Nat := node.outlineParts.2.1

end Node

namespace NodeKind

/-- The roles of the nodes below a node of the kind, when there are as many as `count`. -/
def outlineRoles (count : Nat) : NodeKind → List String
  | binary => ["left: ", "right: "]
  | minus | not => [""]
  | call => (List.range count).map (numberedRole "arg")
  | function => ["body: "]
  | assignment => ["value: "]
  | loop => ["condition: ", "body: "]
  | conditional => ["condition: ", "then: ", "else: "].take count
  | block | program => (List.range count).map (numberedRole "form")
  | integer | boolean | identifier => []

theorem isPlain_of_mem_outlineRoles {kind : NodeKind} {count : Nat} {role : String}
    (h : role ∈ kind.outlineRoles count) : IsPlain role := by
  have hlist : ∀ roles : List String, (roles.all fun role => decide (IsPlain role)) →
      role ∈ roles → IsPlain role := fun roles hall => forall_mem_of_all hall role
  have hnumbered : ∀ name, IsPlain name → role ∈ (List.range count).map (numberedRole name) →
      IsPlain role := by
    intro name hname hmem
    obtain ⟨i, -, rfl⟩ := List.mem_map.1 hmem
    exact isPlain_numberedRole hname i
  cases kind with
  | call => exact hnumbered "arg" (by decide) h
  | block => exact hnumbered "form" (by decide) h
  | program => exact hnumbered "form" (by decide) h
  | conditional =>
    exact hlist ["condition: ", "then: ", "else: "] (by decide) (List.mem_of_mem_take h)
  | binary => exact hlist ["left: ", "right: "] (by decide) h
  | minus => exact hlist [""] (by decide) h
  | not => exact hlist [""] (by decide) h
  | function => exact hlist ["body: "] (by decide) h
  | assignment => exact hlist ["value: "] (by decide) h
  | loop => exact hlist ["condition: ", "body: "] (by decide) h
  | integer => cases h
  | boolean => cases h
  | identifier => cases h

/-- How far the nodes below a node of the kind are indented. -/
def outlineStep : NodeKind → Nat
  | binary | minus | not | assignment => 2
  | integer | boolean | identifier => 0
  | _ => 4

end NodeKind

namespace Node

variable {node : Node} (h : ∀ p kind, node ≠ .bare p kind)

include h

theorem map_fst_outlined :
    node.outlined.map Prod.fst = node.kind.outlineRoles node.outlined.length := by
  cases node with
  | bare p kind => exact absurd rfl (h p kind)
  | call p name arguments =>
    show (numbered "arg" arguments).map Prod.fst =
      (List.range (numbered "arg" arguments).length).map _
    rw [map_fst_numbered, length_numbered]
  | block b =>
    show (numbered "form" b.forms).map Prod.fst =
      (List.range (numbered "form" b.forms).length).map _
    rw [map_fst_numbered, length_numbered]
  | program p forms =>
    show (numbered "form" forms).map Prod.fst = (List.range (numbered "form" forms).length).map _
    rw [map_fst_numbered, length_numbered]
  | conditional p condition consequence alternative => cases alternative <;> rfl
  | _ => rfl

theorem outlineStep_eq : node.outlineStep = node.kind.outlineStep := by
  cases node with
  | bare p kind => exact absurd rfl (h p kind)
  | _ => rfl

omit h in
theorem outlineStep_pos (hne : node.outlined ≠ []) : 0 < node.outlineStep := by
  cases node with
  | integer | boolean | identifier | bare => exact absurd rfl hne
  | _ => exact Nat.succ_pos _

end Node

theorem Node.map_snd_outlined_subset (node : Node) :
    node.outlined.map Prod.snd ⊆ node.children.map Prod.snd := by
  have hnumbered : ∀ (name : String) (role : Role) (nodes : List Node),
      (numbered name nodes).map Prod.snd ⊆ (nodes.map fun n => (role, n)).map Prod.snd := by
    intro name role nodes n hn
    rw [map_snd_numbered] at hn
    exact List.mem_map_of_mem (List.mem_map_of_mem hn)
  cases node with
  | call p name arguments => exact hnumbered "arg" .argument arguments
  | block b => exact hnumbered "form" .form b.forms
  | program p forms => exact hnumbered "form" .form forms
  | function p parameters body =>
    intro child hchild
    rw [children, List.map_append]
    exact List.mem_append_right _ hchild
  | conditional p condition consequence alternative =>
    cases alternative <;> exact List.Subset.refl _
  | _ => exact List.Subset.refl _

/-! ## The line of a node -/

namespace Grammatical

variable {node : Node}

theorem outlined (h : Grammatical node) {entry : String × Node} (hentry : entry ∈ node.outlined) :
    Grammatical entry.2 := by
  have hchildren := node.map_snd_outlined_subset (List.mem_map_of_mem hentry)
  obtain ⟨⟨role, child⟩, hchild, heq⟩ := List.mem_map.1 hchildren
  exact heq ▸ h.child hchild

theorem not_newline_mem_detail (h : Grammatical node) {text : String}
    (htext : node.detail? = some text) : '\n' ∉ text.toList := by
  have hword : ¬ Token.isWordChar '\n' := Token.not_isWordChar_of_isSpacing rfl
  cases node with
  | integer p value => exact Option.some.inj htext ▸ not_newline_mem_toString value
  | boolean p value =>
    obtain rfl := Option.some.inj htext
    cases value <;> decide
  | identifier p name | call p name _ | assignment p name _ =>
    exact (h.isName htext).toIsWord.not_mem hword
  | binary p operator left right =>
    have hsigns : ∀ entry ∈ TokenKind.operatorSigns, '\n' ∉ entry.2.toList :=
      forall_mem_of_all (by decide)
    exact Option.some.inj htext ▸ hsigns _ h.isOperator
  | function p parameters body =>
    obtain rfl := Option.some.inj htext
    have hnames : '\n' ∉ (", ".intercalate (parameters.map Parameter.name)).toList := by
      rw [String.toList_intercalate]
      refine not_mem_intercalate (by decide) ?_
      rw [List.forall_mem_map, List.forall_mem_map]
      intro q hq
      exact (h.isName_parameter hq).toIsWord.not_mem hword
    simp only [String.toList_append, List.mem_append, not_or]
    exact ⟨⟨by decide, hnames⟩, by decide⟩
  | _ => cases htext

theorem isPlain (h : Grammatical node) :
    IsPlain node.outlineParts.1 ∧ node.outlineParts.1 ≠ "" := by
  obtain ⟨hne, htitle⟩ := node.kind.title_plain
  rw [Node.outlineParts_fst h.not_bare, headline]
  have hrest : IsPlain ((node.detail?.map fun text => "(" ++ text ++ ")").getD "") := by
    cases hdetail : node.detail? with
    | none => decide
    | some text =>
      refine ⟨by simp, ?_⟩
      simp only [Option.map_some, Option.getD_some, String.toList_append, List.mem_append, not_or]
      exact ⟨⟨by decide, h.not_newline_mem_detail hdetail⟩, by decide⟩
  have hkind : IsPlain node.kind.title :=
    ⟨fun hhead => (htitle ' ' (List.mem_of_mem_head? hhead)).2.1 rfl,
      fun hmem => (htitle '\n' hmem).2.2 rfl⟩
  refine ⟨hkind.append hrest, ?_⟩
  intro hempty
  exact hne (String.append_eq_empty_iff.1 hempty).1

end Grammatical

/-! ## Lines -/

theorem margin_outlineLine (indent : Int) {role text : String} (h : IsPlain (role ++ text)) :
    margin (Node.outlineLine indent role text) = indent.toNat := by
  have hblanks : ∀ c ∈ List.replicate indent.toNat ' ', decide (c = ' ') = true := by
    intro c hc
    simp [List.eq_of_mem_replicate hc]
  have hrest : ∀ c ∈ (role ++ text).toList.head?, ¬ decide (c = ' ') = true := by
    intro c hc
    rw [decide_eq_true_eq]
    rintro rfl
    exact h.start hc
  rw [margin, Node.outlineLine, String.append_assoc, String.toList_append, String.toList_ofList,
    takeWhile_append_of_stop hblanks hrest, List.length_replicate]

theorem not_newline_mem_outlineLine (indent : Int) {role text : String}
    (h : IsPlain (role ++ text)) : '\n' ∉ (Node.outlineLine indent role text).toList := by
  rw [Node.outlineLine, String.append_assoc, String.toList_append, String.toList_ofList,
    List.mem_append, not_or]
  refine ⟨fun hmem => ?_, h.oneLine⟩
  exact absurd (List.eq_of_mem_replicate hmem) (by decide)

/-! ## The lines of a tree -/

namespace Node

theorem outlineLines?_succ_eq_some {limit : Nat} {indent : Int} {role : String} {node : Node}
    {lines : List String} :
    outlineLines? (limit + 1) indent role node = some lines ↔
      ∃ below, List.Forall₂ (fun entry ls =>
          outlineLines? limit (indent + node.outlineStep) entry.1 entry.2 = some ls)
        node.outlined below ∧
      outlineLine indent role node.outlineParts.1 :: below.flatten = lines := by
  rw [outlineLines?]
  simp only [Option.bind_eq_bind, Option.bind_eq_some_iff, Option.pure_def, Option.some.injEq,
    mapM_eq_some_iff]
  rfl

variable {limit limit' : Nat} {indent : Int} {role : String} {node node' : Node}
  {lines : List String}

theorem isPlain_of_mem_outlined (hnode : Grammatical node) {entry : String × Node}
    (hentry : entry ∈ node.outlined) : IsPlain entry.1 := by
  have hrole : entry.1 ∈ node.outlined.map Prod.fst := List.mem_map_of_mem hentry
  rw [map_fst_outlined hnode.not_bare] at hrole
  exact NodeKind.isPlain_of_mem_outlineRoles hrole

/-- The lines of a tree are a chunk, none of them is empty, and each is a single line. -/
theorem outlineLines?_isChunk (hindent : 0 ≤ indent) (hrole : IsPlain role)
    (hnode : Grammatical node) (h : outlineLines? limit indent role node = some lines) :
    IsChunk indent.toNat lines ∧ ∀ line ∈ lines, line ≠ "" ∧ '\n' ∉ line.toList := by
  induction limit generalizing indent role node lines with
  | zero => cases h
  | succ limit ih =>
    obtain ⟨below, hbelow, rfl⟩ := outlineLines?_succ_eq_some.1 h
    obtain ⟨htext, hne⟩ := hnode.isPlain
    have hplain := hrole.append htext
    have hchunks : ∀ chunk ∈ below, IsChunk (indent + node.outlineStep).toNat chunk ∧
        ∀ line ∈ chunk, line ≠ "" ∧ '\n' ∉ line.toList := by
      intro chunk hchunk
      obtain ⟨entry, hentry, hlines⟩ := exists_mem_of_forall₂ hbelow hchunk
      exact ih (by omega) (isPlain_of_mem_outlined hnode hentry) (hnode.outlined hentry) hlines
    have hdeeper : ∀ line ∈ below.flatten, indent.toNat < margin line := by
      intro line hline
      obtain ⟨chunk, hchunk, hmem⟩ := List.mem_flatten.1 hline
      obtain ⟨entry, hentry, -⟩ := exists_mem_of_forall₂ hbelow hchunk
      have hstep := outlineStep_pos (List.ne_nil_of_mem hentry)
      have hmargin := (hchunks chunk hchunk).1.le_margin line hmem
      omega
    refine ⟨⟨margin_outlineLine indent hplain, hdeeper⟩, List.forall_mem_cons.2 ⟨⟨?_, ?_⟩, ?_⟩⟩
    · intro hempty
      exact hne (String.append_eq_empty_iff.1 hempty).2
    · exact not_newline_mem_outlineLine indent hplain
    · intro line hline
      obtain ⟨chunk, hchunk, hmem⟩ := List.mem_flatten.1 hline
      exact (hchunks chunk hchunk).2 line hmem

/-- Numbering loses nothing of the nodes. -/
theorem map_unplaced_of_numbered {role : String} {nodes nodes' : List Node}
    (h : (numbered role nodes).map (fun entry => entry.2.unplaced) =
      (numbered role nodes').map fun entry => entry.2.unplaced) :
    nodes.map unplaced = nodes'.map unplaced := by
  have hnodes : ∀ nodes : List Node,
      (numbered role nodes).map (fun entry => entry.2.unplaced) = nodes.map unplaced := by
    intro nodes
    conv => rhs; rw [← map_snd_numbered role nodes, List.map_map]
    rfl
  rwa [hnodes, hnodes] at h

theorem parameters_eq_of_detail? {p p' : Position} {parameters parameters' : List Parameter}
    {body body' : Block Node} (h : Grammatical (.function p parameters body))
    (h' : Grammatical (.function p' parameters' body'))
    (hdetail : (function p parameters body).detail? = (function p' parameters' body').detail?) :
    parameters.map Parameter.name = parameters'.map Parameter.name := by
  have hcomma : ¬ Token.isWordChar ',' := by
    rw [Token.isWordChar, Token.isLetter_of_ascii (by decide)]
    decide
  have hnames : ∀ {p : Position} {parameters : List Parameter} {body : Block Node},
      Grammatical (.function p parameters body) →
      ∀ name ∈ parameters.map Parameter.name, name ≠ "" ∧ ',' ∉ name.toList := by
    intro p parameters body h
    rw [List.forall_mem_map]
    intro q hq
    have hword := (h.isName_parameter hq).toIsWord
    obtain ⟨first, cs, hcons, -⟩ := hword.exists_cons
    refine ⟨?_, hword.not_mem hcomma⟩
    intro hempty
    rw [hempty] at hcons
    cases hcons
  have hjoined := Option.some.inj hdetail
  rw [String.append_left_inj, String.append_right_inj] at hjoined
  exact string_intercalate_inj rfl (hnames h) (hnames h') hjoined

theorem operator_eq_of_literal {t t' : Token} (h : t.IsOperator) (h' : t'.IsOperator)
    (hliteral : t.literal = t'.literal) : t.unplaced = t'.unplaced := by
  have hkinds : ∀ entry ∈ TokenKind.operatorSigns, ∀ entry' ∈ TokenKind.operatorSigns,
      entry.2 = entry'.2 → entry.1 = entry'.1 := by decide
  have hkind : t.kind = t'.kind := hkinds _ h _ h' hliteral
  rw [Token.unplaced_eq, Token.unplaced_eq, hkind, hliteral]

theorem unplaced_call (p : Position) (name : String) (arguments : List Node) :
    (call p name arguments).unplaced = call {} name (arguments.map unplaced) := by
  rw [unplaced, relabel, relabelAll_eq_map]
  rfl

theorem unplaced_function (p : Position) (parameters : List Parameter) (body : Block Node) :
    (function p parameters body).unplaced =
      function {} ((parameters.map Parameter.name).map fun name => ⟨name, {}⟩)
        (Block.relabel .unplace body) := by
  rw [unplaced, relabel, List.map_map]
  rfl

theorem unplaced_conditional (p : Position) (condition : Node) (consequence : Block Node)
    (alternative : Option (Block Node)) :
    (conditional p condition consequence alternative).unplaced =
      conditional {} condition.unplaced (Block.relabel .unplace consequence)
        (alternative.map (Block.relabel .unplace)) := by
  rw [unplaced, relabel, Block.relabelOption_eq_map]
  rfl

theorem unplaced_block (b : Block Node) :
    (block b).unplaced = block ⟨b.forms.map unplaced, {}⟩ := by
  rw [unplaced, relabel, Block.relabel, relabelAll_eq_map]
  rfl

theorem unplaced_program (p : Position) (forms : List Node) :
    (program p forms).unplaced = program {} (forms.map unplaced) := by
  rw [unplaced, relabel, relabelAll_eq_map]
  rfl

/-- Nodes of one kind, with one detail and with the same trees below them, are the same. -/
theorem unplaced_eq_of_outlined (hnode : Grammatical node) (hnode' : Grammatical node')
    (hkind : node.kind = node'.kind) (hdetail : node.detail? = node'.detail?)
    (hbelow : node.outlined.map (fun entry => entry.2.unplaced) =
      node'.outlined.map fun entry => entry.2.unplaced) : node.unplaced = node'.unplaced := by
  -- nodes of different kinds are out of the question, so that one case for each kind is left
  cases node <;> cases node' <;>
    first
    | exact absurd rfl (hnode.not_bare _ _)
    | exact absurd rfl (hnode'.not_bare _ _)
    | cases hkind; done
    | skip
  case integer.integer =>
    obtain rfl := Int.repr_inj.1 (Option.some.inj hdetail)
    rfl
  case boolean.boolean p value p' value' =>
    have hvalue : value = value' := by
      cases value <;> cases value' <;>
        first
        | rfl
        | exact absurd (Option.some.inj hdetail) (by decide)
    rw [hvalue]
    rfl
  case identifier.identifier =>
    obtain rfl := Option.some.inj hdetail
    rfl
  case binary.binary p operator left right p' operator' left' right' =>
    have hoperator := operator_eq_of_literal hnode.isOperator hnode'.isOperator
      (Option.some.inj hdetail)
    obtain ⟨hleft, hrest⟩ := List.cons.inj hbelow
    obtain ⟨hright, -⟩ := List.cons.inj hrest
    simp only [unplaced, Token.unplaced, relabel] at hleft hright hoperator ⊢
    rw [hleft, hright, hoperator]
    rfl
  case minus.minus p operand p' operand' =>
    obtain ⟨hoperand, -⟩ := List.cons.inj hbelow
    exact congrArg (minus {}) hoperand
  case not.not p operand p' operand' =>
    obtain ⟨hoperand, -⟩ := List.cons.inj hbelow
    exact congrArg (Node.not {}) hoperand
  case call.call p name arguments p' name' arguments' =>
    obtain rfl := Option.some.inj hdetail
    have harguments : arguments.map unplaced = arguments'.map unplaced :=
      map_unplaced_of_numbered hbelow
    rw [unplaced_call, unplaced_call, harguments]
  case function.function p parameters body p' parameters' body' =>
    have hnames := parameters_eq_of_detail? hnode hnode' hdetail
    obtain ⟨hbody, -⟩ := List.cons.inj hbelow
    rw [unplaced_function, unplaced_function, hnames, block.inj hbody]
  case assignment.assignment p name value p' name' value' =>
    obtain rfl := Option.some.inj hdetail
    obtain ⟨hvalue, -⟩ := List.cons.inj hbelow
    exact congrArg (assignment {} name) hvalue
  case conditional.conditional p condition consequence alternative p' condition' consequence'
      alternative' =>
    obtain ⟨hcondition, hrest⟩ := List.cons.inj hbelow
    obtain ⟨hconsequence, hrest⟩ := List.cons.inj hrest
    have halternative : alternative.map (Block.relabel .unplace) =
        alternative'.map (Block.relabel .unplace) := by
      cases alternative with
      | none =>
        cases alternative' with
        | none => rfl
        | some b' => cases hrest
      | some b =>
        cases alternative' with
        | none => cases hrest
        | some b' => exact congrArg some (block.inj (List.cons.inj hrest).1)
    rw [unplaced_conditional, unplaced_conditional, halternative, block.inj hconsequence]
    exact congrArg (conditional {} · _ _) hcondition
  case loop.loop p condition body p' condition' body' =>
    obtain ⟨hcondition, hrest⟩ := List.cons.inj hbelow
    obtain ⟨hbody, -⟩ := List.cons.inj hrest
    exact congrArg₂ (loop {}) hcondition (block.inj hbody)
  case block.block b b' =>
    have hforms : b.forms.map unplaced = b'.forms.map unplaced := map_unplaced_of_numbered hbelow
    rw [unplaced_block, unplaced_block, hforms]
  case program.program p forms p' forms' =>
    have hforms : forms.map unplaced = forms'.map unplaced := map_unplaced_of_numbered hbelow
    rw [unplaced_program, unplaced_program, hforms]

theorem map_unplaced_eq {β : Type} {R R' : String × Node → β → Prop}
    {entries entries' : List (String × Node)} {bs : List β} (h : List.Forall₂ R entries bs)
    (h' : List.Forall₂ R' entries' bs) (hroles : entries.map Prod.fst = entries'.map Prod.fst)
    (hsame : ∀ entry ∈ entries, ∀ entry' ∈ entries', ∀ b, entry.1 = entry'.1 → R entry b →
      R' entry' b → entry.2.unplaced = entry'.2.unplaced) :
    entries.map (fun entry => entry.2.unplaced) = entries'.map fun entry => entry.2.unplaced := by
  induction h generalizing entries' with
  | nil =>
    cases h'
    rfl
  | @cons entry b entries bs hfirst _ ih =>
    cases h' with
    | @cons entry' _ entries' _ hfirst' hrest' =>
      obtain ⟨hrole, hroles⟩ := List.cons.inj hroles
      rw [List.map_cons, List.map_cons,
        hsame entry (by simp) entry' (by simp) b hrole hfirst hfirst',
        ih hrest' hroles fun e he e' he' => hsame e (List.mem_cons_of_mem _ he) e'
          (List.mem_cons_of_mem _ he')]

/-- Trees whose lines are the same are the same up to positions. -/
theorem unplaced_eq_of_outlineLines? (hindent : 0 ≤ indent) (hnode : Grammatical node)
    (hnode' : Grammatical node') (h : outlineLines? limit indent role node = some lines)
    (h' : outlineLines? limit' indent role node' = some lines) :
    node.unplaced = node'.unplaced := by
  have hchunks : ∀ {limit : Nat} {indent : Int} {node : Node} {below : List (List String)},
      0 ≤ indent → Grammatical node → List.Forall₂ (fun entry ls =>
        outlineLines? limit (indent + node.outlineStep) entry.1 entry.2 = some ls)
        node.outlined below → ∀ chunk ∈ below, IsChunk (indent + node.outlineStep).toNat chunk := by
    intro limit indent node below hindent hnode hbelow chunk hchunk
    obtain ⟨entry, hentry, hlines⟩ := exists_mem_of_forall₂ hbelow hchunk
    exact (outlineLines?_isChunk (by omega) (isPlain_of_mem_outlined hnode hentry)
      (hnode.outlined hentry) hlines).1
  induction limit generalizing limit' indent role node node' lines with
  | zero => cases h
  | succ limit ih =>
    cases limit' with
    | zero => cases h'
    | succ limit' =>
      obtain ⟨below, hbelow, rfl⟩ := outlineLines?_succ_eq_some.1 h
      obtain ⟨below', hbelow', hlines⟩ := outlineLines?_succ_eq_some.1 h'
      obtain ⟨hline, hflatten⟩ := List.cons.inj hlines
      have htext := (String.append_right_inj _).1 hline
      rw [outlineParts_fst hnode.not_bare, outlineParts_fst hnode'.not_bare] at htext
      obtain ⟨hkind, hdetail⟩ := headline_inj htext
      have hstep : node'.outlineStep = node.outlineStep := by
        rw [outlineStep_eq hnode.not_bare, outlineStep_eq hnode'.not_bare, hkind]
      -- both trees have their nodes at one indentation, where the lines can be cut in one way only
      have hcut := hchunks hindent hnode' hbelow'
      rw [hstep] at hcut hbelow'
      obtain rfl := chunks_inj hcut (hchunks hindent hnode hbelow) hflatten
      have hroles : node.outlined.map Prod.fst = node'.outlined.map Prod.fst := by
        rw [map_fst_outlined hnode.not_bare, map_fst_outlined hnode'.not_bare, hkind,
          hbelow.length_eq, hbelow'.length_eq]
      refine unplaced_eq_of_outlined hnode hnode' hkind.symm hdetail.symm ?_
      refine map_unplaced_eq hbelow hbelow' hroles ?_
      intro entry hentry entry' hentry' ls hrole hls hls'
      rw [← hrole] at hls'
      exact ih (by omega) (hnode.outlined hentry) (hnode'.outlined hentry') hls hls'

/-! ## Outlines and positions -/

theorem numbered_map_unplaced (role : String) (nodes : List Node) :
    numbered role (nodes.map unplaced) = (numbered role nodes).map (Prod.map id unplaced) := by
  refine List.ext_getElem (by simp [numbered]) fun i h h' => ?_
  simp [numbered]

theorem outlineParts_unplaced (node : Node) :
    node.unplaced.outlineParts =
      (node.outlineParts.1, node.outlineStep, node.outlined.map (Prod.map id unplaced)) := by
  cases node with
  | binary p operator left right =>
    have hliteral : operator.unplaced.literal = operator.literal := by rw [Token.unplaced_eq]
    show (s!"Infix({operator.unplaced.literal})", _, _) = _
    rw [hliteral]
    rfl
  | call p name arguments =>
    rw [unplaced_call]
    show (_, _, numbered "arg" (arguments.map unplaced)) = _
    rw [numbered_map_unplaced]
    rfl
  | function p parameters body =>
    have hnames : ((parameters.map Parameter.name).map fun name => (⟨name, {}⟩ : Parameter)).map
        Parameter.name = parameters.map Parameter.name := by
      rw [List.map_map]
      exact List.map_id _
    rw [unplaced_function, outlineStep, outlined, outlineParts_function, outlineParts_function,
      hnames]
    rfl
  | conditional p condition consequence alternative =>
    rw [unplaced_conditional]
    cases alternative <;> rfl
  | block b =>
    rw [unplaced_block]
    show (_, _, numbered "form" (b.forms.map unplaced)) = _
    rw [numbered_map_unplaced]
    rfl
  | program p forms =>
    rw [unplaced_program]
    show (_, _, numbered "form" (forms.map unplaced)) = _
    rw [numbered_map_unplaced]
    rfl
  | _ => rfl

/-- Positions are not printed. -/
theorem outlineLines?_unplaced (limit : Nat) (indent : Int) (role : String) (node : Node) :
    outlineLines? limit indent role node.unplaced = outlineLines? limit indent role node := by
  induction limit generalizing indent role node with
  | zero => rfl
  | succ limit ih =>
    rw [outlineLines?, outlineLines?, outlineParts_unplaced]
    simp only [List.mapM_map, Function.comp_def, Prod.map, id, ih]
    rfl

theorem outlineLines?_of_le {limit limit' : Nat} (hle : limit ≤ limit') {indent : Int}
    {role : String} {node : Node} {lines : List String}
    (h : outlineLines? limit indent role node = some lines) :
    outlineLines? limit' indent role node = some lines := by
  induction limit generalizing limit' indent role node lines with
  | zero => cases h
  | succ limit ih =>
    obtain ⟨limit', rfl⟩ : ∃ n, limit' = n + 1 := ⟨limit' - 1, by omega⟩
    obtain ⟨below, hbelow, hlines⟩ := outlineLines?_succ_eq_some.1 h
    refine outlineLines?_succ_eq_some.2 ⟨below, ?_, hlines⟩
    exact hbelow.imp fun entry ls hls => ih (by omega) hls

end Node

theorem Program.unplaced_toNode (p : Program) : p.toNode.unplaced = p.unplaced.toNode :=
  Node.unplaced_program p.position p.forms

/-- Parsed programs whose outlines come to an end have the same outline exactly if they are equal up
    to positions. -/
theorem outline_determines_program {limits limits' : Limits} {source source' : String}
    {limit limit' : Nat} {text text' : String}
    (h : (parseSource limits source).1.toNode.outline? limit 0 "" = some text)
    (h' : (parseSource limits' source').1.toNode.outline? limit' 0 "" = some text') :
    text = text' ↔
      (parseSource limits source).1.unplaced = (parseSource limits' source').1.unplaced := by
  obtain ⟨lines, hlines, rfl⟩ := Option.map_eq_some_iff.1 h
  obtain ⟨lines', hlines', rfl⟩ := Option.map_eq_some_iff.1 h'
  have hprograms : (parseSource limits source).1.toNode.unplaced =
      (parseSource limits' source').1.toNode.unplaced ↔
      (parseSource limits source).1.unplaced = (parseSource limits' source').1.unplaced := by
    rw [Program.unplaced_toNode, Program.unplaced_toNode]
    refine ⟨fun hnodes => ?_, congrArg Program.toNode⟩
    exact congrArg (Program.mk · {}) (Node.program.inj hnodes).2
  rw [← hprograms]
  constructor
  · intro htext
    have hnode := Grammatical.program (parseSource_shaped limits source)
    have hnode' := Grammatical.program (parseSource_shaped limits' source')
    have hsingle := (Node.outlineLines?_isChunk (by decide) (by decide) hnode hlines).2
    have hsingle' := (Node.outlineLines?_isChunk (by decide) (by decide) hnode' hlines').2
    obtain rfl := string_intercalate_inj rfl hsingle hsingle' htext
    exact Node.unplaced_eq_of_outlineLines? (by decide) hnode hnode' hlines hlines'
  · intro hprogram
    have hmore := Node.outlineLines?_of_le (Nat.le_max_left limit limit') hlines
    have hmore' := Node.outlineLines?_of_le (Nat.le_max_right limit limit') hlines'
    rw [← Node.outlineLines?_unplaced] at hmore hmore'
    rw [hprogram, hmore'] at hmore
    rw [Option.some.inj hmore]

/-- One function in two layouts, with and without parentheses and points that do not matter. -/
theorem outline_determines_program_layouts :
    (∃ text,
      (parseSource ⟨9, 0⟩ "función(a.b)\x7b-a*b\x7d").1.toNode.outline? 9 0 "" = some text ∧
      (parseSource ⟨9, 0⟩ "función (a. b.) \x7b\n-(a * b).\n\x7d.").1.toNode.outline? 9 0 "" =
        some text) ∧
    (parseSource ⟨9, 0⟩ "función(a.b)\x7b-a*b\x7d").1.unplaced =
      (parseSource ⟨9, 0⟩ "función (a. b.) \x7b\n-(a * b).\n\x7d.").1.unplaced := by
  obtain ⟨hprinted, hsame⟩ :
      ((parseSource ⟨9, 0⟩ "función(a.b)\x7b-a*b\x7d").1.toNode.outline? 9 0 "").isSome ∧
      (parseSource ⟨9, 0⟩ "función(a.b)\x7b-a*b\x7d").1.toNode.outline? 9 0 "" =
        (parseSource ⟨9, 0⟩ "función (a. b.) \x7b\n-(a * b).\n\x7d.").1.toNode.outline? 9 0 "" := by
    decide +kernel
  obtain ⟨text, h⟩ := Option.isSome_iff_exists.1 hprinted
  have h' := hsame.symm.trans h
  exact ⟨⟨text, h, h'⟩, (outline_determines_program h h').1 rfl⟩

end Castellano
