import Castellano.Proofs.Layout
import Castellano.Proofs.ReadBack

/-!
# Chains of operators

A chain is a row of operands with an operator between any two of them, without a parenthesis around
a part of it; an operand is a literal, a name, or a chain in parentheses. The tree of a chain can be
said without parsing: its root is the rightmost of the loosest operators, and the parts on both
sides are chains again. Parsing reads from left to right and builds this tree. How deeply it nests
on the way depends on the parentheses only, and not on the length of a chain.

* `Operator`, `Atom`, `Chain`: chains, `Chain.tokens` their tokens.
* `splitAtLoosest`, `splitTree`, `Chain.tree`: the tree of a chain.
* `splitTree_cons`: the same tree from left to right, one operator after the other.
* `Grammar.operators_links`: the loop over the operators builds this tree.
* `chain_parses_to_splitTree`: a text that has the tokens of a chain is parsed to its tree.
-/

namespace Castellano

/-! ## Chains -/

/-- The operators that join two operands. -/
inductive Operator where
  | equals
  | plus
  | minus
  | times
  | divide
deriving DecidableEq, Repr

namespace Operator

/-- The sign of an operator. -/
def sign : Operator → Char
  | equals => '='
  | plus => '+'
  | minus => '-'
  | times => '*'
  | divide => '/'

/-- The token of an operator. -/
def token (operator : Operator) : Token := .sign operator.sign

/-- How tightly an operator binds: equality is looser than sums, and sums are looser than
    products. -/
def strength : Operator → Nat
  | equals => 1
  | plus | minus => 2
  | times | divide => 3

end Operator

/-- A text of digits. -/
def IsDigits (text : String) : Prop := text.toList ≠ [] ∧ text.toList.all Token.isDigit

instance (text : String) : Decidable (IsDigits text) :=
  inferInstanceAs (Decidable (_ ∧ _))

mutual

/-- An operand of a chain. -/
inductive Atom where
  | number (digits : String) (h : IsDigits digits)
  | name (name : String) (h : IsName name)
  | truth (value : Bool)
  /-- A chain in parentheses. -/
  | group (chain : Chain)

/-- Operands with operators between them. -/
inductive Chain where
  | single (atom : Atom)
  | link (atom : Atom) (operator : Operator) (rest : Chain)

end

mutual

/-- The tokens of an operand. -/
def Atom.tokens : Atom → List Token
  | .number digits _ => [⟨.integer, digits, {}⟩]
  | .name name _ => [.word name]
  | .truth value => [.word (if value then "verdadero" else "falso")]
  | .group chain => .sign '(' :: (chain.tokens ++ [.sign ')'])

/-- The tokens of a chain. -/
def Chain.tokens : Chain → List Token
  | .single atom => atom.tokens
  | .link atom operator rest => atom.tokens ++ operator.token :: rest.tokens

end

mutual

/-- How many parentheses stand inside each other in an operand. -/
def Atom.depth : Atom → Nat
  | .number _ _ | .name _ _ | .truth _ => 0
  | .group chain => chain.depth + 1

/-- How many parentheses stand inside each other in a chain. -/
def Chain.depth : Chain → Nat
  | .single atom => atom.depth
  | .link atom _ rest => max atom.depth rest.depth

end

/-- The tokens of a chain with a space between any two of them. -/
def Chain.text (chain : Chain) : String := " ".intercalate (chain.tokens.map Token.literal)

/-! ## The tree of a chain -/

section Split

variable {α : Type}

/-- The rightmost of the loosest operators in a row of operators with their right operands, and what
    stands before and behind it. -/
def splitAtLoosest : List (Operator × α) →
    Option (List (Operator × α) × (Operator × α) × List (Operator × α))
  | [] => none
  | link :: links =>
    match splitAtLoosest links with
    | none => some ([], link, [])
    | some (before, root, behind) =>
      if link.1.strength < root.1.strength then some ([], link, links)
      else some (link :: before, root, behind)

theorem splitAtLoosest_eq_none_iff {links : List (Operator × α)} :
    splitAtLoosest links = none ↔ links = [] := by
  cases links with
  | nil => simp [splitAtLoosest]
  | cons link links =>
    rw [splitAtLoosest]
    split
    · simp
    · split <;> simp

/-- What is before the root binds at least as tightly, and what is behind it binds tighter. -/
theorem splitAtLoosest_eq_some {links before behind : List (Operator × α)} {root : Operator × α}
    (h : splitAtLoosest links = some (before, root, behind)) :
    links = before ++ root :: behind ∧
      (∀ link ∈ before, root.1.strength ≤ link.1.strength) ∧
      ∀ link ∈ behind, root.1.strength < link.1.strength := by
  induction links generalizing before root behind with
  | nil => cases h
  | cons link links ih =>
    rw [splitAtLoosest] at h
    split at h
    · rename_i hnone
      cases h
      rw [splitAtLoosest_eq_none_iff.1 hnone]
      simp
    · rename_i before' root' behind' hsome
      obtain ⟨hlinks, hbefore, hbehind⟩ := ih hsome
      split at h
      · rename_i hlt
        cases h
        refine ⟨rfl, by simp, fun other hother => ?_⟩
        rw [hlinks, List.mem_append, List.mem_cons] at hother
        rcases hother with hother | rfl | hother
        · exact Nat.lt_of_lt_of_le hlt (hbefore other hother)
        · exact hlt
        · exact Nat.lt_trans hlt (hbehind other hother)
      · rename_i hle
        cases h
        refine ⟨by rw [hlinks, List.cons_append], ?_, hbehind⟩
        rintro other (_ | ⟨_, hother⟩)
        · exact Nat.le_of_not_lt hle
        · exact hbefore other hother

/-- There is one such root only. -/
theorem splitAtLoosest_append {before behind : List (Operator × α)} {root : Operator × α}
    (hbefore : ∀ link ∈ before, root.1.strength ≤ link.1.strength)
    (hbehind : ∀ link ∈ behind, root.1.strength < link.1.strength) :
    splitAtLoosest (before ++ root :: behind) = some (before, root, behind) := by
  induction before with
  | nil =>
    rw [List.nil_append, splitAtLoosest]
    split
    · rename_i hnone
      rw [splitAtLoosest_eq_none_iff.1 hnone]
    · rename_i before' root' behind' hsome
      obtain ⟨hlinks, -, -⟩ := splitAtLoosest_eq_some hsome
      rw [if_pos (hbehind root' (by simp [hlinks]))]
  | cons link before ih =>
    obtain ⟨hlink, hrest⟩ := List.forall_mem_cons.1 hbefore
    rw [List.cons_append, splitAtLoosest, ih hrest]
    exact if_neg (Nat.not_lt.2 hlink)

end Split

/-- The tree of operands with operators between them. Its root is the rightmost of the loosest
    operators, and the two sides are built in the same way. -/
def splitTree (first : Node) (links : List (Operator × Node)) : Node :=
  match _hsplit : splitAtLoosest links with
  | none => first
  | some (before, (operator, operand), behind) =>
    .binary {} operator.token (splitTree first before) (splitTree operand behind)
termination_by links.length
decreasing_by
  all_goals
    rw [(splitAtLoosest_eq_some _hsplit).1, List.length_append, List.length_cons]
    omega

mutual

/-- The tree of an operand, without positions. -/
def Atom.tree : Atom → Node
  | .number digits _ => .integer {} (Word64.ofDecimal digits)
  | .name name _ => .identifier {} name
  | .truth value => .boolean {} value
  | .group chain => splitTree chain.firstTree chain.linkTrees

/-- The tree of the first operand of a chain. -/
def Chain.firstTree : Chain → Node
  | .single atom => atom.tree
  | .link atom _ _ => atom.tree

/-- The operators of a chain, each with the tree of its right operand. -/
def Chain.linkTrees : Chain → List (Operator × Node)
  | .single _ => []
  | .link _ operator rest => (operator, rest.firstTree) :: rest.linkTrees

end

/-- The tree of a chain, without positions. -/
def Chain.tree (chain : Chain) : Node := splitTree chain.firstTree chain.linkTrees

/-! ## The tree from left to right -/

@[simp]
theorem splitTree_nil (first : Node) : splitTree first [] = first := by
  rw [splitTree]
  rfl

theorem splitTree_append {first operand : Node} {operator : Operator}
    {before behind : List (Operator × Node)}
    (hbefore : ∀ link ∈ before, operator.strength ≤ link.1.strength)
    (hbehind : ∀ link ∈ behind, operator.strength < link.1.strength) :
    splitTree first (before ++ (operator, operand) :: behind) =
      .binary {} operator.token (splitTree first before) (splitTree operand behind) := by
  have hsplit : splitAtLoosest (before ++ (operator, operand) :: behind) =
      some (before, (operator, operand), behind) := splitAtLoosest_append hbefore hbehind
  rw [splitTree]
  split
  · rename_i hnone
    rw [hsplit] at hnone
    cases hnone
  · rename_i hsome
    rw [hsplit] at hsome
    cases hsome
    rfl

/-- The operator binds tighter than the level. -/
def bindsTighter {α : Type} (level : Nat) (link : Operator × α) : Bool := level < link.1.strength

section Tighter

variable {α : Type} {level level' : Nat} {link : Operator × α}

theorem bindsTighter_iff : bindsTighter level link ↔ level < link.1.strength :=
  decide_eq_true_iff

theorem bindsTighter_of_lt (h : level < level') (hlink : bindsTighter level' link) :
    bindsTighter level link :=
  bindsTighter_iff.2 (Nat.lt_trans h (bindsTighter_iff.1 hlink))

end Tighter

section While

variable {α : Type} {p q : α → Bool} (h : ∀ a, q a → p a) (as : List α)
include h

theorem takeWhile_takeWhile : (as.takeWhile p).takeWhile q = as.takeWhile q := by
  induction as with
  | nil => rfl
  | cons a as ih =>
    by_cases hq : q a
    · simp [h a hq, hq, ih]
    · by_cases hp : p a <;> simp [hp, hq]

theorem dropWhile_takeWhile : (as.takeWhile p).dropWhile q = (as.dropWhile q).takeWhile p := by
  induction as with
  | nil => rfl
  | cons a as ih =>
    by_cases hq : q a
    · simp [h a hq, hq, ih]
    · by_cases hp : p a <;> simp [hp, hq]

theorem dropWhile_dropWhile : (as.dropWhile q).dropWhile p = as.dropWhile p := by
  induction as with
  | nil => rfl
  | cons a as ih =>
    by_cases hq : q a
    · simp [h a hq, hq, ih]
    · simp [hq]

end While

/-- An operator takes as its right operand what binds tighter, and the result is the first operand
    of what follows. -/
theorem splitTree_cons (first operand : Node) (operator : Operator)
    (links : List (Operator × Node)) :
    splitTree first ((operator, operand) :: links) =
      splitTree
        (.binary {} operator.token first
          (splitTree operand (links.takeWhile (bindsTighter operator.strength))))
        (links.dropWhile (bindsTighter operator.strength)) := by
  induction hn : links.length using Nat.strongRecOn generalizing links with
  | ind n ih =>
    obtain ⟨⟨before, ⟨rootOperator, rootOperand⟩, behind⟩, hsplit⟩ :=
      Option.ne_none_iff_exists'.1 fun hnone => List.cons_ne_nil (operator, operand) links
        (splitAtLoosest_eq_none_iff.1 hnone)
    obtain ⟨hlinks, hbefore, hbehind⟩ := splitAtLoosest_eq_some hsplit
    cases before with
    | nil =>
      -- the first operator is the root: all others bind tighter
      cases hlinks
      have hall : ∀ link ∈ links, bindsTighter operator.strength link :=
        fun link hlink => bindsTighter_iff.2 (hbehind link hlink)
      rw [List.takeWhile_eq_self_iff.2 hall, List.dropWhile_eq_nil_iff.2 hall, splitTree_nil,
        ← List.nil_append ((operator, operand) :: links), splitTree_append (by simp) hbehind,
        splitTree_nil]
    | cons link before =>
      -- the root is further to the right, and what the first operator takes ends before it
      rw [List.cons_append, List.cons.injEq] at hlinks
      obtain ⟨rfl, rfl⟩ := hlinks
      obtain ⟨hfirst, hbefore'⟩ := List.forall_mem_cons.1 hbefore
      have hstop : ¬ bindsTighter operator.strength (rootOperator, rootOperand) :=
        mt bindsTighter_iff.1 (Nat.not_lt.2 hfirst)
      have hlength : before.length < n := by
        rw [← hn, List.length_append, List.length_cons]
        omega
      have hkept : ∀ link ∈ before.dropWhile (bindsTighter operator.strength),
          rootOperator.strength ≤ link.1.strength :=
        fun link hlink => hbefore' link ((List.dropWhile_sublist _).subset hlink)
      rw [takeWhile_append_cons hstop, dropWhile_append_cons hstop, splitTree_append hkept hbehind,
        ← ih before.length hlength before rfl, ← List.cons_append,
        splitTree_append hbefore hbehind]

/-- The same where only the operators that bind tighter than a level are taken. -/
theorem splitTree_takeWhile_cons (first operand : Node) {operator : Operator} {level : Nat}
    (hlevel : level < operator.strength) (links : List (Operator × Node)) :
    splitTree first (((operator, operand) :: links).takeWhile (bindsTighter level)) =
      splitTree
        (.binary {} operator.token first
          (splitTree operand (links.takeWhile (bindsTighter operator.strength))))
        ((links.dropWhile (bindsTighter operator.strength)).takeWhile (bindsTighter level)) := by
  have htaken : bindsTighter level (operator, operand) := bindsTighter_iff.2 hlevel
  rw [List.takeWhile_cons_of_pos htaken, splitTree_cons,
    takeWhile_takeWhile fun _ => bindsTighter_of_lt hlevel,
    dropWhile_takeWhile fun _ => bindsTighter_of_lt hlevel]

/-! ## Operands and links -/

namespace Chain

/-- The first operand of a chain. -/
def first : Chain → Atom
  | single atom => atom
  | link atom _ _ => atom

/-- The operators of a chain, each with its right operand. -/
def links : Chain → List (Operator × Atom)
  | single _ => []
  | link _ operator rest => (operator, rest.first) :: rest.links

end Chain

/-- The tokens of operators with their right operands. -/
def linkTokens (links : List (Operator × Atom)) : List Token :=
  links.flatMap fun link => link.1.token :: link.2.tokens

/-- The trees of operators with their right operands. -/
def linkTrees (links : List (Operator × Atom)) : List (Operator × Node) :=
  links.map fun link => (link.1, link.2.tree)

@[simp]
theorem linkTokens_nil : linkTokens [] = [] := rfl

theorem linkTokens_cons (operator : Operator) (atom : Atom) (links : List (Operator × Atom)) :
    linkTokens ((operator, atom) :: links) =
      operator.token :: (atom.tokens ++ linkTokens links) := rfl

@[simp]
theorem linkTrees_nil : linkTrees [] = [] := rfl

theorem linkTrees_cons (operator : Operator) (atom : Atom) (links : List (Operator × Atom)) :
    linkTrees ((operator, atom) :: links) = (operator, atom.tree) :: linkTrees links := rfl

theorem linkTrees_dropWhile (level : Nat) (links : List (Operator × Atom)) :
    linkTrees (links.dropWhile (bindsTighter level)) =
      (linkTrees links).dropWhile (bindsTighter level) := by
  rw [linkTrees, linkTrees, List.dropWhile_map]
  rfl

theorem length_linkTokens_dropWhile_le (p : Operator × Atom → Bool)
    (links : List (Operator × Atom)) :
    (linkTokens (links.dropWhile p)).length ≤ (linkTokens links).length := by
  rw [← congrArg linkTokens (List.takeWhile_append_dropWhile : links.takeWhile p ++ _ = links),
    linkTokens, linkTokens, List.flatMap_append, List.length_append]
  exact Nat.le_add_left _ _

namespace Chain

theorem tokens_eq : ∀ chain : Chain, chain.tokens = chain.first.tokens ++ linkTokens chain.links
  | single atom => by simp [tokens, first, links]
  | link atom operator rest => by rw [tokens, tokens_eq rest]; rfl

theorem firstTree_eq : ∀ chain : Chain, chain.firstTree = chain.first.tree
  | single _ => rfl
  | link _ _ _ => rfl

theorem linkTrees_eq : ∀ chain : Chain, chain.linkTrees = Castellano.linkTrees chain.links
  | single _ => rfl
  | link _ operator rest => by rw [linkTrees, linkTrees_eq rest, firstTree_eq]; rfl

theorem tree_eq (chain : Chain) :
    chain.tree = splitTree chain.first.tree (Castellano.linkTrees chain.links) := by
  rw [tree, firstTree_eq, linkTrees_eq]

theorem depth_first_le : ∀ chain : Chain, chain.first.depth ≤ chain.depth
  | single _ => Nat.le_refl _
  | link _ _ _ => Nat.le_max_left _ _

theorem depth_links_le : ∀ chain : Chain, ∀ l ∈ chain.links, l.2.depth ≤ chain.depth
  | single _ => by simp [links]
  | link atom operator rest => by
    rw [links, depth]
    rintro l (_ | ⟨_, hl⟩)
    · exact Nat.le_trans rest.depth_first_le (Nat.le_max_right _ _)
    · exact Nat.le_trans (rest.depth_links_le l hl) (Nat.le_max_right _ _)

end Chain

/-! ## Parsing a chain -/

theorem Precedence.lt_iff {p q : Precedence} : p < q ↔ p.rank < q.rank := Iff.rfl

namespace Operator

theorem rank_token (operator : Operator) :
    (Precedence.ofKind operator.token.kind).rank = operator.strength := by
  cases operator <;> decide

theorem kind_token (operator : Operator) :
    operator.token.kind ≠ .openParen ∧ operator.token.kind ≠ .point ∧
      operator.token.kind ≠ .assign := by
  cases operator <;> decide

theorem strength_pos (operator : Operator) : 0 < operator.strength := by
  cases operator <;> decide

theorem strength_le (operator : Operator) : operator.strength ≤ 3 := by
  cases operator <;> decide

end Operator

/-- What comes next is no operator, no argument list and no point. -/
structure TokenStream.EndsChain (s : TokenStream) : Prop where
  precedence : s.precedence = .lowest
  point : s.current.kind ≠ .point

namespace Grammar

open Parse

/-- The tokens of an operand are read as its tree, whatever follows. -/
def ReadsAtom (limit : Nat) (atom : Atom) : Prop :=
  ∀ (rest : List Token) (last : Token),
    (primary (nested limit)).run ⟨atom.tokens ++ rest, last⟩ = .ok atom.tree ⟨rest, last⟩

variable {rest : List Token} {last : Token}

theorem links_not_point (hrest : (TokenStream.mk rest last).EndsChain)
    (links : List (Operator × Atom)) :
    (TokenStream.mk (linkTokens links ++ rest) last).current.kind ≠ .point := by
  cases links with
  | nil => exact hrest.point
  | cons link links => exact link.1.kind_token.2.1

theorem extend_operator {sub : Nested TokenStream} {operator : Operator} {left right : Node}
    {ts : List Token} {s : TokenStream}
    (hright : (sub.expression (.ofKind operator.token.kind)).run ⟨ts, last⟩ = .ok right s) :
    (extend sub left).run ⟨operator.token :: ts, last⟩ =
      .ok (.binary {} operator.token left right) s :=
  extend_eq_ok.2 (ExtendRead.binary operator.kind_token.1 hright)

/-- The right side of an operator, or a whole chain. -/
theorem expression_links {limit : Nat} {level : Precedence} {atom : Atom} {whole : Node}
    {links behind : List (Operator × Atom)} (hrest : (TokenStream.mk rest last).EndsChain)
    (hatom : ReadsAtom limit atom)
    (hlinks : operatorsFrom (nested limit) level atom.tree ⟨linkTokens links ++ rest, last⟩ =
      .ok whole ⟨linkTokens behind ++ rest, last⟩) :
    ((nested (limit + 1)).expression level).run
        ⟨atom.tokens ++ (linkTokens links ++ rest), last⟩ =
      .ok whole ⟨linkTokens behind ++ rest, last⟩ :=
  expression_eq_ok.2 ⟨_, _, _, primary_eq_ok.1 (hatom _ last), hlinks,
    (TokenStream.pastPoint_eq_self (links_not_point hrest behind)).symm⟩

/-- One round of the loop over operators. -/
theorem operatorsFrom_link {limit : Nat} {level : Precedence} {operator : Operator} {atom : Atom}
    {left right : Node} {links behind : List (Operator × Atom)}
    (hrest : (TokenStream.mk rest last).EndsChain) (hlevel : level.rank < operator.strength)
    (hatom : ReadsAtom limit atom)
    (hright : operatorsFrom (nested limit) (.ofKind operator.token.kind) atom.tree
      ⟨linkTokens links ++ rest, last⟩ = .ok right ⟨linkTokens behind ++ rest, last⟩)
    (hshort : (linkTokens behind).length ≤ (linkTokens links).length) :
    operatorsFrom (nested (limit + 1)) level left
        ⟨linkTokens ((operator, atom) :: links) ++ rest, last⟩ =
      operatorsFrom (nested (limit + 1)) level (.binary {} operator.token left right)
        ⟨linkTokens behind ++ rest, last⟩ := by
  rw [linkTokens_cons, List.cons_append, List.append_assoc, operatorsFrom,
    TokenStream.view_precedence,
    if_pos (by rwa [TokenStream.precedence_mk_cons, Precedence.lt_iff, operator.rank_token]),
    extend_operator (expression_links hrest hatom hright)]
  refine if_pos ?_
  simp only [TokenStream.view_remaining, TokenStream.remaining_mk, List.length_cons,
    List.length_append]
  omega

/-- The loop over operators takes those that bind tighter than its level, up to the first that does
    not, and builds their tree. Each step into a right operand costs one level of depth and raises
    the level of the operators taken, so three levels are enough for any number of operators. -/
theorem operators_links {bound limit : Nat} {level : Precedence} {left : Node}
    {links : List (Operator × Atom)} (hrest : (TokenStream.mk rest last).EndsChain)
    (hatoms : ∀ link ∈ links, ∀ n, bound ≤ n → ReadsAtom n link.2)
    (hlimit : bound + 3 ≤ limit + level.rank) :
    operatorsFrom (nested limit) level left ⟨linkTokens links ++ rest, last⟩ =
      .ok (splitTree left ((linkTrees links).takeWhile (bindsTighter level.rank)))
        ⟨linkTokens (links.dropWhile (bindsTighter level.rank)) ++ rest, last⟩ := by
  induction hn : links.length using Nat.strongRecOn generalizing limit level left links with
  | ind n ih =>
    cases links with
    | nil =>
      refine (operators_stop ?_).trans (by simp)
      rw [linkTokens_nil, List.nil_append, hrest.precedence]
      exact not_lt_lowest level
    | cons link links =>
      obtain ⟨operator, atom⟩ := link
      obtain ⟨hatom, hatoms⟩ := List.forall_mem_cons.1 hatoms
      rw [List.length_cons] at hn
      by_cases hlevel : level.rank < operator.strength
      · have hstrength := operator.strength_le
        obtain ⟨k, rfl⟩ : ∃ k, limit = k + 1 := ⟨limit - 1, by omega⟩
        -- the right operand, and then the loop behind it
        have hright : operatorsFrom (nested k) (.ofKind operator.token.kind) atom.tree
            ⟨linkTokens links ++ rest, last⟩ = _ :=
          ih links.length (by omega) hatoms (by rw [operator.rank_token]; omega) rfl
        rw [operator.rank_token] at hright
        have hlength :=
          (List.dropWhile_sublist (l := links) (bindsTighter operator.strength)).length_le
        have htaken : bindsTighter level.rank (operator, atom) := bindsTighter_iff.2 hlevel
        rw [operatorsFrom_link hrest hlevel (hatom k (by omega)) hright
            (length_linkTokens_dropWhile_le _ links),
          ih _ (Nat.lt_of_le_of_lt hlength (by omega))
            (fun link hlink => hatoms link ((List.dropWhile_sublist _).subset hlink)) hlimit rfl,
          linkTrees_cons, splitTree_takeWhile_cons _ _ hlevel, linkTrees_dropWhile,
          List.dropWhile_cons_of_pos htaken,
          dropWhile_dropWhile fun _ => bindsTighter_of_lt hlevel]
      · have hstop : ¬ bindsTighter level.rank (operator, atom) := mt bindsTighter_iff.1 hlevel
        have hstop' : ¬ bindsTighter level.rank (operator, atom.tree) :=
          mt bindsTighter_iff.1 hlevel
        rw [linkTrees_cons, List.takeWhile_cons_of_neg hstop', List.dropWhile_cons_of_neg hstop,
          splitTree_nil]
        refine operators_stop ?_
        rwa [linkTokens_cons, List.cons_append, TokenStream.precedence_mk_cons, Precedence.lt_iff,
          operator.rank_token]

/-- A chain is read as its tree if its operands are. -/
theorem expression_chain {bound limit : Nat} {chain : Chain}
    (hrest : (TokenStream.mk rest last).EndsChain)
    (hfirst : ∀ n, bound ≤ n → ReadsAtom n chain.first)
    (hlinks : ∀ link ∈ chain.links, ∀ n, bound ≤ n → ReadsAtom n link.2)
    (hlimit : bound + 4 ≤ limit) :
    ((nested limit).expression .lowest).run ⟨chain.tokens ++ rest, last⟩ =
      .ok chain.tree ⟨rest, last⟩ := by
  obtain ⟨k, rfl⟩ : ∃ k, limit = k + 1 := ⟨limit - 1, by omega⟩
  have hall : ∀ {α : Type} (links : List (Operator × α)), ∀ link ∈ links,
      bindsTighter Precedence.lowest.rank link := by
    intro α links link _
    exact bindsTighter_iff.2 link.1.strength_pos
  have hoperators : operatorsFrom (nested k) .lowest chain.first.tree
      ⟨linkTokens chain.links ++ rest, last⟩ = _ :=
    operators_links hrest hlinks (by simp only [Precedence.rank]; omega)
  rw [List.takeWhile_eq_self_iff.2 (hall _), List.dropWhile_eq_nil_iff.2 (hall _),
    ← chain.tree_eq] at hoperators
  rw [chain.tokens_eq, List.append_assoc]
  exact expression_links hrest (hfirst k (by omega)) hoperators

theorem readsAtom_of_token {limit : Nat} {atom : Atom} {t : Token} (htokens : atom.tokens = [t])
    (hpoint : t.kind ≠ .point)
    (h : ∀ rest last, PrimaryRead (nested limit) ⟨t :: rest, last⟩ atom.tree ⟨rest, last⟩) :
    ReadsAtom limit atom := by
  intro rest last
  rw [htokens, primary_eq_ok, TokenStream.skipPoints_eq_self (by simpa using hpoint)]
  exact h rest last

theorem endsChain_closeParen (rest : List Token) (last : Token) :
    (TokenStream.mk (.sign ')' :: rest) last).EndsChain :=
  ⟨by simp [TokenStream.precedence, Precedence.ofKind], by simp⟩

/-- A pair of parentheses costs four levels of depth: one for the expression in it, and three for
    the levels of operators there. -/
theorem readsAtom (atom : Atom) {limit : Nat} (hlimit : 4 * atom.depth ≤ limit) :
    ReadsAtom limit atom := by
  induction hn : atom.depth using Nat.strongRecOn generalizing atom limit with
  | ind n ih =>
    cases atom with
    | number digits h => exact readsAtom_of_token rfl (by simp) fun _ _ => .integer rfl
    | name name h =>
      have hkind := Token.kind_word_of_isName h
      exact readsAtom_of_token rfl (by simp [hkind]) fun _ _ => .identifier hkind
    | truth value =>
      cases value with
      | true => exact readsAtom_of_token rfl (by simp) fun _ _ => .verdadero (by simp)
      | false => exact readsAtom_of_token rfl (by simp) fun _ _ => .falso (by simp)
    | group chain =>
      rw [Atom.depth] at hlimit hn
      have hfirst := chain.depth_first_le
      have hlinks := chain.depth_links_le
      intro rest last
      have hinner := expression_chain (endsChain_closeParen rest last)
        (fun n hbound => ih chain.first.depth (by omega) chain.first (by omega) rfl)
        (fun link hlink n hbound => ih link.2.depth (by have := hlinks link hlink; omega) link.2
          (by have := hlinks link hlink; omega) rfl)
        (show 4 * chain.depth + 4 ≤ limit by omega)
      rw [Atom.tokens, List.cons_append, List.append_assoc, List.singleton_append,
        primary_run_open (by simp), TokenStream.advance_mk_cons]
      simp [hinner, run_expect, Atom.tree, Chain.tree]

theorem exists_cons_atom (atom : Atom) : ∃ t ts, atom.tokens = t :: ts ∧ opensOperand t.kind ∧
    (t.kind = .identifier → ts = []) := by
  cases atom with
  | number digits h => exact ⟨_, _, rfl, rfl, fun _ => rfl⟩
  | name name h =>
    exact ⟨_, _, rfl, by rw [Token.kind_word_of_isName h]; rfl, fun _ => rfl⟩
  | truth value => cases value <;> exact ⟨_, _, rfl, by simp [opensOperand], fun _ => rfl⟩
  | group chain => exact ⟨_, _, rfl, by simp [opensOperand], fun h => by simp at h⟩

/-- A chain is a form of its own, and not the beginning of an assignment. -/
theorem form_chain (chain : Chain) {limit : Nat} (hlimit : 4 * (chain.depth + 1) ≤ limit)
    (hrest : (TokenStream.mk rest last).EndsChain)
    (hassign : (TokenStream.mk rest last).current.kind ≠ .assign) :
    (form (nested limit)).run ⟨chain.tokens ++ rest, last⟩ = .ok chain.tree ⟨rest, last⟩ := by
  have hatoms : ∀ atom : Atom, atom.depth ≤ chain.depth → ∀ n, 4 * chain.depth ≤ n →
      ReadsAtom n atom :=
    fun atom hatom n hn => readsAtom atom (Nat.le_trans (Nat.mul_le_mul_left 4 hatom) hn)
  rw [← expression_chain hrest (hatoms _ chain.depth_first_le)
    (fun link hlink => hatoms _ (chain.depth_links_le link hlink)) hlimit]
  obtain ⟨t, ts, htokens, hopens, hname⟩ := exists_cons_atom chain.first
  rw [chain.tokens_eq, htokens, List.append_assoc, List.cons_append]
  refine form_run_expression ?_ ?_ ?_ ?_
  · exact ne_of_opens hopens (by decide)
  · intro hidentifier
    rw [hname hidentifier, TokenStream.peek_mk_cons]
    cases chain.links with
    | nil => exact hassign
    | cons link links => exact link.1.kind_token.2.2
  · exact ne_of_opens hopens (by decide)
  · exact ne_of_opens hopens (by decide)

theorem forms_cons {sub : Nested TokenStream} {s s' : TokenStream} {f : Node}
    (hpoint : s.current.kind ≠ .point)
    (hend : s.current.kind ≠ .endOfInput) (hrun : (form sub).run s = .ok f s')
    (hlt : s'.remaining < s.remaining) :
    forms sub s = (f :: (forms sub s').1, (forms sub s').2) := by
  rw [forms]
  simp only [TokenStream.view_skipPoints, TokenStream.view_current, TokenStream.view_remaining,
    TokenStream.skipPoints_eq_self hpoint, if_neg hend, hrun, if_pos hlt]

/-- A text that is a chain has one form. -/
theorem forms_chain (chain : Chain) {limit : Nat} (hlimit : 4 * (chain.depth + 1) ≤ limit) :
    forms (nested limit) ⟨chain.tokens, Token.atEnd {}⟩ =
      ([chain.tree], none, ⟨[], Token.atEnd {}⟩) := by
  have hends : (TokenStream.mk [] (Token.atEnd {})).EndsChain := ⟨rfl, by decide⟩
  have hform : (form (nested limit)).run ⟨chain.tokens ++ [], Token.atEnd {}⟩ =
      .ok chain.tree ⟨[], Token.atEnd {}⟩ := form_chain chain hlimit hends (by decide)
  obtain ⟨t, ts, htokens, hopens, -⟩ := exists_cons_atom chain.first
  rw [List.append_nil, chain.tokens_eq, htokens, List.cons_append] at hform
  have hend : forms (nested limit) ⟨[], Token.atEnd {}⟩ = ([], none, ⟨[], Token.atEnd {}⟩) := by
    rw [forms]
    rfl
  rw [chain.tokens_eq, htokens, List.cons_append, forms_cons (ne_of_opens hopens (by decide))
    (ne_of_opens hopens (by decide)) hform (Nat.succ_pos _), hend]

end Grammar

/-! ## The text of a chain -/

theorem IsDigits.scan {digits : String} (h : IsDigits digits) :
    Castellano.scan digits.toList = [⟨.integer, digits, {}⟩] := by
  obtain ⟨c, cs, hcs⟩ := List.exists_cons_of_ne_nil h.1
  obtain ⟨hc, hall⟩ := List.forall_mem_cons.1 (hcs ▸ List.all_eq_true.1 h.2)
  rw [hcs, scan_number hc, List.takeWhile_eq_self_iff.2 hall, List.dropWhile_eq_nil_iff.2 hall,
    scan_nil, ← hcs, String.ofList_toList]

theorem scan_sign_literal {c : Char} (hc : c ∈ signs) :
    scan (Token.sign c).literal.toList = [Token.sign c] := by
  have hliteral : (Token.sign c).literal.toList = [c] := String.toList_singleton c
  rw [hliteral, scan_mark hc, scan_nil]

theorem Operator.scan_token (operator : Operator) :
    scan operator.token.literal.toList = [operator.token] :=
  scan_sign_literal (by cases operator <;> decide)

mutual

theorem Atom.scan_tokens : ∀ (atom : Atom), ∀ t ∈ atom.tokens, scan t.literal.toList = [t]
  | .number digits h => by
    intro t ht
    obtain rfl := List.mem_singleton.1 ht
    exact h.scan
  | .name name h => by
    intro t ht
    obtain rfl := List.mem_singleton.1 ht
    exact h.toIsWord.scan
  | .truth value => by
    intro t ht
    obtain rfl := List.mem_singleton.1 ht
    cases value with
    | true => exact IsWord.scan (by decide)
    | false => exact IsWord.scan (by decide)
  | .group chain => by
    intro t ht
    simp only [Atom.tokens, List.mem_cons, List.mem_append, List.not_mem_nil, or_false] at ht
    rcases ht with rfl | ht | rfl
    · exact scan_sign_literal (by decide)
    · exact chain.scan_tokens t ht
    · exact scan_sign_literal (by decide)

theorem Chain.scan_tokens : ∀ (chain : Chain), ∀ t ∈ chain.tokens, scan t.literal.toList = [t]
  | .single atom => atom.scan_tokens
  | .link atom operator rest => by
    intro t ht
    simp only [Chain.tokens, List.mem_cons, List.mem_append] at ht
    rcases ht with ht | rfl | ht
    · exact atom.scan_tokens t ht
    · exact operator.scan_token
    · exact rest.scan_tokens t ht

end

theorem Chain.scan_text (chain : Chain) : scan chain.text.toList = chain.tokens := by
  rw [Chain.text, scan_intercalate, List.flatMap_map, List.flatMap_congr chain.scan_tokens,
    List.flatMap_singleton']

/-- Operators bind as their precedence says, and to the left. A text with the tokens of a chain,
    such as the chain with spaces between its tokens, is parsed without a diagnostic and to one
    form, which is the tree of the chain up to positions. The limit on the depth that this takes
    depends on the parentheses in the chain only. -/
theorem chain_parses_to_splitTree (chain : Chain) :
    (tokenize chain.text).map Token.unplaced = chain.tokens ++ [Token.atEnd {}] ∧
    ∀ (limits : Limits) (source : String),
      (tokenize source).map Token.unplaced = chain.tokens ++ [Token.atEnd {}] →
      4 * (chain.depth + 1) ≤ limits.depth →
      (parseSource limits source).2 = [] ∧
        (parseSource limits source).1.forms.map Node.unplaced = [chain.tree] := by
  refine ⟨by rw [tokenize_unplaced, chain.scan_text], ?_⟩
  intro limits source htokens hdepth
  rw [tokenize_unplaced, List.append_cancel_right_eq] at htokens
  have hstream : (TokenStream.ofSource source).unplaced = ⟨chain.tokens, Token.atEnd {}⟩ := by
    rw [TokenStream.unplaced_ofSource, htokens]
  have hforms := Grammar.forms_relabel .unplace limits.depth (.ofSource source)
  rw [← TokenStream.unplaced, hstream, Grammar.forms_chain chain hdepth] at hforms
  simp only [Prod.mk.injEq] at hforms
  obtain ⟨hnodes, hdiagnostic, -⟩ := hforms
  rw [parseSource_eq]
  refine ⟨?_, hnodes.symm⟩
  simp [Grammar.program, Option.map_eq_none_iff.1 hdiagnostic.symm]

/-- Two differences, a product and an equality, with parentheses in the last operand. -/
theorem chain_parses_to_splitTree_mixed :
    let sum : Chain := .link (.number "3" (by decide)) .plus (.single (.number "4" (by decide)))
    let chain : Chain := .link (.name "a" (by decide)) .minus
      (.link (.number "1" (by decide)) .minus (.link (.number "2" (by decide)) .times
        (.link (.truth true) .equals (.single (.group sum)))))
    (tokenize "a-1-2*verdadero=(3+4)").map Token.unplaced = chain.tokens ++ [Token.atEnd {}] ∧
      4 * (chain.depth + 1) ≤ 8 ∧
      (parseSource ⟨8, 0⟩ "a-1-2*verdadero=(3+4)").2 = [] ∧
      (parseSource ⟨8, 0⟩ "a-1-2*verdadero=(3+4)").1.forms.map Node.unplaced = [chain.tree] ∧
      chain.tree.surface? 9 = some "(((a - 1) - (2 * verdadero)) = (3 + 4))" := by
  intro sum chain
  have htokens : (tokenize "a-1-2*verdadero=(3+4)").map Token.unplaced =
      chain.tokens ++ [Token.atEnd {}] := by decide +kernel
  have hdepth : 4 * (chain.depth + 1) ≤ 8 := by decide
  obtain ⟨hnone, hforms⟩ :=
    (chain_parses_to_splitTree chain).2 ⟨8, 0⟩ "a-1-2*verdadero=(3+4)" htokens hdepth
  exact ⟨htokens, hdepth, hnone, hforms, by decide +kernel⟩

end Castellano
