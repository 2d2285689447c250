import Castellano.Node.Surface
import Castellano.Proofs.Shape
import Mathlib.Data.List.TakeWhile

/-!
# The tokens of a tree that is written as a source

The text of a tree is read back as tokens that can be said from the tree alone. Between any two of
them stands a character at which the text can be cut, so that the tokens of the text are those of
its parts.

* `Token.word`, `Token.sign`, `Token.numeral`: tokens by their spelling.
* `Node.surfaceTokens`: the tokens of the text of a tree.
* `scan_surface`: scanning the text of a tree gives these tokens.
* `exists_surface`: a limit of as many nodes as there are tokens is enough for the text.
-/

namespace Castellano

/-! ## Tokens by their spelling -/

namespace Token

/-- A word: a name or a keyword. -/
def word (w : String) : Token := ⟨.ofWord w, w, {}⟩

/-- A sign of one character. -/
def sign (c : Char) : Token := ⟨.ofSign c, c.toString, {}⟩

/-- The assignment sign. -/
def assignSign : Token := ⟨.assign, ":=", {}⟩

/-- The literal of a 64-bit integer. -/
def numeral (value : Int) : Token :=
  ⟨.integer, String.ofList (Nat.toDigits 10 (Word64.written value)), {}⟩

end Token

theorem isDigit_of_mem_toDigits {n : Nat} {c : Char} (h : c ∈ Nat.toDigits 10 n) :
    Token.isDigit c := by
  have hdigit := Nat.isDigit_of_mem_toDigits (by decide) (by decide) h
  simp only [Char.isDigit, Bool.and_eq_true, decide_eq_true_eq, ge_iff_le] at hdigit
  simp only [Token.isDigit, Bool.and_eq_true, decide_eq_true_eq]
  exact hdigit

theorem scan_toDigits (n : Nat) :
    scan (Nat.toDigits 10 n) = [⟨.integer, String.ofList (Nat.toDigits 10 n), {}⟩] := by
  obtain ⟨c, cs, hcs⟩ := List.exists_cons_of_ne_nil (Nat.toDigits_ne_nil (b := 10) (n := n))
  have hall : ∀ d ∈ c :: cs, Token.isDigit d := by
    rw [← hcs]
    exact fun d => isDigit_of_mem_toDigits
  have htail : ∀ d ∈ cs, Token.isDigit d := fun d hd => hall d (List.mem_cons_of_mem c hd)
  rw [hcs, scan_number (hall c (by simp)), List.takeWhile_eq_self_iff.2 htail,
    List.dropWhile_eq_nil_iff.2 htail, scan_nil]

theorem IsWord.scan {w : String} (h : IsWord w) : scan w.toList = [Token.word w] := by
  obtain ⟨c, cs, hw, hc, hcs⟩ := h.exists_cons
  rw [hw, scan_word hc, List.takeWhile_eq_self_iff.2 hcs, List.dropWhile_eq_nil_iff.2 hcs, scan_nil,
    ← hw, String.ofList_toList, Token.word]

/-- The signs that a written text is made of, beside words and numbers. -/
def signs : List Char := ['(', ')', '{', '}', '.', '-', '=', '+', '*', '/']

theorem not_isWordChar_of_mem_signs {c : Char} (h : c ∈ ' ' :: signs) : ¬ Token.isWordChar c := by
  have hascii : ∀ c ∈ ' ' :: signs, c.toNat < 128 ∧
      (('a' ≤ c && c ≤ 'z') || ('A' ≤ c && c ≤ 'Z') || c = '_' || Token.isDigit c) = false :=
    forall_mem_of_all (by decide)
  rw [Token.isWordChar, Token.isLetter_of_ascii (hascii c h).1, (hascii c h).2]
  simp

theorem scan_mark {c : Char} (hc : c ∈ signs) (cs : List Char) :
    scan (c :: cs) = Token.sign c :: scan cs := by
  have hclass : ∀ c ∈ signs, ¬ Token.isSpacing c ∧ c ≠ ':' := forall_mem_of_all (by decide)
  obtain ⟨hs, ha⟩ := hclass c hc
  exact scan_sign hs (not_isWordChar_of_mem_signs (List.mem_cons_of_mem _ hc)) fun h => absurd h ha

theorem scan_append_mark {c : Char} (hc : c ∈ signs) (he : c ≠ '=') (a b : List Char) :
    scan (a ++ c :: b) = scan a ++ Token.sign c :: scan b := by
  rw [scan_append (not_isWordChar_of_mem_signs (List.mem_cons_of_mem _ hc)) he, scan_mark hc]

theorem scan_append_space (a b : List Char) : scan (a ++ ' ' :: b) = scan a ++ scan b := by
  rw [scan_append (not_isWordChar_of_mem_signs (by simp)) (by decide), scan_spacing (by decide)]

theorem Token.IsOperator.scan {t : Token} (h : t.IsOperator) :
    Castellano.scan t.literal.toList = [t.unplaced] := by
  have hall : ∀ entry ∈ TokenKind.operatorSigns,
      signs.any fun c => decide (entry.2 = c.toString ∧ TokenKind.ofSign c = entry.1) :=
    forall_mem_of_all (by decide)
  obtain ⟨c, hc, hboth⟩ := List.any_eq_true.1 (hall _ h)
  obtain ⟨hliteral, hkind⟩ := of_decide_eq_true hboth
  have hliteral' : t.literal = c.toString := hliteral
  have hkind' : TokenKind.ofSign c = t.kind := hkind
  rw [Token.unplaced_eq, hliteral', ← hkind', show c.toString.toList = [c] by simp, scan_mark hc,
    scan_nil]
  rfl

theorem scan_intercalate (texts : List String) :
    scan (" ".intercalate texts).toList = texts.flatMap fun text => scan text.toList := by
  rw [String.toList_intercalate, show " ".toList = [' '] from rfl]
  induction texts with
  | nil => simp
  | cons text texts ih =>
    cases texts with
    | nil => simp
    | cons text' texts =>
      rw [List.map_cons, List.map_cons, List.intercalate_cons_cons, List.append_assoc,
        List.singleton_append, scan_append_space, ← List.map_cons, ih]
      rfl

/-! ## Tokens of trees -/

mutual

/-- The tokens of the text of a tree that the grammar builds. -/
def Node.surfaceTokens : Node → List Token
  | .integer _ value => [.numeral value]
  | .boolean _ value => [.word (if value then "verdadero" else "falso")]
  | .identifier _ name => [.word name]
  | .binary _ operator left right =>
    .sign '(' :: (left.surfaceTokens ++ operator.unplaced :: (right.surfaceTokens ++ [.sign ')']))
  | .minus _ operand => .sign '(' :: .sign '-' :: (operand.surfaceTokens ++ [.sign ')'])
  | .not _ operand => .sign '(' :: .word "no" :: (operand.surfaceTokens ++ [.sign ')'])
  | .call _ name arguments =>
    .word name :: .sign '(' :: (Node.argumentTokens arguments ++ [.sign ')'])
  | .function _ parameters body =>
    .word "función" :: .sign '(' ::
      (parameters.flatMap (fun q => [.word q.name, .sign '.']) ++
        .sign ')' :: Block.surfaceTokens body)
  | .assignment _ name value => .word name :: .assignSign :: value.surfaceTokens
  | .conditional _ condition consequence alternative =>
    .word "si" :: (condition.surfaceTokens ++
      (Block.surfaceTokens consequence ++ Block.otherwiseTokens alternative))
  | .loop _ condition body =>
    .word "mientras" :: (condition.surfaceTokens ++ Block.surfaceTokens body)
  | .block b => Block.surfaceTokens b
  | .program _ forms => Node.formTokens forms
  | .bare .. => []

/-- The tokens of arguments, each with its point. -/
def Node.argumentTokens : List Node → List Token
  | [] => []
  | a :: as => a.surfaceTokens ++ .sign '.' :: Node.argumentTokens as

/-- The tokens of forms, each with its point if it takes one. -/
def Node.formTokens : List Node → List Token
  | [] => []
  | f :: fs =>
    f.surfaceTokens ++ ((if f.endsInBlock then [] else [.sign '.']) ++ Node.formTokens fs)

/-- The tokens of a block in braces. -/
def Block.surfaceTokens : Block Node → List Token
  | ⟨forms, _⟩ => .sign '{' :: (Node.formTokens forms ++ [.sign '}'])

/-- The tokens of the other block of a conditional. -/
def Block.otherwiseTokens : Option (Block Node) → List Token
  | none => []
  | some b => .word "sino" :: Block.surfaceTokens b

end

/-! ## Scanning the text of a tree -/

/-- A text that is put together from the texts of nodes has the tokens of the parts. -/
theorem scan_mapM {α : Type} {f : α → Option String} {g : α → List Token} {as : List α}
    (hf : ∀ a ∈ as, ∀ text, f a = some text → scan text.toList = g a) {texts : List String}
    (h : as.mapM f = some texts) :
    scan (" ".intercalate texts).toList = as.flatMap g := by
  rw [scan_intercalate]
  induction as generalizing texts with
  | nil =>
    cases h
    rfl
  | cons a as ih =>
    simp only [List.mapM_cons, Option.bind_eq_bind, Option.bind_eq_some_iff, Option.pure_def,
      Option.some.injEq] at h
    obtain ⟨text, htext, texts', htexts, rfl⟩ := h
    rw [List.flatMap_cons, List.flatMap_cons, hf a (by simp) text htext,
      ih (fun b hb => hf b (List.mem_cons_of_mem a hb)) htexts]

theorem Block.surfaceTokens_eq (b : Block Node) :
    Block.surfaceTokens b = .sign '{' :: (Node.formTokens b.forms ++ [.sign '}']) := by
  obtain ⟨forms, p⟩ := b
  rfl

theorem Node.argumentTokens_eq_flatMap (arguments : List Node) :
    Node.argumentTokens arguments =
      arguments.flatMap fun a => a.surfaceTokens ++ [Token.sign '.'] := by
  induction arguments with
  | nil => rfl
  | cons a as ih => simp [Node.argumentTokens, ih]

theorem Node.formTokens_eq_flatMap (forms : List Node) :
    Node.formTokens forms =
      forms.flatMap fun f =>
        f.surfaceTokens ++ if f.endsInBlock then [] else [Token.sign '.'] := by
  induction forms with
  | nil => rfl
  | cons f fs ih => simp [Node.formTokens, ih]

theorem scan_pointed (text : String) :
    scan (text ++ ".").toList = scan text.toList ++ [Token.sign '.'] := by
  rw [String.toList_append, show ".".toList = ['.'] from rfl,
    scan_append_mark (by decide) (by decide), scan_nil]

theorem scan_surfaceForms {sub : Node → Option String} {forms : List Node}
    (hsub : ∀ f ∈ forms, ∀ text, sub f = some text → scan text.toList = f.surfaceTokens)
    {text : String} (h : Node.surfaceForms sub forms = some text) :
    scan text.toList = Node.formTokens forms := by
  simp only [Node.surfaceForms, Option.bind_eq_bind, Option.bind_eq_some_iff, Option.pure_def,
    Option.some.injEq] at h
  obtain ⟨texts, htexts, rfl⟩ := h
  rw [Node.formTokens_eq_flatMap]
  refine scan_mapM (fun f hf text htext => ?_) htexts
  simp only [Node.surfaceForm, Option.bind_eq_bind, Option.bind_eq_some_iff, Option.pure_def,
    Option.some.injEq] at htext
  obtain ⟨inner, hinner, rfl⟩ := htext
  by_cases hend : f.endsInBlock
  · simp [hend, hsub f hf inner hinner]
  · simp only [hend, Bool.false_eq_true, if_false]
    rw [scan_pointed, hsub f hf inner hinner]

theorem scan_surfaceBlock {sub : Node → Option String} {b : Block Node}
    (hsub : ∀ f ∈ b.forms, ∀ text, sub f = some text → scan text.toList = f.surfaceTokens)
    {text : String} (h : Node.surfaceBlock sub b = some text) :
    scan text.toList = Block.surfaceTokens b := by
  simp only [Node.surfaceBlock, Option.bind_eq_bind, Option.bind_eq_some_iff, Option.pure_def,
    Option.some.injEq] at h
  obtain ⟨inner, hinner, rfl⟩ := h
  rw [String.toList_append, String.toList_append, show "\x7b".toList = ['{'] from rfl,
    show "\x7d".toList = ['}'] from rfl, List.singleton_append, List.cons_append,
    scan_mark (by decide), scan_append_mark (by decide) (by decide), scan_nil,
    scan_surfaceForms hsub hinner, Block.surfaceTokens_eq]

section Layer

variable {sub : Node → Option String}
  (hsub : ∀ {place : Place} {n : Node}, Shaped place n → ∀ {text : String}, sub n = some text →
    scan text.toList = n.surfaceTokens)

include hsub

theorem scan_surfaceLayer_binary {p : Position} {operator : Token} {left right : Node}
    (hoperator : operator.IsOperator) (hleft : Shaped .operand left)
    (hright : Shaped .operand right) {text : String}
    (h : Node.surfaceLayer sub (.binary p operator left right) = some text) :
    scan text.toList = (Node.binary p operator left right).surfaceTokens := by
  simp only [Node.surfaceLayer, Option.bind_eq_bind, Option.bind_eq_some_iff, Option.pure_def,
    Option.some.injEq] at h
  obtain ⟨a, ha, b, hb, rfl⟩ := h
  simp only [String.toList_append, List.append_assoc, show "(".toList = ['('] from rfl,
    show " ".toList = [' '] from rfl, show ")".toList = [')'] from rfl, List.cons_append,
    List.nil_append]
  rw [scan_mark (by decide), scan_append_space, scan_append_space, hoperator.scan,
    scan_append_mark (by decide) (by decide), scan_nil, hsub hleft ha, hsub hright hb]
  rfl

theorem scan_surfaceLayer_call {p : Position} {name : String} {arguments : List Node}
    (hname : IsName name) (harguments : ∀ a ∈ arguments, Shaped .operand a) {text : String}
    (h : Node.surfaceLayer sub (.call p name arguments) = some text) :
    scan text.toList = (Node.call p name arguments).surfaceTokens := by
  simp only [Node.surfaceLayer, Option.bind_eq_bind, Option.bind_eq_some_iff, Option.pure_def,
    Option.some.injEq] at h
  obtain ⟨texts, htexts, rfl⟩ := h
  have hscan := scan_mapM (g := fun a => a.surfaceTokens ++ [Token.sign '.']) (by
    intro a ha text htext
    obtain ⟨inner, hinner, rfl⟩ := Option.map_eq_some_iff.1 htext
    rw [scan_pointed, hsub (harguments a ha) hinner]) htexts
  simp only [String.toList_append, List.append_assoc, show "(".toList = ['('] from rfl,
    show ")".toList = [')'] from rfl, List.cons_append, List.nil_append]
  rw [scan_append_mark (by decide) (by decide), scan_append_mark (by decide) (by decide), scan_nil,
    hscan,
    hname.toIsWord.scan, ← Node.argumentTokens_eq_flatMap]
  rfl

theorem scan_surfaceLayer_function {p : Position} {parameters : List Parameter} {body : Block Node}
    (hparameters : ∀ q ∈ parameters, IsName q.name) (hbody : ∀ f ∈ body.forms, Shaped .form f)
    {text : String} (h : Node.surfaceLayer sub (.function p parameters body) = some text) :
    scan text.toList = (Node.function p parameters body).surfaceTokens := by
  simp only [Node.surfaceLayer, Option.bind_eq_bind, Option.bind_eq_some_iff, Option.pure_def,
    Option.some.injEq] at h
  obtain ⟨inner, hinner, rfl⟩ := h
  have hnames : scan (" ".intercalate (parameters.map fun q => q.name ++ ".")).toList =
      parameters.flatMap fun q => [Token.word q.name, Token.sign '.'] := by
    rw [scan_intercalate, List.flatMap_map]
    refine List.flatMap_congr fun q hq => ?_
    rw [scan_pointed, (hparameters q hq).toIsWord.scan]
    rfl
  simp only [String.toList_append, List.append_assoc,
    show "función(".toList = "función".toList ++ ['('] from rfl,
    show ") ".toList = [')', ' '] from rfl, List.cons_append, List.nil_append]
  rw [scan_append_mark (by decide) (by decide), scan_append_mark (by decide) (by decide),
    scan_spacing (by decide), hnames,
    scan_surfaceBlock (fun f hf text => hsub (hbody f hf)) hinner,
    IsWord.scan (by decide)]
  rfl

theorem scan_surfaceLayer_conditional {p : Position} {condition : Node} {consequence : Block Node}
    {alternative : Option (Block Node)} (hcondition : Shaped .operand condition)
    (hconsequence : ∀ f ∈ consequence.forms, Shaped .form f)
    (halternative : ∀ b, alternative = some b → ∀ f ∈ b.forms, Shaped .form f) {text : String}
    (h : Node.surfaceLayer sub (.conditional p condition consequence alternative) = some text) :
    scan text.toList =
      (Node.conditional p condition consequence alternative).surfaceTokens := by
  have hblock : ∀ {b : Block Node}, (∀ f ∈ b.forms, Shaped .form f) → ∀ {text},
      Node.surfaceBlock sub b = some text → scan text.toList = Block.surfaceTokens b :=
    fun hb _ => scan_surfaceBlock fun f hf _ => hsub (hb f hf)
  cases alternative with
  | none =>
    simp only [Node.surfaceLayer, Option.bind_eq_bind, Option.bind_eq_some_iff, Option.pure_def,
      Option.some.injEq] at h
    obtain ⟨a, ha, b, hb, rfl⟩ := h
    simp only [String.toList_append, List.append_assoc,
      show "si ".toList = "si".toList ++ [' '] from rfl, show " ".toList = [' '] from rfl,
      List.cons_append, List.nil_append]
    rw [scan_append_space, scan_append_space, IsWord.scan (by decide), hsub hcondition ha,
      hblock hconsequence hb]
    simp [Node.surfaceTokens, Block.otherwiseTokens]
  | some other =>
    simp only [Node.surfaceLayer, Option.bind_eq_bind, Option.bind_eq_some_iff, Option.pure_def,
      Option.some.injEq] at h
    obtain ⟨a, ha, b, hb, c, hc, rfl⟩ := h
    simp only [String.toList_append, List.append_assoc,
      show "si ".toList = "si".toList ++ [' '] from rfl, show " ".toList = [' '] from rfl,
      show " sino ".toList = ' ' :: ("sino".toList ++ [' ']) from rfl, List.cons_append,
      List.nil_append]
    rw [scan_append_space, scan_append_space, scan_append_space, scan_append_space,
      IsWord.scan (w := "si") (by decide), IsWord.scan (w := "sino") (by decide),
      hsub hcondition ha,
      hblock hconsequence hb, hblock (halternative other rfl) hc]
    rfl

/-- One layer of a tree is read as its tokens if the nodes below are. -/
theorem scan_surfaceLayer {place : Place} {n : Node} (h : Shaped place n) {text : String}
    (htext : Node.surfaceLayer sub n = some text) : scan text.toList = n.surfaceTokens := by
  cases h with
  | integer h =>
    simp only [Node.surfaceLayer, Option.some.injEq] at htext
    rw [← htext, Word64.toString_written h, String.toList_ofList, scan_toDigits]
    rfl
  | @boolean _ p value =>
    simp only [Node.surfaceLayer, Option.some.injEq] at htext
    have hword : IsWord (if value then "verdadero" else "falso") := by
      cases value <;> decide
    rw [← htext, hword.scan]
    rfl
  | identifier h =>
    simp only [Node.surfaceLayer, Option.some.injEq] at htext
    rw [← htext, h.toIsWord.scan]
    rfl
  | binary hoperator hleft hright =>
    exact scan_surfaceLayer_binary hsub hoperator hleft hright htext
  | minus h =>
    simp only [Node.surfaceLayer, Option.bind_eq_bind, Option.bind_eq_some_iff, Option.pure_def,
      Option.some.injEq] at htext
    obtain ⟨a, ha, rfl⟩ := htext
    simp only [String.toList_append, show "(-".toList = ['(', '-'] from rfl,
      show ")".toList = [')'] from rfl, List.cons_append, List.nil_append]
    rw [scan_mark (by decide), scan_mark (by decide), scan_append_mark (by decide) (by decide),
      scan_nil,
      hsub h ha]
    rfl
  | not h =>
    simp only [Node.surfaceLayer, Option.bind_eq_bind, Option.bind_eq_some_iff, Option.pure_def,
      Option.some.injEq] at htext
    obtain ⟨a, ha, rfl⟩ := htext
    simp only [String.toList_append, List.append_assoc,
      show "(no ".toList = '(' :: ("no".toList ++ [' ']) from rfl,
      show ")".toList = [')'] from rfl, List.cons_append, List.nil_append]
    rw [scan_mark (by decide), scan_append_space, scan_append_mark (by decide) (by decide),
      scan_nil,
      IsWord.scan (by decide), hsub h ha]
    rfl
  | call hname harguments => exact scan_surfaceLayer_call hsub hname harguments htext
  | function hparameters hbody =>
    exact scan_surfaceLayer_function hsub hparameters hbody htext
  | assignment hname hvalue =>
    simp only [Node.surfaceLayer, Option.bind_eq_bind, Option.bind_eq_some_iff, Option.pure_def,
      Option.some.injEq] at htext
    obtain ⟨a, ha, rfl⟩ := htext
    simp only [String.toList_append, List.append_assoc,
      show " := ".toList = [' ', ':', '=', ' '] from rfl, List.cons_append, List.nil_append]
    rw [scan_append_space, scan_assign, scan_spacing (by decide), hname.toIsWord.scan,
      hsub hvalue ha]
    rfl
  | conditional hcondition hconsequence halternative =>
    exact scan_surfaceLayer_conditional hsub hcondition hconsequence halternative htext
  | loop hcondition hbody =>
    simp only [Node.surfaceLayer, Option.bind_eq_bind, Option.bind_eq_some_iff, Option.pure_def,
      Option.some.injEq] at htext
    obtain ⟨a, ha, b, hb, rfl⟩ := htext
    simp only [String.toList_append, List.append_assoc,
      show "mientras ".toList = "mientras".toList ++ [' '] from rfl,
      show " ".toList = [' '] from rfl, List.cons_append, List.nil_append]
    rw [scan_append_space, scan_append_space, IsWord.scan (by decide), hsub hcondition ha,
      scan_surfaceBlock (fun f hf text => hsub (hbody f hf)) hb]
    rfl

end Layer

/-- The text of a tree that the grammar builds is read as the tokens of the tree. -/
theorem scan_surface (limit : Nat) {place : Place} {n : Node} (h : Shaped place n) {text : String}
    (htext : n.surface? limit = some text) : scan text.toList = n.surfaceTokens := by
  induction limit generalizing place n text with
  | zero => cases htext
  | succ limit ih => exact scan_surfaceLayer (fun h => ih h) h htext

/-! ## Counting tokens -/

theorem length_surfaceTokens_lt_arguments {a : Node} {arguments : List Node} (h : a ∈ arguments) :
    a.surfaceTokens.length < (Node.argumentTokens arguments).length := by
  obtain ⟨l₁, l₂, rfl⟩ := List.append_of_mem h
  simp only [Node.argumentTokens_eq_flatMap, List.flatMap_append, List.flatMap_cons,
    List.length_append, List.length_singleton]
  omega

theorem length_surfaceTokens_le_forms {f : Node} {forms : List Node} (h : f ∈ forms) :
    f.surfaceTokens.length ≤ (Node.formTokens forms).length := by
  obtain ⟨l₁, l₂, rfl⟩ := List.append_of_mem h
  simp only [Node.formTokens_eq_flatMap, List.flatMap_append, List.flatMap_cons,
    List.length_append]
  omega

theorem length_surfaceTokens_lt_block {f : Node} {b : Block Node} (h : f ∈ b.forms) :
    f.surfaceTokens.length < (Block.surfaceTokens b).length := by
  have hle := length_surfaceTokens_le_forms h
  simp only [Block.surfaceTokens_eq, List.length_cons, List.length_append]
  omega

theorem exists_mapM {α β : Type} {f : α → Option β} {as : List α}
    (h : ∀ a ∈ as, ∃ b, f a = some b) : ∃ bs, as.mapM f = some bs := by
  induction as with
  | nil => exact ⟨[], rfl⟩
  | cons a as ih =>
    obtain ⟨b, hb⟩ := h a (by simp)
    obtain ⟨bs, hbs⟩ := ih fun a' ha' => h a' (List.mem_cons_of_mem a ha')
    exact ⟨b :: bs, by simp [hb, hbs]⟩

theorem exists_surfaceForms (sub : Node → Option String) {forms : List Node}
    (h : ∀ f ∈ forms, ∃ text, sub f = some text) :
    ∃ text, Node.surfaceForms sub forms = some text := by
  obtain ⟨texts, htexts⟩ : ∃ texts, forms.mapM (Node.surfaceForm sub) = some texts := by
    refine exists_mapM fun f hf => ?_
    obtain ⟨text, htext⟩ := h f hf
    simp [Node.surfaceForm, htext]
  simp [Node.surfaceForms, htexts]

/-- A tree with few enough tokens has a text. -/
theorem exists_surface (limit : Nat) {place : Place} {n : Node} (h : Shaped place n)
    (hlimit : n.surfaceTokens.length ≤ limit) : ∃ text, n.surface? limit = some text := by
  induction limit generalizing place n with
  | zero => cases h <;> simp [Node.surfaceTokens] at hlimit
  | succ limit ih =>
    have hblock : ∀ {b : Block Node}, (∀ f ∈ b.forms, Shaped .form f) →
        (Block.surfaceTokens b).length ≤ limit + 1 →
        ∃ text, Node.surfaceBlock (Node.surface? limit) b = some text := by
      intro b hb hlen
      obtain ⟨text, htext⟩ := exists_surfaceForms (Node.surface? limit) fun f hf =>
        ih (hb f hf) (by have := length_surfaceTokens_lt_block hf; omega)
      simp [Node.surfaceBlock, htext]
    rw [Node.surface?]
    cases h with
    | integer h => exact ⟨_, rfl⟩
    | boolean => exact ⟨_, rfl⟩
    | identifier h => exact ⟨_, rfl⟩
    | binary hoperator hleft hright =>
      simp only [Node.surfaceTokens, List.length_cons, List.length_append] at hlimit
      obtain ⟨a, ha⟩ := ih hleft (by omega)
      obtain ⟨b, hb⟩ := ih hright (by omega)
      simp [Node.surfaceLayer, ha, hb]
    | minus h =>
      simp only [Node.surfaceTokens, List.length_cons, List.length_append] at hlimit
      obtain ⟨a, ha⟩ := ih h (by omega)
      simp [Node.surfaceLayer, ha]
    | not h =>
      simp only [Node.surfaceTokens, List.length_cons, List.length_append] at hlimit
      obtain ⟨a, ha⟩ := ih h (by omega)
      simp [Node.surfaceLayer, ha]
    | @call _ p name arguments hname harguments =>
      simp only [Node.surfaceTokens, List.length_cons, List.length_append] at hlimit
      obtain ⟨texts, htexts⟩ : ∃ texts,
          arguments.mapM (fun a => (· ++ ".") <$> a.surface? limit) = some texts := by
        refine exists_mapM fun a ha => ?_
        obtain ⟨text, htext⟩ := ih (harguments a ha)
          (by have := length_surfaceTokens_lt_arguments ha; omega)
        simp [htext]
      simp only [Node.surfaceLayer, htexts]
      exact ⟨_, rfl⟩
    | function hparameters hbody =>
      simp only [Node.surfaceTokens, List.length_cons, List.length_append] at hlimit
      obtain ⟨a, ha⟩ := hblock hbody (by omega)
      simp [Node.surfaceLayer, ha]
    | assignment hname hvalue =>
      simp only [Node.surfaceTokens, List.length_cons] at hlimit
      obtain ⟨a, ha⟩ := ih hvalue (by omega)
      simp [Node.surfaceLayer, ha]
    | @conditional p condition consequence alternative hcondition hconsequence halternative =>
      simp only [Node.surfaceTokens, List.length_cons, List.length_append] at hlimit
      obtain ⟨a, ha⟩ := ih hcondition (by omega)
      obtain ⟨b, hb⟩ := hblock hconsequence (by omega)
      cases alternative with
      | none => simp [Node.surfaceLayer, ha, hb]
      | some other =>
        simp only [Block.otherwiseTokens, List.length_cons] at hlimit
        obtain ⟨c, hc⟩ := hblock (halternative other rfl) (by omega)
        simp [Node.surfaceLayer, ha, hb, hc]
    | loop hcondition hbody =>
      simp only [Node.surfaceTokens, List.length_cons, List.length_append] at hlimit
      obtain ⟨a, ha⟩ := ih hcondition (by omega)
      obtain ⟨b, hb⟩ := hblock hbody (by omega)
      simp [Node.surfaceLayer, ha, hb]

end Castellano
