import Castellano.Proofs.Sequel
import Castellano.Proofs.SurfaceTokens

/-!
# The point between two texts

Two texts that are parsed without a diagnostic, with a point between them. The forms are those of
the first text and then those of the second, unless the second starts with a minus or a parenthesis
and the last form of the first takes all the points before it: every expression that ends with the
first text takes one, and an expression that finds none goes on with the sign.

* `Grammar.forms_absorbs`: the forms of a text with points and another text behind it.
* `openPoints`: how many points the last form of a text would take.
* `point_separates_iff`: when a point separates two texts.
-/

namespace Castellano

/-! ## More tokens, more nodes -/

/-- A point does not stand inside `si no entonces`. -/
theorem Accounts.significant_append {ts : List Token} {nodes : List Node} (h : Accounts ts nodes)
    {m : Token} (hm : m.kind = .point) (us : List Token) :
    Castellano.significant (ts ++ m :: us) =
      Castellano.significant ts ++ Castellano.significant us := by
  induction h with
  | nil => exact significant_mark (by rw [hm]; rfl) us
  | mark h _ ih => rw [List.cons_append, significant_mark h, significant_mark h, ih]
  | otherwise ha hb hc _ ih =>
    rw [List.cons_append, List.cons_append, List.cons_append, Castellano.significant,
      if_pos ⟨ha, hb, hc⟩, Castellano.significant, if_pos ⟨ha, hb, hc⟩, ih]
  | @node t ts n nodes h rest ih =>
    rw [List.cons_append, significant_node h.not_mark.1, ih,
      significant_node h.not_mark.1 rest.not_entonces, List.cons_append]
    intro b c vs heq hb hc
    rcases ts with _ | ⟨u, _ | ⟨v, ts⟩⟩
    · cases heq
      rw [hm] at hb
      cases hb
    · cases heq
      rw [hm] at hc
      cases hc
    · cases heq
      exact rest.not_entonces _ _ _ rfl hb hc

theorem mem_significant {m : Token} (hm : m.kind = .minus) {ts : List Token} (h : m ∈ ts) :
    m ∈ significant ts := by
  fun_induction significant ts with
  | case1 a b c ts hwords ih =>
    obtain ⟨ha, hb, hc⟩ := hwords
    refine ih ?_
    simp only [List.mem_cons] at h
    obtain rfl | rfl | rfl | h := h
    · simp [hm] at ha
    · simp [hm] at hb
    · simp [hm] at hc
    · exact h
  | case2 a b c ts hwords hmark ih =>
    obtain rfl | h := List.mem_cons.1 h
    · simp [hm, TokenKind.isMark] at hmark
    · exact ih h
  | case3 a b c ts hwords hmark ih =>
    obtain rfl | h := List.mem_cons.1 h
    · exact List.mem_cons_self
    · exact List.mem_cons_of_mem _ (ih h)
  | case4 ts hshort => simp [h, hm, TokenKind.isMark]

namespace Grammar

open Parse

variable {e : Token} {sub : Nested TokenStream} {s s' : TokenStream}

/-- A form that reads on into the other text, over its minus, is not the form that it was. -/
theorem form_ne_of_reads_on (hsub : sub.Reads) {f b : Node} {s₂ : TokenStream} {x : Sequel e}
    (hs : s.EndsAt e) (hrun : (form sub).run s = .ok f s') (hend : s'.upcoming = [])
    (hminus : x.head = .minus) (hrun₂ : (form sub).run (s.followedBy (x.after 0)) = .ok b s₂)
    (hlt : s₂.remaining < x.rest.length) : f ≠ b := by
  obtain ⟨read, hread, -, ha⟩ := (form_reads hsub hs.ended hrun).1
  rw [hend, List.append_nil] at hread
  obtain ⟨read₂, hread₂, -, ha₂⟩ := (form_reads hsub (hs.followedBy x 0).ended hrun₂).1
  obtain ⟨p, points, hpoints⟩ := List.exists_cons_of_ne_nil x.nonempty
  have hp := x.point p (by simp [hpoints])
  -- what was read ends inside the other text, behind its first token
  have hrest : x.rest <:+ (s.followedBy (x.after 0)).upcoming :=
    ⟨s.upcoming ++ x.points, by simp [TokenStream.followedBy, Sequel.after]⟩
  obtain ⟨more, hmore⟩ : s₂.upcoming <:+ x.rest :=
    List.suffix_of_suffix_length_le ⟨read₂, hread₂.symm⟩ hrest (Nat.le_of_lt hlt)
  have hread₂' : read₂ = read ++ p :: (points ++ more) := by
    refine (List.append_left_inj s₂.upcoming).1 ?_
    rw [← hread₂]
    simp [TokenStream.followedBy, Sequel.after, hread, hpoints, ← hmore]
  have hmem : ∃ m ∈ points ++ more, m.kind = .minus := by
    cases more with
    | nil =>
      rw [← hmore] at hlt
      exact absurd hlt (by simp [TokenStream.remaining])
    | cons m more =>
      refine ⟨m, by simp, ?_⟩
      rw [← hminus, Sequel.head, ← hmore]
      rfl
  obtain ⟨m, hm, hkind⟩ := hmem
  have hpos := List.length_pos_of_mem (mem_significant hkind hm)
  have hlength := ha.significant.length_eq
  have hlength₂ := ha₂.significant.length_eq
  rw [hread₂', ha.significant_append hp, List.length_append] at hlength₂
  rintro rfl
  omega

/-! ## Forms one after the other -/

theorem forms_of_end (hs : s.EndsAt e) (h : s.skipPoints.upcoming = []) :
    forms sub s = ([], none, s.skipPoints) := by
  rw [forms]
  simp [(s.reads_skipPoints.endsAt hs).kind_eq h]

section Steps

variable (hsub : sub.Reads) {f : Node}

theorem kind_skipPoints_ne_end (hs : s.EndsAt e) (h : s.skipPoints.upcoming ≠ []) :
    s.skipPoints.current.kind ≠ .endOfInput := by
  obtain ⟨t, ts, hts⟩ := List.exists_cons_of_ne_nil h
  rw [TokenStream.current, hts]
  exact (s.reads_skipPoints.endsAt hs).ended.upcoming t (by simp [hts])

include hsub in
theorem forms_of_ok (hs : s.EndsAt e) (hrun : (form sub).run s = .ok f s') :
    forms sub s = (f :: (forms sub s').1, (forms sub s').2) := by
  obtain ⟨hread, hne⟩ := form_reads hsub hs.ended hrun
  have hlt := hread.remaining_lt hne
  rw [← form_run_skipPoints] at hrun
  have hskip := form_ne_nil hsub (s.reads_skipPoints.endsAt hs) hrun
  rw [forms]
  simp [kind_skipPoints_ne_end hs hskip, hrun, hlt]

theorem forms_of_error {fault : Failure} (hs : s.EndsAt e) (hne : s.skipPoints.upcoming ≠ [])
    (hrun : (form sub).run s = .error fault s') : (forms sub s).2.1 ≠ none := by
  rw [← form_run_skipPoints] at hrun
  rw [forms]
  cases fault <;> simp [kind_skipPoints_ne_end hs hne, hrun]

include hsub in
theorem forms_skipPoints (hs : s.EndsAt e) : forms sub s.skipPoints = forms sub s := by
  have hskip := s.reads_skipPoints.endsAt hs
  by_cases hne : s.skipPoints.upcoming = []
  · rw [forms_of_end hs hne, forms_of_end hskip (by rwa [TokenStream.skipPoints_skipPoints]),
      TokenStream.skipPoints_skipPoints]
  · cases hrun : (form sub).run s with
    | ok f s' =>
      rw [forms_of_ok hsub hs hrun, forms_of_ok hsub hskip ((form_run_skipPoints sub s).trans hrun)]
    | error fault s' =>
      have hrun' := (form_run_skipPoints sub s).trans hrun
      rw [forms, forms]
      cases fault <;>
        simp [TokenStream.skipPoints_skipPoints, kind_skipPoints_ne_end hs hne, hrun']

end Steps

/-- Where the last form ends. Without a form, the stream itself. -/
def lastEnd (sub : Nested TokenStream) (s : TokenStream) : TokenStream :=
  if s.skipPoints.current.kind = .endOfInput then s
  else
    match (form sub).run s with
    | .error _ s' => s'
    | .ok _ s' => if s'.remaining < s.remaining then lastEnd sub s' else s'
termination_by s.remaining

theorem lastEnd_of_end (hs : s.EndsAt e) (h : s.skipPoints.upcoming = []) : lastEnd sub s = s := by
  rw [lastEnd, if_pos ((s.reads_skipPoints.endsAt hs).kind_eq h)]

theorem lastEnd_of_ok (hsub : sub.Reads) {f : Node} (hs : s.EndsAt e)
    (hrun : (form sub).run s = .ok f s') : lastEnd sub s = lastEnd sub s' := by
  obtain ⟨hread, hne⟩ := form_reads hsub hs.ended hrun
  have hlt := hread.remaining_lt hne
  have hskip := form_ne_nil hsub (s.reads_skipPoints.endsAt hs)
    ((form_run_skipPoints sub s).trans hrun)
  rw [lastEnd, if_neg (kind_skipPoints_ne_end hs hskip), hrun]
  simp [hlt]

/-- The last form of the text takes `k` of the points that follow. With so many points, or before a
    text that does not glue, the forms of the other text follow those of this one; otherwise they do
    not. -/
structure FormsAbsorb (e : Token) (sub : Nested TokenStream) (s : TokenStream)
    (k : Nat) : Prop where
  takes : ∀ x : Sequel e, k ≤ x.points.length ∨ ¬ x.Glues →
    forms sub (s.followedBy (x.after 0)) =
      ((forms sub s).1 ++ (forms sub ⟨x.rest, e⟩).1, (forms sub ⟨x.rest, e⟩).2)
  glues : ∀ x : Sequel e, x.points.length < k → x.Glues →
    (forms sub (s.followedBy (x.after 0))).2.1 = none →
      ¬ (forms sub s).1 <+: (forms sub (s.followedBy (x.after 0))).1
  counts : ∀ x : Sequel e, x.rest = [] → k ≤ x.points.length →
    x.points.length - (lastEnd sub (s.followedBy (x.after 0))).remaining = k

section Forms

variable (hsub : sub.Reads)

theorem skipPoints_followedBy_after (hs : s.EndsAt e) (h : s.skipPoints.upcoming = [])
    (x : Sequel e) (k : Nat) : (s.followedBy (x.after k)).skipPoints = ⟨x.rest, e⟩ := by
  have hempty : (s.upcoming.dropWhile fun t => t.kind = .point).isEmpty := by
    simpa [TokenStream.skipPoints] using h
  rw [← x.skipPoints_after k]
  simp [TokenStream.skipPoints, TokenStream.followedBy, List.dropWhile_append, hempty, hs.last]

include hsub

theorem forms_followedBy_after (hs : s.EndsAt e) (h : s.skipPoints.upcoming = []) (x : Sequel e)
    (k : Nat) : forms sub (s.followedBy (x.after k)) = forms sub ⟨x.rest, e⟩ := by
  rw [← forms_skipPoints hsub (hs.followedBy x k), skipPoints_followedBy_after hs h]

omit hsub in
theorem lastEnd_followedBy_after (hs : s.EndsAt e) (h : s.skipPoints.upcoming = []) {x : Sequel e}
    (hrest : x.rest = []) (k : Nat) :
    (lastEnd sub (s.followedBy (x.after k))).remaining =
      s.remaining + (x.points.length - k) := by
  rw [lastEnd_of_end (hs.followedBy x k) (by rw [skipPoints_followedBy_after hs h, hrest]),
    TokenStream.remaining_followedBy]
  simp [Sequel.after, hrest]

theorem formsAbsorb_of_points (hs : s.EndsAt e) (h : s.skipPoints.upcoming = []) :
    FormsAbsorb e sub s 0 := by
  refine ⟨fun x _ => ?_, fun x hlt => absurd hlt (Nat.not_lt_zero _), fun x hrest _ => ?_⟩
  · rw [forms_followedBy_after hsub hs h, forms_of_end hs h]
    rfl
  · rw [lastEnd_followedBy_after hs h hrest]
    omega

theorem formsAbsorb_of_last {f : Node} {k : Nat} (hs : s.EndsAt e)
    (hrun : (form sub).run s = .ok f s') (hend : s'.upcoming = [])
    (h : Absorbs e (form sub) s f s' k fun _ => False) : FormsAbsorb e sub s k := by
  have hs' := (form_reads hsub hs.ended hrun).1.endsAt hs
  have hend' : s'.skipPoints.upcoming = [] := by simp [TokenStream.skipPoints, hend]
  refine ⟨fun x hx => ?_, fun x hlt hx hnone hprefix => ?_, fun x hrest hk => ?_⟩
  · rw [forms_of_ok hsub (hs.followedBy x 0) (h.takes x hx),
      forms_followedBy_after hsub hs' hend', forms_of_ok hsub hs hrun, forms_of_end hs' hend']
    rfl
  · obtain ⟨fault, s₂, hrun₂⟩ | ⟨hminus, b, s₂, hrun₂, -, hshort⟩ :=
      (h.glues x hlt hx).resolve_right And.left
    · have hskip := form_ne_nil hsub (s.reads_skipPoints.endsAt hs)
        ((form_run_skipPoints sub s).trans hrun)
      refine forms_of_error (hs.followedBy x 0) ?_ hrun₂ hnone
      rw [TokenStream.skipPoints_followedBy hskip]
      exact List.append_ne_nil_of_left_ne_nil hskip _
    · rw [forms_of_ok hsub hs hrun, forms_of_ok hsub (hs.followedBy x 0) hrun₂,
        List.cons_prefix_cons] at hprefix
      exact form_ne_of_reads_on hsub hs hrun hend hminus hrun₂ hshort hprefix.1
  · rw [lastEnd_of_ok hsub (hs.followedBy x 0) (h.takes x (.inl hk)),
      lastEnd_followedBy_after hs' hend' hrest, TokenStream.remaining, hend]
    simp only [List.length_nil]
    omega

theorem formsAbsorb_cons {f : Node} {k : Nat} (hs : s.EndsAt e)
    (hrun : (form sub).run s = .ok f s')
    (hform : ∀ x : Sequel e,
      (form sub).run (s.followedBy (x.after 0)) = .ok f (s'.followedBy (x.after 0)))
    (h : FormsAbsorb e sub s' k) : FormsAbsorb e sub s k := by
  have hforms := forms_of_ok hsub hs hrun
  have hforms' := fun x : Sequel e => forms_of_ok hsub (hs.followedBy x 0) (hform x)
  refine ⟨fun x hx => ?_, fun x hlt hx hnone hprefix => ?_, fun x hrest hk => ?_⟩
  · rw [hforms', hforms, h.takes x hx]
    rfl
  · rw [hforms'] at hnone hprefix
    rw [hforms, List.cons_prefix_cons] at hprefix
    exact h.glues x hlt hx hnone hprefix.2
  · rw [lastEnd_of_ok hsub (hs.followedBy x 0) (hform x)]
    exact h.counts x hrest hk

/-- The forms of a text without a diagnostic take some number of points. -/
theorem forms_absorbs (habs : sub.Absorbs e) (hs : s.EndsAt e) (hnone : (forms sub s).2.1 = none) :
    ∃ k ≤ s.remaining, FormsAbsorb e sub s k := by
  induction hN : s.remaining using Nat.strongRecOn generalizing s with
  | _ N ih =>
    subst hN
    by_cases hend : s.skipPoints.upcoming = []
    · exact ⟨0, Nat.zero_le _, formsAbsorb_of_points hsub hs hend⟩
    · cases hrun : (form sub).run s with
      | error fault s' => exact absurd hnone (forms_of_error hs hend hrun)
      | ok f s' =>
        obtain ⟨hread, hne⟩ := form_reads hsub hs.ended hrun
        have hlt := hread.remaining_lt hne
        obtain ⟨k, hk, hform⟩ := form_absorbs hsub habs hs hrun
        rw [forms_of_ok hsub hs hrun] at hnone
        by_cases hend' : s'.upcoming = []
        · exact ⟨k, hk, formsAbsorb_of_last hsub hs hrun hend' hform⟩
        · obtain ⟨k', hk', h⟩ := ih _ hlt (hread.endsAt hs) hnone rfl
          exact ⟨k', by omega, formsAbsorb_cons hsub hs hrun (hform.run hend') h⟩

end Forms

/-! ## How a text starts -/

theorem current_advance_advance (s : TokenStream) :
    s.advance.advance.current = s.peekTwice := by
  obtain ⟨upcoming, last⟩ := s
  match upcoming with
  | [] => rfl
  | [a] => rfl
  | [a, b] => rfl
  | a :: b :: c :: rest => rfl

theorem startsOtherwise_iff {s : TokenStream} :
    startsOtherwise s ↔ s.current.kind = .si ∧ s.advance.current.kind = .no ∧
      s.advance.advance.current.kind = .entonces := by
  rw [startsOtherwise, TokenStream.view_current, TokenStream.view_peek,
    TokenStream.view_peekTwice, TokenStream.current_advance, current_advance_advance,
    Bool.and_eq_true,
    Bool.and_eq_true, decide_eq_true_eq, decide_eq_true_eq, decide_eq_true_eq, and_assoc]

/-- The kinds of token that start an expression. -/
def startsExpression : List TokenKind :=
  [.integer, .identifier, .verdadero, .falso, .openParen, .minus, .no, .funcion]

theorem PrimaryRead.kind_mem {n : Node} (h : PrimaryRead sub s n s') :
    s.current.kind ∈ startsExpression := by
  cases h <;> simp_all [startsExpression]

theorem expression_kind_mem {limit : Nat} {level : Precedence} {n : Node}
    (hpoint : s.current.kind ≠ .point)
    (h : ((nested limit).expression level).run s = .ok n s') :
    s.current.kind ∈ startsExpression := by
  cases limit with
  | zero => cases h
  | succ limit =>
    obtain ⟨first, s₁, s₂, hfirst, -⟩ := expression_eq_ok.1 h
    rw [TokenStream.skipPoints_eq_self hpoint] at hfirst
    exact hfirst.kind_mem

/-- No condition starts with `no entonces`. -/
theorem not_startsOtherwise_of_condition {limit : Nat} {level : Precedence} {n : Node}
    (h : ((nested limit).expression level).run s.advance = .ok n s') : ¬ startsOtherwise s := by
  intro hstarts
  obtain ⟨-, hno, hentonces⟩ := startsOtherwise_iff.1 hstarts
  cases limit with
  | zero => cases h
  | succ limit =>
    obtain ⟨first, s₁, s₂, hfirst, -⟩ := expression_eq_ok.1 h
    rw [TokenStream.skipPoints_eq_self (by simp [hno])] at hfirst
    cases hfirst with
    | not _ _ hoperand =>
      have hmem := expression_kind_mem (by simp [hentonces]) hoperand
      simp [hentonces, startsExpression] at hmem
    | _ => simp_all

theorem starts_of_mem (hmem : s.current.kind ∈ .endOfInput :: .si :: .mientras :: startsExpression)
    (hother : ¬ startsOtherwise s) : s.Starts := by
  have hkinds : ∀ kind ∈ .endOfInput :: .si :: .mientras :: startsExpression,
      kind ≠ TokenKind.point ∧ kind ≠ .sino ∧
        (Precedence.ofKind kind = .lowest ∨ kind = .minus ∨ kind = .openParen) := by
    decide
  obtain ⟨hpoint, hsino, hoperator⟩ := hkinds _ hmem
  exact ⟨⟨hpoint, hsino, hother⟩, hoperator⟩

theorem starts_of_forms {limit : Nat} (hs : s.EndsAt e) (hpoint : s.current.kind ≠ .point)
    (hnone : (forms (nested limit) s).2.1 = none) : s.Starts := by
  have hother : s.current.kind ≠ .si → ¬ startsOtherwise s := by
    intro hsi
    simp [startsOtherwise, hsi]
  by_cases hend : s.current.kind = .endOfInput
  · exact starts_of_mem (by simp [hend]) (hother (by simp [hend]))
  · have hskip := TokenStream.skipPoints_eq_self hpoint
    cases hrun : (form (nested limit)).run s with
    | error fault s' =>
      exact absurd hnone (forms_of_error hs (by rw [hskip]; exact hs.upcoming_ne_nil hend) hrun)
    | ok f s' =>
      have hread := form_eq_ok.1 hrun
      rw [hskip] at hread
      cases hread with
      | assignment h _ _ =>
        exact starts_of_mem (by simp [h, startsExpression]) (hother (by simp [h]))
      | conditional h hcondition _ _ =>
        exact starts_of_mem (by simp [h]) (not_startsOtherwise_of_condition hcondition)
      | loop h _ _ => exact starts_of_mem (by simp [h]) (hother (by simp [h]))
      | expression _ hsi _ hnode =>
        have hmem := expression_kind_mem hpoint hnode
        exact starts_of_mem (by simp [hmem]) (hother hsi)

end Grammar

/-! ## Texts -/

/-- The tokens of a text, whatever their positions. -/
def tokensOf (source : String) : TokenStream := (TokenStream.ofSource source).unplaced

/-- How many points the text starts with. -/
def leadingPoints (source : String) : Nat :=
  ((tokensOf source).upcoming.takeWhile fun t => t.kind = .point).length

/-- Behind any points, the text starts with a minus or with a parenthesis. -/
def StartsWithSign (source : String) : Prop :=
  (tokensOf source).skipPoints.current.kind = .minus ∨
    (tokensOf source).skipPoints.current.kind = .openParen

instance (source : String) : Decidable (StartsWithSign source) :=
  inferInstanceAs (Decidable (_ ∨ _))

/-- How many points behind the text its last form would take, however many there are: the number of
    expressions that end with the text and have not taken a point yet. -/
def openPoints (limits : Limits) (source : String) : Nat :=
  let points := List.replicate ((tokensOf source).remaining + 1) (Token.sign '.')
  points.length - (Grammar.lastEnd (Grammar.nested limits.depth)
    ((tokensOf source).followedBy points)).remaining

theorem endsAt_tokensOf (source : String) : (tokensOf source).EndsAt (Token.atEnd {}) := by
  refine ⟨⟨fun t ht => ?_, ?_⟩, ?_⟩
  · obtain ⟨u, hu, rfl⟩ := List.mem_map.1 ht
    exact (TokenStream.ended_ofSource source).upcoming u hu
  · exact (TokenStream.ended_ofSource source).last
  · rw [tokensOf, TokenStream.unplaced_ofSource]

theorem forms_tokensOf (limits : Limits) (source : String) :
    (Grammar.forms (Grammar.nested limits.depth) (tokensOf source)).1 =
        (parseSource limits source).1.forms.map Node.unplaced ∧
      ((Grammar.forms (Grammar.nested limits.depth) (tokensOf source)).2.1 = none ↔
        (parseSource limits source).2 = []) := by
  rw [tokensOf, TokenStream.unplaced, Grammar.forms_relabel, parseSource_eq]
  refine ⟨rfl, ?_⟩
  simp [Grammar.program]

theorem tokensOf_append_point (s t : String) :
    tokensOf (s ++ " . " ++ t) =
      (tokensOf s).followedBy (Token.sign '.' :: (tokensOf t).upcoming) := by
  have hchars : (s ++ " . " ++ t).toList = s.toList ++ ' ' :: '.' :: ' ' :: t.toList := by
    simp
  simp only [tokensOf, TokenStream.unplaced_ofSource, TokenStream.followedBy, hchars]
  rw [scan_append_space, scan_mark (by decide), scan_spacing (by decide)]

/-- A point and then a text without a diagnostic, as what follows another text. -/
theorem exists_sequel {limits : Limits} {t : String} (ht : (parseSource limits t).2 = []) :
    ∃ x : Sequel (Token.atEnd {}), x.points.length = leadingPoints t + 1 ∧
      (x.Glues ↔ StartsWithSign t) ∧ x.after 0 = Token.sign '.' :: (tokensOf t).upcoming ∧
      Grammar.forms (Grammar.nested limits.depth) ⟨x.rest, Token.atEnd {}⟩ =
        Grammar.forms (Grammar.nested limits.depth) (tokensOf t) := by
  have hends := endsAt_tokensOf t
  have hskip := (tokensOf t).reads_skipPoints.endsAt hends
  have hstream : (tokensOf t).skipPoints = ⟨(tokensOf t).skipPoints.upcoming, Token.atEnd {}⟩ := by
    rw [← hskip.last]
  have hforms := Grammar.forms_skipPoints (Grammar.nested_reads limits.depth) hends
  have hstarts : (tokensOf t).skipPoints.Starts := by
    refine Grammar.starts_of_forms hskip ?_ (by rw [hforms]; exact (forms_tokensOf limits t).2.2 ht)
    by_cases hne : (tokensOf t).skipPoints.upcoming = []
    · simp [hskip.kind_eq hne]
    · exact (tokensOf t).kind_skipPoints_ne hne
  let x : Sequel (Token.atEnd {}) :=
    { points := Token.sign '.' :: (tokensOf t).upcoming.takeWhile fun t => t.kind = .point
      rest := (tokensOf t).skipPoints.upcoming
      point := by
        intro u hu
        obtain rfl | hu := List.mem_cons.1 hu
        · rfl
        · simpa using List.all_eq_true.1 List.all_takeWhile u hu
      nonempty := by simp
      starts := hstream ▸ hstarts
      ended := hstream ▸ hskip.ended }
  refine ⟨x, rfl, ?_, ?_, ?_⟩
  · rw [Sequel.Glues, Sequel.head, ← hstream]
    rfl
  · exact congrArg _ List.takeWhile_append_dropWhile
  · rw [← hstream, hforms]

theorem openPoints_eq {limits : Limits} {source : String} {k : Nat}
    (hk : k ≤ (tokensOf source).remaining)
    (h : Grammar.FormsAbsorb (Token.atEnd {}) (Grammar.nested limits.depth) (tokensOf source) k) :
    openPoints limits source = k := by
  let x : Sequel (Token.atEnd {}) :=
    { points := List.replicate ((tokensOf source).remaining + 1) (Token.sign '.')
      rest := []
      point := by
        intro t ht
        rw [List.eq_of_mem_replicate ht]
        rfl
      nonempty := by simp
      starts := Grammar.starts_of_mem (by decide) (by decide)
      ended := ⟨by simp, rfl⟩ }
  have hcounts := h.counts x rfl (by simp only [x, List.length_replicate]; omega)
  have hafter : x.after 0 = x.points := by simp [Sequel.after, x]
  rwa [hafter] at hcounts

/-- When a point separates two texts. If each of two texts is parsed without a diagnostic, then the
    two with a point between them are parsed without a diagnostic, and to the forms of the first and
    then those of the second, up to positions, if and only if the second does not start with a minus
    or a parenthesis, or there are enough points for all expressions that end with the first. -/
theorem point_separates_iff (limits : Limits) (s t : String)
    (hs : (parseSource limits s).2 = []) (ht : (parseSource limits t).2 = []) :
    ((parseSource limits (s ++ " . " ++ t)).2 = [] ∧
      (parseSource limits (s ++ " . " ++ t)).1.forms.map Node.unplaced =
        (parseSource limits s).1.forms.map Node.unplaced ++
          (parseSource limits t).1.forms.map Node.unplaced) ↔
    (¬ StartsWithSign t ∨ openPoints limits s ≤ leadingPoints t + 1) := by
  obtain ⟨x, hpoints, hglues, hafter, hrest⟩ := exists_sequel ht
  obtain ⟨k, hk, h⟩ := Grammar.forms_absorbs (Grammar.nested_reads limits.depth)
    (Grammar.nested_absorbs _ limits.depth) (endsAt_tokensOf s) ((forms_tokensOf limits s).2.2 hs)
  rw [openPoints_eq hk h, ← hpoints, ← hglues, ← (forms_tokensOf limits _).2,
    ← (forms_tokensOf limits _).1, ← (forms_tokensOf limits _).1, ← (forms_tokensOf limits _).1,
    tokensOf_append_point, ← hafter, ← hrest]
  by_cases hseparate : ¬ x.Glues ∨ k ≤ x.points.length
  · refine iff_of_true ?_ hseparate
    rw [h.takes x hseparate.symm]
    exact ⟨by rw [hrest]; exact (forms_tokensOf limits t).2.2 ht, rfl⟩
  · refine iff_of_false ?_ hseparate
    rintro ⟨hnone, hforms⟩
    rw [not_or, not_not, Nat.not_le] at hseparate
    exact h.glues x hseparate.2 hseparate.1 hnone ⟨_, hforms.symm⟩

/-- Behind `1 + 2`, whose last form would take two points, one point does not separate `-3`, and two
    points do. -/
theorem point_separates_examples :
    ((parseSource ⟨9, 0⟩ "1 + 2").2 = [] ∧ (parseSource ⟨9, 0⟩ "-3").2 = [] ∧
      ¬ ((parseSource ⟨9, 0⟩ ("1 + 2" ++ " . " ++ "-3")).2 = [] ∧
        (parseSource ⟨9, 0⟩ ("1 + 2" ++ " . " ++ "-3")).1.forms.map Node.unplaced =
          (parseSource ⟨9, 0⟩ "1 + 2").1.forms.map Node.unplaced ++
            (parseSource ⟨9, 0⟩ "-3").1.forms.map Node.unplaced)) ∧
    ((parseSource ⟨9, 0⟩ ". -3").2 = [] ∧
      (parseSource ⟨9, 0⟩ ("1 + 2" ++ " . " ++ ". -3")).2 = []) := by
  have hs : (parseSource ⟨9, 0⟩ "1 + 2").2 = [] := by decide +kernel
  have ht : (parseSource ⟨9, 0⟩ "-3").2 = [] := by decide +kernel
  have ht' : (parseSource ⟨9, 0⟩ ". -3").2 = [] := by decide +kernel
  refine ⟨⟨hs, ht, ?_⟩, ht', ?_⟩
  · rw [point_separates_iff ⟨9, 0⟩ _ _ hs ht]
    decide +kernel
  · exact ((point_separates_iff ⟨9, 0⟩ _ _ hs ht').2 (.inr (by decide +kernel))).1

end Castellano
