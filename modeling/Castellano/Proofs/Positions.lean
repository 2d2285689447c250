import Castellano.Proofs.Scan
import Mathlib.Data.Int.Order.Basic
import Mathlib.Data.Prod.Lex

/-!
# Tokens stand at increasing positions

Every token of a text stands behind the one before it, so that its position tells it from all
others.

* `Position.key`: positions in the order in which they stand.
* `Cursor.pairwise_tokens`: the tokens of a text stand at increasing positions.
* `Cursor.suffix_eq_of_position`: a position names one place in the tokens.
-/

namespace Castellano

namespace Position

/-- The line and then the column of a position: positions in the order in which they stand. -/
def key (p : Position) : Lex (Int × Int) := toLex (p.line, p.column)

theorem key_lt_after (p : Position) (ch : Char) : p.key < (p.after ch).key := by
  rw [key, key, Prod.Lex.toLex_lt_toLex, after]
  split
  · exact .inl (Int.lt_add_one_of_le (Int.le_refl _))
  · exact .inr ⟨rfl, Int.lt_add_one_of_le (Int.le_refl _)⟩

theorem key_le_afterAll (p : Position) (cs : List Char) : p.key ≤ (p.afterAll cs).key := by
  induction cs generalizing p with
  | nil => exact le_refl _
  | cons ch cs ih => exact (p.key_lt_after ch).le.trans (ih _)

end Position

namespace Cursor

theorem key_lt_advance {c : Cursor} (hne : c.rest ≠ []) :
    c.position.key < c.advance.position.key := by
  obtain ⟨ch, rest, hc⟩ := List.exists_cons_of_ne_nil hne
  simpa [advance, hc] using c.position.key_lt_after ch

theorem key_le_advance (c : Cursor) : c.position.key ≤ c.advance.position.key := by
  by_cases hne : c.rest = []
  · simp [advance, hne]
  · exact (key_lt_advance hne).le

theorem key_le_pass (p : Char → Bool) (c : Cursor) :
    c.position.key ≤ (c.pass p).2.position.key :=
  c.position.key_le_afterAll _

theorem key_lt_pass {p : Char → Bool} {c : Cursor} {ch : Char} {cs : List Char}
    (hc : c.rest = ch :: cs) (hp : p ch = true) :
    c.position.key < (c.pass p).2.position.key := by
  have hrun : c.rest.takeWhile p = ch :: cs.takeWhile p := by simp [hc, hp]
  show c.position.key < (c.position.afterAll (c.rest.takeWhile p)).key
  rw [hrun]
  exact (c.position.key_lt_after ch).trans_le (Position.key_le_afterAll _ _)

theorem key_lt_readToken {c : Cursor} (hne : c.rest ≠ []) :
    c.position.key < c.readToken.2.position.key := by
  have hadvance := key_lt_advance hne
  obtain ⟨ch, cs, hc⟩ := List.exists_cons_of_ne_nil hne
  unfold readToken
  rw [hc]
  simp only
  split
  · exact key_lt_pass hc ‹_›
  · split
    · exact hadvance.trans_le (key_le_pass _ _)
    · split
      · exact hadvance.trans_le (key_le_advance _)
      · exact hadvance

/-- The tokens of a text stand at increasing positions. -/
theorem pairwise_tokens (c : Cursor) :
    (∀ t ∈ c.tokens.1, c.position.key ≤ t.position.key) ∧
      c.tokens.1.Pairwise fun t u => t.position.key < u.position.key := by
  have hfirst : ∀ c : Cursor, c.position.key ≤ c.nextToken.1.position.key := by
    intro c
    rw [nextToken, position_readToken]
    exact c.key_le_pass _
  induction c using tokens.induct with
  | case1 c next =>
    rename_i hend
    rw [tokens_end hend]
    simpa using hfirst c
  | case2 c next hend =>
    rename_i ih
    have hne : c.skipSpacing.rest ≠ [] := fun h => hend (kind_readToken_eq_endOfInput.2 h)
    have hlt : c.nextToken.1.position.key < c.nextToken.2.position.key := by
      rw [nextToken, position_readToken]
      exact key_lt_readToken hne
    have hrest : ∀ t ∈ c.nextToken.2.tokens.1, c.nextToken.1.position.key < t.position.key :=
      fun t ht => hlt.trans_le (ih.1 t ht)
    rw [tokens_next hend]
    refine ⟨?_, List.pairwise_cons.2 ⟨hrest, ih.2⟩⟩
    rintro t (_ | ⟨_, ht⟩)
    · exact hfirst c
    · exact (hfirst c).trans (hrest t ht).le

/-- A position is that of one token. -/
theorem suffix_eq_of_position {ts us tokens : List Token} {p : Position}
    (htokens : tokens.Pairwise fun t u => t.position.key < u.position.key)
    (hts : ts <:+ tokens) (hus : us <:+ tokens) (ht : ts.head?.map Token.position = some p)
    (hu : us.head?.map Token.position = some p) : ts = us := by
  have hshorter : ∀ {ts us : List Token}, us <:+ tokens → ts <:+ us →
      ts.head?.map Token.position = some p → us.head?.map Token.position = some p → ts = us := by
    intro ts us hus hts ht hu
    rcases us with _ | ⟨u, us⟩
    · cases hu
    · obtain heq | hrest := List.suffix_cons_iff.1 hts
      · exact heq
      · rcases ts with _ | ⟨t, ts⟩
        · cases ht
        · have hlt := List.rel_of_pairwise_cons (htokens.sublist hus.sublist)
            (hrest.subset List.mem_cons_self)
          have hposition : t.position = u.position := Option.some.inj (ht.trans hu.symm)
          rw [hposition] at hlt
          exact absurd hlt (lt_irrefl _)
  obtain hsuffix | hsuffix := List.suffix_or_suffix_of_suffix hts hus
  · exact hshorter hus hsuffix ht hu
  · exact (hshorter hts hsuffix hu ht).symm

end Cursor

end Castellano
