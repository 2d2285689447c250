import Castellano.Proofs.Layout
import Mathlib.Data.List.Forall2

/-!
# Printed parts

What is printed in parts can be taken apart again: texts that are joined by a separator they do not
contain, and lines that are grouped by their indentation.

* `string_intercalate_inj`: a joined text determines the texts.
* `mapM_eq_some_iff`, `mapM_of_mapM`: a list is printed, and read, if each of its members is.
* `IsChunk`, `chunks_inj`: lines can be cut at one indentation in one way only.
-/

namespace Castellano

/-! ## Joined texts -/

section Joined

variable {c : Char} {sep : List Char}

theorem intercalate_cons (sep a : List Char) (as : List (List Char)) :
    sep.intercalate (a :: as) = a ++ as.flatMap (sep ++ ·) := by
  induction as generalizing a with
  | nil => simp
  | cons b as ih =>
    rw [List.intercalate_cons_cons, ih, List.flatMap_cons, List.append_assoc, List.append_assoc]

theorem head?_flatMap_separated (as : List (List Char)) :
    ∀ x ∈ (as.flatMap ((c :: sep) ++ ·)).head?, ¬ (x != c) = true := by
  cases as with
  | nil => simp
  | cons a as => simp

/-- Texts without the first character of the separator can be told apart behind a text without
    it. -/
theorem append_separated_inj {a b : List Char} {as bs : List (List Char)}
    (ha : ∀ x ∈ a :: as, c ∉ x) (hb : ∀ x ∈ b :: bs, c ∉ x)
    (h : a ++ as.flatMap ((c :: sep) ++ ·) = b ++ bs.flatMap ((c :: sep) ++ ·)) :
    a :: as = b :: bs := by
  have hrun : ∀ {a : List Char}, c ∉ a → ∀ x ∈ a, (x != c) = true := by
    intro a hc x hx
    rw [bne_iff_ne]
    rintro rfl
    exact hc hx
  induction as generalizing a b bs with
  | nil =>
    obtain ⟨rfl, htail⟩ := run_append_inj (hrun (ha a (by simp))) (hrun (hb b (by simp)))
      (head?_flatMap_separated []) (head?_flatMap_separated bs) h
    cases bs with
    | nil => rfl
    | cons b' bs => cases htail
  | cons a' as ih =>
    obtain ⟨rfl, htail⟩ := run_append_inj (hrun (ha a (by simp))) (hrun (hb b (by simp)))
      (head?_flatMap_separated (a' :: as)) (head?_flatMap_separated bs) h
    cases bs with
    | nil => cases htail
    | cons b' bs =>
      rw [List.flatMap_cons, List.flatMap_cons, List.append_assoc, List.append_assoc,
        List.append_cancel_left_eq] at htail
      rw [ih (List.forall_mem_cons.1 ha).2 (List.forall_mem_cons.1 hb).2 htail]

/-- Texts that are not empty and lack the first character of the separator can be told apart when
    they are joined. -/
theorem intercalate_inj {as bs : List (List Char)} (ha : ∀ a ∈ as, a ≠ [] ∧ c ∉ a)
    (hb : ∀ b ∈ bs, b ≠ [] ∧ c ∉ b)
    (h : (c :: sep).intercalate as = (c :: sep).intercalate bs) : as = bs := by
  cases as with
  | nil =>
    cases bs with
    | nil => rfl
    | cons b bs =>
      rw [intercalate_cons, List.intercalate_nil] at h
      exact absurd (List.append_eq_nil_iff.1 h.symm).1 (hb b (by simp)).1
  | cons a as =>
    cases bs with
    | nil =>
      rw [intercalate_cons, List.intercalate_nil] at h
      exact absurd (List.append_eq_nil_iff.1 h).1 (ha a (by simp)).1
    | cons b bs =>
      rw [intercalate_cons, intercalate_cons] at h
      exact append_separated_inj (fun x hx => (ha x hx).2) (fun x hx => (hb x hx).2) h

theorem not_mem_intercalate {as : List (List Char)} (hsep : c ∉ sep) (h : ∀ a ∈ as, c ∉ a) :
    c ∉ sep.intercalate as := by
  cases as with
  | nil => simp
  | cons a as =>
    obtain ⟨ha, has⟩ := List.forall_mem_cons.1 h
    simp only [intercalate_cons, List.mem_append, List.mem_flatMap, not_or, not_exists, not_and]
    exact ⟨ha, fun b hb => ⟨hsep, has b hb⟩⟩

/-- The same for strings. -/
theorem string_intercalate_inj {separator : String} (hsep : separator.toList = c :: sep)
    {as bs : List String} (ha : ∀ a ∈ as, a ≠ "" ∧ c ∉ a.toList)
    (hb : ∀ b ∈ bs, b ≠ "" ∧ c ∉ b.toList)
    (h : separator.intercalate as = separator.intercalate bs) : as = bs := by
  have hlist := congrArg String.toList h
  rw [String.toList_intercalate, String.toList_intercalate, hsep] at hlist
  have hmap : ∀ {as : List String}, (∀ a ∈ as, a ≠ "" ∧ c ∉ a.toList) →
      ∀ a ∈ as.map String.toList, a ≠ [] ∧ c ∉ a := by
    intro as has
    rw [List.forall_mem_map]
    intro a hmem
    exact ⟨fun hnil => (has a hmem).1 (String.toList_eq_nil_iff.1 hnil), (has a hmem).2⟩
  exact List.map_injective_iff.2 (fun _ _ => String.toList_injective)
    (intercalate_inj (hmap ha) (hmap hb) hlist)

end Joined

/-! ## Sequences of attempts -/

theorem mapM_eq_some_iff {α β : Type} {f : α → Option β} {as : List α} {bs : List β} :
    as.mapM f = some bs ↔ List.Forall₂ (fun a b => f a = some b) as bs := by
  induction as generalizing bs with
  | nil => cases bs <;> simp
  | cons a as ih =>
    cases bs with
    | nil => simp [Option.bind_eq_some_iff]
    | cons b bs => simp [Option.bind_eq_some_iff, ih]

/-- What is written member by member can be read back member by member. -/
theorem mapM_of_mapM {α β γ : Type} {write : α → Option β} {read : β → Option γ} {f : α → γ}
    {as : List α} {bs : List β} (h : as.mapM write = some bs)
    (hread : ∀ a ∈ as, ∀ b, write a = some b → read b = some (f a)) :
    bs.mapM read = some (as.map f) := by
  rw [mapM_eq_some_iff] at h ⊢
  induction h with
  | nil => exact .nil
  | cons hfirst _ ih =>
    obtain ⟨hhead, htail⟩ := List.forall_mem_cons.1 hread
    exact .cons (hhead _ hfirst) (ih htail)

theorem exists_mem_of_forall₂ {α β : Type} {R : α → β → Prop} {as : List α} {bs : List β}
    (h : List.Forall₂ R as bs) {b : β} (hb : b ∈ bs) : ∃ a ∈ as, R a b := by
  induction h with
  | nil => cases hb
  | @cons a b' as bs hab _ ih =>
    obtain rfl | hb := List.mem_cons.1 hb
    · exact ⟨a, by simp, hab⟩
    · obtain ⟨a', ha', hab'⟩ := ih hb
      exact ⟨a', List.mem_cons_of_mem a ha', hab'⟩

/-! ## Indented lines -/

/-- How many blanks stand in front of a line. -/
def margin (line : String) : Nat := (line.toList.takeWhile (· = ' ')).length

/-- Lines of which the first is indented by `indent` and all others are indented further. -/
def IsChunk (indent : Nat) : List String → Prop
  | [] => False
  | line :: rest => margin line = indent ∧ ∀ l ∈ rest, indent < margin l

theorem IsChunk.le_margin {indent : Nat} {lines : List String} (h : IsChunk indent lines) :
    ∀ line ∈ lines, indent ≤ margin line := by
  cases lines with
  | nil => exact h.elim
  | cons line rest => exact List.forall_mem_cons.2 ⟨h.1.ge, fun l hl => (h.2 l hl).le⟩

theorem margin_head?_flatten {indent : Nat} {chunks : List (List String)}
    (h : ∀ chunk ∈ chunks, IsChunk indent chunk) :
    ∀ line ∈ chunks.flatten.head?, margin line = indent := by
  cases chunks with
  | nil => simp
  | cons chunk chunks =>
    obtain ⟨hchunk, -⟩ := List.forall_mem_cons.1 h
    cases chunk with
    | nil => exact hchunk.elim
    | cons line rest =>
      rintro _ ⟨⟩
      exact hchunk.1

/-- Lines can be cut into chunks of one indentation in one way only. -/
theorem chunks_inj {indent : Nat} {as bs : List (List String)} (ha : ∀ a ∈ as, IsChunk indent a)
    (hb : ∀ b ∈ bs, IsChunk indent b) (h : as.flatten = bs.flatten) : as = bs := by
  have hdeeper : ∀ {rest : List String}, (∀ l ∈ rest, indent < margin l) →
      ∀ l ∈ rest, decide (indent < margin l) = true := fun hrest l hl => decide_eq_true (hrest l hl)
  have hstop : ∀ {chunks : List (List String)}, (∀ chunk ∈ chunks, IsChunk indent chunk) →
      ∀ l ∈ chunks.flatten.head?, ¬ decide (indent < margin l) = true := by
    intro chunks hchunks l hl
    rw [decide_eq_true_eq, margin_head?_flatten hchunks l hl]
    exact Nat.lt_irrefl indent
  induction as generalizing bs with
  | nil =>
    cases bs with
    | nil => rfl
    | cons b bs =>
      obtain rfl : b = [] := (List.append_eq_nil_iff.1 h.symm).1
      exact (hb [] (by simp)).elim
  | cons a as ih =>
    obtain ⟨hfirst, has⟩ := List.forall_mem_cons.1 ha
    cases a with
    | nil => exact hfirst.elim
    | cons line rest =>
      cases bs with
      | nil => cases h
      | cons b bs =>
        obtain ⟨hfirst', hbs⟩ := List.forall_mem_cons.1 hb
        cases b with
        | nil => exact hfirst'.elim
        | cons line' rest' =>
          obtain ⟨rfl, htail⟩ := List.cons.inj h
          obtain ⟨rfl, hflatten⟩ := run_append_inj (hdeeper hfirst.2) (hdeeper hfirst'.2)
            (hstop has) (hstop hbs) htail
          rw [ih has hbs hflatten]

end Castellano
