import Castellano.Proofs.Decimal
import Mathlib.Data.Int.ModEq
import Mathlib.Data.Nat.Digits.Defs

/-!
# Literals by place value

The last digit of a literal counts ones, the one before it tens, and so on. The reading goes the
other way: it takes the digits from the front, eighteen at a time with a shorter group at the end,
and drops the multiples of `2^64` after each group. What it comes to is the place value, wrapped.

* `figures`, `placeValue`: the ten digits, and the number that a list of them writes.
* `placeValue_cons`: a digit in front counts the power of ten of the digits behind it.
* `decimal_eq_placeValue`: reading from the front gives the place value.
* `eq_wrap_iff`: wrapping picks the one number in range that is congruent modulo `2^64`.
* `literal_reading_exact`: a literal of any length is read exactly.
-/

namespace Castellano.Word64

/-! ## Place value -/

/-- The ten digits, each at the index that is its value. -/
def figures : List Char := ['0', '1', '2', '3', '4', '5', '6', '7', '8', '9']

/-- The number that digits write, the least significant one last. -/
def placeValue (digits : List Char) : Nat := Nat.ofDigits 10 (digits.map figures.idxOf).reverse

theorem placeValue_cons (c : Char) (rest : List Char) :
    placeValue (c :: rest) = figures.idxOf c * 10 ^ rest.length + placeValue rest := by
  rw [placeValue, List.map_cons, Nat.ofDigits_reverse_cons, List.length_map, ← placeValue]
  ring

/-- Ones only: nine times the number falls short of a power of ten by one. -/
theorem placeValue_ones (count : Nat) :
    9 * placeValue (List.replicate count '1') + 1 = 10 ^ count := by
  induction count with
  | zero => rfl
  | succ count ih =>
    have hone : figures.idxOf '1' = 1 := by decide
    rw [List.replicate_succ, placeValue_cons, List.length_replicate, hone, pow_succ]
    omega

/-! ## Reading from the front -/

theorem digitValue_of_mem_figures {c : Char} (h : c ∈ figures) :
    digitValue c = figures.idxOf c := by
  simp only [figures, List.mem_cons, List.not_mem_nil, or_false] at h
  rcases h with rfl | rfl | rfl | rfl | rfl | rfl | rfl | rfl | rfl | rfl <;> decide

/-- Multiplying by ten at each further digit gives the place value. -/
theorem decimal_eq_placeValue {digits : List Char} (h : digits ⊆ figures) :
    decimal digits = placeValue digits := by
  induction digits with
  | nil => rfl
  | cons c rest ih =>
    -- `decimal` folds from the front, so that the first digit is split off as a group of its own
    obtain ⟨hc, hrest⟩ := List.cons_subset.1 h
    have hhead : decimal [c] = figures.idxOf c := by
      rw [← digitValue_of_mem_figures hc]
      simp [decimal]
    calc decimal (c :: rest)
      _ = decimal [c] * Nat.pow 10 rest.length + decimal rest := decimal_append [c] rest
      _ = figures.idxOf c * 10 ^ rest.length + placeValue rest := by
        rw [hhead, ih hrest, Nat.pow_eq]
      _ = placeValue (c :: rest) := (placeValue_cons c rest).symm

/-! ## Wrapping -/

/-- A number is the wrapped one exactly if it lies in the signed 64-bit range and has the same
    residue modulo `2^64`. -/
theorem eq_wrap_iff {n m : Int} :
    m = wrap n ↔ (-2 ^ 63 ≤ m ∧ m ≤ 2 ^ 63 - 1) ∧ m ≡ n [ZMOD 2 ^ 64] := by
  simp only [wrap, Int.bmod_def, modulus, Int.ModEq]
  omega

/-- A literal is read exactly. A text of digits, however long, also if it is empty or has zeros in
    front, is read as its place value, wrapped; and wrapping an integer gives the only number of
    `[-2^63, 2^63 - 1]` that is congruent to it modulo `2^64`. -/
theorem literal_reading_exact :
    (∀ digits : String, digits.toList ⊆ figures →
      ofDecimal digits = wrap (placeValue digits.toList)) ∧
    ∀ n m : Int, m = wrap n ↔ (-2 ^ 63 ≤ m ∧ m ≤ 2 ^ 63 - 1) ∧ m ≡ n [ZMOD 2 ^ 64] := by
  constructor
  · intro digits h
    rw [ofDecimal_eq_wrap_decimal, decimal_eq_placeValue h]
  · intro n m
    exact eq_wrap_iff

/-- No digits; a last group of a single digit, with zeros in front of the digits of the least
    number; and five thousand ones, with a last group of fourteen. -/
theorem literal_reading_exact_lengths :
    ofDecimal "" = 0 ∧
    ofDecimal "0000000000000000009223372036854775808" = -2 ^ 63 ∧
    ofDecimal (String.ofList (List.replicate 5000 '1')) = wrap ((10 ^ 5000 - 1) / 9 : Nat) := by
  obtain ⟨hread, hwrap⟩ := literal_reading_exact
  refine ⟨(hread _ (by decide)).trans (by decide), ?_, ?_⟩
  · rw [hread _ (by decide), eq_comm, hwrap]
    decide +kernel
  · have hones : List.replicate 5000 '1' ⊆ figures := by
      intro c hc
      rw [List.eq_of_mem_replicate hc]
      decide
    have hvalue : placeValue (List.replicate 5000 '1') = (10 ^ 5000 - 1) / 9 := by
      rw [← placeValue_ones]
      omega
    rw [hread _ (by rwa [String.toList_ofList]), String.toList_ofList, hvalue]

end Castellano.Word64
