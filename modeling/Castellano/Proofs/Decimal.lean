import Castellano.Word64

/-!
# Wrapped integers and decimal literals

A literal of any length is read modulo `2^64`, group by group. The groups do not show: the reading
is the value of all digits, wrapped. In particular the digits of a number in range, or of a negative
number increased by `2^64`, are read back as that number.

* `wrap_eq_shifted`: wrapping as a residue of the number shifted up by `2^63`.
* `inRange_wrap`, `wrap_of_inRange`: wrapping ends in the range and keeps what lies in it.
* `quotient_eq_natAbs`: the quotient as that of the absolute values, with a sign.
* `ofDecimal_eq_wrap_decimal`: a literal means its decimal value, wrapped.
* `ofDecimal_toDigits_written`: the digits written for a 64-bit integer are read back as it.
* `toList_toString`: the text of an integer.
-/

namespace Castellano.Word64

/-! ## Wrapping and dividing -/

/-- With the range shifted up to start at zero, wrapping is taking the residue. -/
theorem wrap_eq_shifted (n : Int) :
    wrap n = (n + 9223372036854775808) % modulus - 9223372036854775808 := by
  simp only [wrap, Int.bmod_def, modulus]
  omega

theorem inRange_wrap (n : Int) : InRange (wrap n) := by
  simp only [InRange, wrap_eq_shifted, modulus]
  omega

theorem wrap_of_inRange {n : Int} (h : InRange n) : wrap n = n := by
  obtain ⟨h1, h2⟩ := h
  simp only [wrap_eq_shifted, modulus]
  omega

theorem wrap_add_modulus (n : Int) : wrap (n + modulus) = wrap n := by
  simp only [wrap_eq_shifted, modulus]
  omega

/-- Wrapping only looks at the residue modulo `2^64`. -/
theorem wrap_natCast_mod (n : Nat) : wrap ((n % modulus : Nat) : Int) = wrap n := by
  simp only [wrap_eq_shifted, modulus]
  omega

/-- The quotient is that of the absolute values, negated if just one of the two is negative. -/
theorem quotient_eq_natAbs {a b : Int} (hb : b ≠ 0) :
    quotient a b = some (if a < 0 ↔ b < 0 then ((a.natAbs / b.natAbs : Nat) : Int)
      else -((a.natAbs / b.natAbs : Nat) : Int)) := by
  rw [quotient, if_neg hb]
  have hnat : ∀ n : Nat, ¬ Int.ofNat n < 0 := fun n => Int.not_lt.2 (Int.natCast_nonneg n)
  -- the constructors tell the signs
  cases a <;> cases b <;> simp only [hnat, Int.negSucc_lt_zero, iff_true, iff_false, not_true,
    if_true, if_false] <;> rfl

/-! ## Groups of digits -/

theorem decimal_eq_ofDigitChars (digits : List Char) :
    decimal digits = Nat.ofDigitChars 10 digits 0 := rfl

theorem decimal_append (a b : List Char) :
    decimal (a ++ b) = decimal a * Nat.pow 10 b.length + decimal b := by
  simp only [decimal_eq_ofDigitChars]
  rw [Nat.pow_eq, Nat.ofDigitChars_append, Nat.ofDigitChars_eq_ofDigitChars_zero, Nat.mul_comm]

/-- Reading by groups keeps the value modulo `2^64`. -/
theorem residue_mod (value : Nat) (digits : List Char) :
    residue value digits % modulus =
      (value * Nat.pow 10 digits.length + decimal digits) % modulus := by
  fun_induction residue value digits with
  | case1 value digits h =>
    rw [List.isEmpty_iff.1 h]
    simp [decimal]
  | case2 value digits h group ih =>
    have hgroup : digits = group ++ digits.drop groupSize := (List.take_append_drop _ _).symm
    rw [ih]
    generalize digits.drop groupSize = rest at hgroup ⊢
    simp only [hgroup, decimal_append, Nat.pow_eq]
    rw [List.length_append, Nat.pow_add, ← Nat.mul_assoc,
      ← Nat.add_assoc, ← Nat.add_mul, Nat.add_mod, Nat.mod_mul_mod, ← Nat.add_mod]

/-- A literal means the value of all its digits, wrapped. -/
theorem ofDecimal_eq_wrap_decimal (digits : String) :
    ofDecimal digits = wrap (decimal digits.toList) := by
  have hmod := residue_mod 0 digits.toList
  rw [Nat.zero_mul, Nat.zero_add] at hmod
  rw [ofDecimal, ← wrap_natCast_mod, hmod, wrap_natCast_mod]

/-! ## Digits that are written -/

/-- The natural number whose digits are written for a 64-bit integer. -/
def written (value : Int) : Nat := (if value < 0 then value + modulus else value).toNat

theorem toString_written {value : Int} (h : InRange value) :
    toString (if value < 0 then value + modulus else value) =
      String.ofList (Nat.toDigits 10 (written value)) := by
  obtain ⟨h1, h2⟩ := h
  have hnat : (if value < 0 then value + modulus else value) = (written value : Int) := by
    rw [written, Int.toNat_of_nonneg]
    simp only [modulus]
    split <;> omega
  rw [hnat]
  exact Nat.toString_eq_ofList_toDigits

theorem wrap_written {value : Int} (h : InRange value) : wrap (written value) = value := by
  obtain ⟨h1, h2⟩ := h
  rw [written]
  split
  · rw [Int.toNat_of_nonneg (by simp only [modulus]; omega), wrap_add_modulus,
      wrap_of_inRange ⟨h1, h2⟩]
  · rw [Int.toNat_of_nonneg (by omega), wrap_of_inRange ⟨h1, h2⟩]

/-- The digits written for a 64-bit integer are read back as it. -/
theorem ofDecimal_toDigits_written {value : Int} (h : InRange value) :
    ofDecimal (String.ofList (Nat.toDigits 10 (written value))) = value := by
  rw [ofDecimal_eq_wrap_decimal, String.toList_ofList, decimal_eq_ofDigitChars,
    Nat.ofDigitChars_ten_toDigits, wrap_written h]

/-- A number is written as the digits of its absolute value, behind a minus sign if it is
    negative. -/
theorem toList_toString (value : Int) :
    (toString value).toList =
      (if value < 0 then ['-'] else []) ++ Nat.toDigits 10 value.natAbs := by
  show value.repr.toList = _
  rw [Int.repr_eq_if]
  split
  · rw [if_neg (by omega), Nat.toList_repr, List.nil_append]
    congr 1
    omega
  · rw [if_pos (by omega), String.toList_append, Nat.toList_repr]
    congr 2
    omega

end Castellano.Word64
