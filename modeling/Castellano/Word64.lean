/-!
# Signed 64-bit integers

The integers of the language are the signed 64-bit ones, held as plain `Int`s. Every arithmetic
result is brought back into range by `wrap`, and an integer literal of any length is read modulo
`2^64` without ever building its full value.

* `modulus` — `2^64`.
* `wrap` — the representative modulo `2^64` in `[-2^63, 2^63)`.
* `decimal` — the number that a run of digits writes.
* `ofDecimal` — the 64-bit reading of a run of digits, eighteen digits at a time.
* `quotient` — division toward zero.
-/

namespace Castellano.Word64

/-- How many 64-bit integers there are: `2^64`. -/
def modulus : Nat := 18446744073709551616

/-- `n` is a signed 64-bit integer: it lies in `[-2^63, 2^63)`. -/
def InRange (n : Int) : Prop := -9223372036854775808 ≤ n ∧ n < 9223372036854775808

instance (n : Int) : Decidable (InRange n) := inferInstanceAs (Decidable (_ ∧ _))

/-- The representative of `n` modulo `2^64` that lies in `[-2^63, 2^63)`. -/
def wrap (n : Int) : Int := Int.bmod n modulus

/-- The value of a decimal digit. -/
def digitValue (c : Char) : Nat := c.toNat - '0'.toNat

/-- The number that the digits write in base ten; no digits write zero. -/
def decimal (digits : List Char) : Nat :=
  digits.foldl (fun value c => 10 * value + digitValue c) 0

/-- How many digits `residue` takes in one step: a group's value is far below `2^64`. -/
def groupSize : Nat := 18

/-- The value modulo `2^64` of `value` followed by the given digits, group by group, so that no
    intermediate number exceeds `2^64 · 10^18`. -/
def residue (value : Nat) (digits : List Char) : Nat :=
  if digits.isEmpty then value
  else
    let group := digits.take groupSize
    residue ((value * Nat.pow 10 group.length + decimal group) % modulus) (digits.drop groupSize)
termination_by digits.length
decreasing_by
  have h : digits ≠ [] := by simpa using ‹¬ digits.isEmpty = true›
  have := List.length_pos_iff.2 h
  simp only [List.length_drop, groupSize]
  omega

/-- The signed 64-bit integer that a run of digits denotes: its value, wrapped. -/
def ofDecimal (digits : String) : Int := wrap (residue 0 digits.toList)

/-- The quotient of two integers, cut off toward zero; there is none for a zero divisor. The
    quotient is not wrapped. -/
def quotient (a b : Int) : Option Int := if b = 0 then none else some (a.tdiv b)

end Castellano.Word64
