import Mathlib.Data.Nat.Log
import Mathlib.Data.Rat.Floor
import Mathlib.Algebra.Order.Field.Basic
import Mathlib.Algebra.Order.Field.Power
import Mathlib.Tactic.FieldSimp
import Mathlib.Tactic.Linarith
import Mathlib.Tactic.NormNum
import Mathlib.Tactic.Ring

/-!
# Finite decimal numbers

A finite decimal is a sign, a coefficient and a power of ten. Distinct triples may have
the same value, and zero has two signs and every exponent: order and equality of values
are therefore separate from equality of representations.

Comparison is computed on integers aligned to the smaller exponent, so a concrete
comparison evaluates without rational arithmetic.
-/

namespace DecimalArithmetic

/-- A finite decimal: sign, coefficient and exponent, without a canonical exponent. -/
structure Decimal where
  negative : Bool
  coefficient : ℕ
  exponent : ℤ
deriving DecidableEq, Repr

namespace Decimal

/-- The coefficient with its sign. -/
def signed (d : Decimal) : ℤ := if d.negative then -(d.coefficient : ℤ) else d.coefficient

/-- The rational number denoted by the triple. -/
def value (d : Decimal) : ℚ := d.signed * (10 : ℚ) ^ d.exponent

/-- An integer as a decimal of exponent zero. -/
def ofInt (n : ℤ) : Decimal := ⟨decide (n < 0), n.natAbs, 0⟩

/-- The number of digits of the coefficient; zero has the single digit `0`. -/
def digits (d : Decimal) : ℕ := Nat.log 10 d.coefficient + 1

/-- The exponent of the leading digit. -/
def adjusted (d : Decimal) : ℤ := d.exponent + d.digits - 1

/-- The coefficient as an integer at the exponent `e`, exact when `e` is not above the exponent. -/
def scaled (d : Decimal) (e : ℤ) : ℤ := d.signed * 10 ^ (d.exponent - e).toNat

/-- Change the sign without rounding. -/
def copyNegate (d : Decimal) : Decimal := { d with negative := !d.negative }

/-- An integer decimal has the integer as its value. -/
@[simp] theorem value_ofInt (n : ℤ) : (ofInt n).value = n := by
  unfold ofInt value signed
  by_cases hn : n < 0
  · simp [hn, abs_of_neg hn]
  · simp [hn, abs_of_nonneg (not_lt.mp hn)]

/-- Changing the sign negates the value. -/
@[simp] theorem value_copyNegate (d : Decimal) : d.copyNegate.value = -d.value := by
  rcases d with ⟨negative, c, e⟩
  cases negative <;> simp [copyNegate, value, signed]

/-- The magnitude of the signed coefficient is the coefficient. -/
@[simp] theorem abs_signed (d : Decimal) : |d.signed| = d.coefficient := by
  unfold signed
  split <;> simp

/-- A coefficient is below the power of ten of its digits. -/
theorem coefficient_lt (d : Decimal) : d.coefficient < 10 ^ d.digits :=
  Nat.lt_pow_succ_log_self (by norm_num) _

/-- The magnitude of a value forgets the sign. -/
theorem abs_value (d : Decimal) : |d.value| = d.coefficient * (10 : ℚ) ^ d.exponent := by
  have hp : (0 : ℚ) < (10 : ℚ) ^ d.exponent := zpow_pos (by norm_num) _
  have hsigned : |(d.signed : ℚ)| = d.coefficient := by exact_mod_cast d.abs_signed
  rw [value, abs_mul, abs_of_pos hp, hsigned]

/-- Alignment to a smaller exponent keeps the value. -/
theorem scaled_mul_zpow (d : Decimal) {e : ℤ} (he : e ≤ d.exponent) :
    (d.scaled e : ℚ) * (10 : ℚ) ^ e = d.value := by
  have hexp : ((d.exponent - e).toNat : ℤ) = d.exponent - e := Int.toNat_of_nonneg (by omega)
  have hten : (10 : ℚ) ^ (d.exponent - e).toNat * (10 : ℚ) ^ e = (10 : ℚ) ^ d.exponent := by
    rw [← zpow_natCast, hexp, ← zpow_add₀ (by norm_num)]
    congr 1
    omega
  unfold scaled value
  push_cast
  rw [mul_assoc, hten]

/-- Order of values, as comparison operators see it. -/
instance : Preorder Decimal := Preorder.lift value

/-- Comparison is comparison of values. -/
theorem le_iff_value {a b : Decimal} : a ≤ b ↔ a.value ≤ b.value := Iff.rfl

/-- Strict comparison is strict comparison of values. -/
theorem lt_iff_value {a b : Decimal} : a < b ↔ a.value < b.value := Iff.rfl

/-- Values compare as the coefficients aligned to the smaller exponent. -/
theorem value_le_value_iff (a b : Decimal) :
    a.value ≤ b.value ↔
      a.scaled (min a.exponent b.exponent) ≤ b.scaled (min a.exponent b.exponent) := by
  have hpos : (0 : ℚ) < (10 : ℚ) ^ min a.exponent b.exponent := zpow_pos (by norm_num) _
  rw [← a.scaled_mul_zpow (min_le_left _ _), ← b.scaled_mul_zpow (min_le_right _ _),
    mul_le_mul_iff_left₀ hpos, Int.cast_le]

/-- The aligned integers decide comparison. -/
instance decidableLE : DecidableLE Decimal := fun a b =>
  decidable_of_iff _ (value_le_value_iff a b).symm

/-- Strict comparison is the negation of the reversed one. -/
instance decidableLT : DecidableLT Decimal := fun a b =>
  decidable_of_iff (¬ b ≤ a) (by rw [le_iff_value, lt_iff_value, not_le])

/-- Numerical equality, blind to the exponent and to the sign of zero. -/
def NumEq (a b : Decimal) : Prop := a.value = b.value

instance : DecidableRel NumEq := fun a b =>
  decidable_of_iff (a ≤ b ∧ b ≤ a) (by rw [NumEq, le_antisymm_iff]; rfl)

/-- The first of the smaller values, as a two-argument minimum keeps its first candidate. -/
def minimum (a b : Decimal) : Decimal := if b < a then b else a

/-- The first of the larger values. -/
def maximum (a b : Decimal) : Decimal := if a < b then b else a

/-- The minimum has the smaller value. -/
@[simp] theorem value_minimum (a b : Decimal) : (minimum a b).value = min a.value b.value := by
  unfold minimum
  split
  · exact (min_eq_right (le_of_lt (lt_iff_value.mp ‹_›))).symm
  · exact (min_eq_left (not_lt.mp (fun h => ‹¬ _› (lt_iff_value.mpr h)))).symm

/-- The maximum has the larger value. -/
@[simp] theorem value_maximum (a b : Decimal) : (maximum a b).value = max a.value b.value := by
  unfold maximum
  split
  · exact (max_eq_right (le_of_lt (lt_iff_value.mp ‹_›))).symm
  · exact (max_eq_left (not_lt.mp (fun h => ‹¬ _› (lt_iff_value.mpr h)))).symm

end Decimal

end DecimalArithmetic
