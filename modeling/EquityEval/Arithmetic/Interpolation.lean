import Mathlib.Algebra.Order.Floor.Ring
import Mathlib.Data.List.GetD
import Mathlib.Data.List.Pairwise
import Mathlib.Tactic.Linarith
import Mathlib.Tactic.Ring

/-!
# Linear interpolation in a sorted list

A position in a list lies between two entries, or on one of them. The interpolation at a position weighs
the two entries by their nearness. In a sorted list it does not decrease with the position, so quantiles
at increasing proportions are ordered and lie between the first and the last entry.
-/

namespace Interpolation

/-- Later entries of a sorted list are not smaller. -/
theorem getD_mono {α : Type*} [Preorder α] [Zero α] {values : List α} (hsorted : values.Pairwise (· ≤ ·)) {i j : ℕ} (hij : i ≤ j)
    (hj : j < values.length) : values.getD i 0 ≤ values.getD j 0 := by
  rcases hij.eq_or_lt with rfl | hlt
  · exact le_rfl
  · rw [List.getD_eq_getElem _ _ (hlt.trans hj), List.getD_eq_getElem _ _ hj]
    exact List.pairwise_iff_getElem.mp hsorted i j _ hj hlt

variable {K : Type*} [Field K] [LinearOrder K] [IsStrictOrderedRing K] [FloorRing K]

/-- The weighted mean of the two entries next to a position. -/
def interpolate (values : List K) (position : K) : K :=
  values.getD ⌊position⌋₊ 0 * (1 - Int.fract position) + values.getD (⌊position⌋₊ + 1) 0 * Int.fract position

variable {values : List K} {s t : K}

/-- The interpolation on an entry is the entry. -/
theorem interpolate_natCast (values : List K) (n : ℕ) : interpolate values n = values.getD n 0 := by
  simp [interpolate]

/-- An entry does not exceed the interpolation at a position at or after it. -/
theorem getD_floor_le (hsorted : values.Pairwise (· ≤ ·)) (h : ⌊t⌋₊ + 1 < values.length ∨ Int.fract t = 0) :
    values.getD ⌊t⌋₊ 0 ≤ interpolate values t := by
  rcases h with h | h
  · have hle := getD_mono hsorted (Nat.le_succ ⌊t⌋₊) h
    have hmul := mul_le_mul_of_nonneg_right hle (Int.fract_nonneg t)
    unfold interpolate
    linarith
  · simp [interpolate, h]

/-- The interpolation does not exceed the entry after its position. -/
theorem interpolate_le_getD (hsorted : values.Pairwise (· ≤ ·)) (h : ⌊t⌋₊ + 1 < values.length) :
    interpolate values t ≤ values.getD (⌊t⌋₊ + 1) 0 := by
  have hle := getD_mono hsorted (Nat.le_succ ⌊t⌋₊) h
  have hmul := mul_le_mul_of_nonneg_right hle (sub_nonneg.mpr (Int.fract_lt_one t).le)
  unfold interpolate
  linarith

/-- A position within a list lies before its last entry, or on it. -/
theorem floor_lt_or_fract (h : t ≤ (values.length : K) - 1) (hzero : 0 ≤ t) :
    ⌊t⌋₊ + 1 < values.length ∨ Int.fract t = 0 := by
  rcases h.eq_or_lt with rfl | hlt
  · right
    rw [show (values.length : K) - 1 = ((values.length - 1 : ℤ) : K) by push_cast; rfl, Int.fract_intCast]
  · left
    have hfloor : (⌊t⌋₊ : K) ≤ t := Nat.floor_le hzero
    have : ((⌊t⌋₊ + 1 : ℕ) : K) < values.length := by
      push_cast
      linarith
    exact_mod_cast this

/-- In a sorted list the interpolation does not decrease with the position. -/
theorem interpolate_mono (hsorted : values.Pairwise (· ≤ ·)) (hs : 0 ≤ s) (hst : s ≤ t) (ht : t ≤ (values.length : K) - 1) :
    interpolate values s ≤ interpolate values t := by
  have hend := floor_lt_or_fract ht (hs.trans hst)
  rcases (Nat.floor_mono hst).eq_or_lt with hfloor | hfloor
  -- between the same two entries the weight moves to the later one
  · rcases hend with hnext | hfract
    · have hle := getD_mono hsorted (Nat.le_succ ⌊t⌋₊) hnext
      have hfracts : Int.fract s ≤ Int.fract t := by
        have hs' := Int.floor_add_fract s
        have ht' := Int.floor_add_fract t
        have hint : ⌊s⌋ = ⌊t⌋ := by
          rw [← Int.natCast_floor_eq_floor hs, ← Int.natCast_floor_eq_floor (hs.trans hst), hfloor]
        rw [hint] at hs'
        linarith
      have hmul := mul_le_mul_of_nonneg_right hfracts (sub_nonneg.mpr hle)
      unfold interpolate
      rw [hfloor]
      linarith
    · have heq : s = t := by
        have hlow : ((⌊t⌋₊ : ℕ) : K) ≤ s := by
          rw [← hfloor]
          exact Nat.floor_le hs
        have htop := Int.floor_add_fract t
        rw [hfract, add_zero, ← Int.natCast_floor_eq_floor (hs.trans hst), Int.cast_natCast] at htop
        exact le_antisymm hst (htop ▸ hlow)
      rw [heq]
  -- otherwise an entry lies between the two positions
  · have hnext : ⌊t⌋₊ < values.length := by
      have hle : ((⌊t⌋₊ : ℕ) : K) ≤ (values.length : K) - 1 := (Nat.floor_le (hs.trans hst)).trans ht
      have : ((⌊t⌋₊ + 1 : ℕ) : K) ≤ values.length := by
        push_cast
        linarith
      exact_mod_cast this
    calc interpolate values s ≤ values.getD (⌊s⌋₊ + 1) 0 := interpolate_le_getD hsorted (by omega)
      _ ≤ values.getD ⌊t⌋₊ 0 := getD_mono hsorted hfloor hnext
      _ ≤ interpolate values t := getD_floor_le hsorted hend

end Interpolation
