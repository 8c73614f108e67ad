import EquityEval.Valuation.Agreement
import EquityEval.Arithmetic.Enclosure

/-!
# Outward-rounded bounds and dual numbers

`Bounds` rounds lower ends down and upper ends up; `Dual` carries bounds of a value and bounds
of its slopes. Each operation encloses the exact operation, so a program over dual numbers
encloses the exact function that the same program computes.
-/

namespace EquityEval.Valuation

open DecimalArithmetic IntervalCalculus Set

/-- The context with lower ends rounded down. -/
def floorContext : Context := { context with rounding := .floor }

/-- The context with upper ends rounded up. -/
def ceilingContext : Context := { context with rounding := .ceiling }

/-- Raise a decimal signal as an error of the interval arithmetic. -/
def raising {α : Type} (x : Except DecimalException α) : Except NumericError α := x.mapError .decimal

/-- A raising operation returns what the decimal operation returns. -/
@[simp] theorem raising_eq_ok {α : Type} {x : Except DecimalException α} {a : α} :
    raising x = .ok a ↔ x = .ok a := mapError_eq_ok

/-- Outward-rounded interval endpoints. -/
structure Bounds where
  lo : Decimal
  hi : Decimal
deriving DecidableEq, Repr

namespace Bounds

/-- The bounds of a single number. -/
def point (value : Decimal) : Bounds := ⟨value, value⟩

/-- The validated interval with these endpoints. -/
def toInterval (b : Bounds) : Except Raised Interval :=
  if h : b.lo ≤ b.hi then .ok ⟨b.lo, b.hi, h⟩ else .error (.valueError "Unordered interval")

/-- Outward-rounded sum. -/
def add (a b : Bounds) : Except NumericError Bounds := do
  let lo ← raising (floorContext.add a.lo b.lo)
  let hi ← raising (ceilingContext.add a.hi b.hi)
  pure ⟨lo, hi⟩

/-- Negation exchanges the endpoints. -/
def neg (a : Bounds) : Bounds := ⟨a.hi.copyNegate, a.lo.copyNegate⟩

/-- Outward-rounded difference. -/
def sub (a b : Bounds) : Except NumericError Bounds := a.add b.neg

/-- The picked one of an operation's results at the four pairs of endpoints. -/
def corners (op : Decimal → Decimal → Except DecimalException Decimal) (pick : Decimal → Decimal → Decimal)
    (a b : Bounds) : Except NumericError Decimal := do
  let p ← raising (op a.lo b.lo)
  let q ← raising (op a.lo b.hi)
  let r ← raising (op a.hi b.lo)
  let s ← raising (op a.hi b.hi)
  pure (pick (pick (pick p q) r) s)

/-- Outward-rounded product. -/
def mul (a b : Bounds) : Except NumericError Bounds := do
  let lo ← corners floorContext.mul Decimal.minimum a b
  let hi ← corners ceilingContext.mul Decimal.maximum a b
  pure ⟨lo, hi⟩

/-- Outward-rounded quotient by bounds that do not contain zero. -/
def div (a b : Bounds) : Except NumericError Bounds :=
  if b.lo ≤ .ofInt 0 ∧ .ofInt 0 ≤ b.hi then .error .denominatorCrossesZero
  else do
    let lo ← corners floorContext.div Decimal.minimum a b
    let hi ← corners ceilingContext.div Decimal.maximum a b
    pure ⟨lo, hi⟩

/-- Repeated product. -/
def power (a : Bounds) : ℕ → Except NumericError Bounds
  | 0 => pure (point (.ofInt 1))
  | exponent + 1 => do (← a.power exponent).mul a

/-- The certified sign, zero when the bounds contain zero. -/
def sign (b : Bounds) : ℤ := if .ofInt 0 < b.lo then 1 else if b.hi < .ofInt 0 then -1 else 0

/-- The real numbers between the endpoints. -/
def set (b : Bounds) : Set ℝ := Icc (b.lo.value : ℝ) (b.hi.value : ℝ)

/-- A point contains its value. -/
theorem mem_point (d : Decimal) : (d.value : ℝ) ∈ (point d).set := ⟨le_rfl, le_rfl⟩

/-- The point at zero contains zero. -/
theorem zero_mem_point : (0 : ℝ) ∈ (point (.ofInt 0)).set := by simpa using mem_point (.ofInt 0)

/-- Sums stay in the sum of bounds. -/
theorem add_mem {a b r : Bounds} (h : a.add b = .ok r) {x y : ℝ} (hx : x ∈ a.set) (hy : y ∈ b.set) :
    x + y ∈ r.set := by
  unfold add at h
  obtain ⟨lo, hlo, h⟩ := exists_of_bind_eq_ok h
  obtain ⟨hi, hhi, h⟩ := exists_of_bind_eq_ok h
  cases h
  have hlo := (Context.add_rounds (by decide) (raising_eq_ok.mp hlo)).floor rfl
  have hhi := (Context.add_rounds (by decide) (raising_eq_ok.mp hhi)).ceiling rfl
  constructor
  · calc (lo.value : ℝ) ≤ a.lo.value + b.lo.value := by exact_mod_cast hlo
      _ ≤ x + y := add_le_add hx.1 hy.1
  · calc x + y ≤ a.hi.value + b.hi.value := add_le_add hx.2 hy.2
      _ ≤ hi.value := by exact_mod_cast hhi

/-- Negatives stay in the negated bounds. -/
theorem neg_mem {a : Bounds} {x : ℝ} (hx : x ∈ a.set) : -x ∈ a.neg.set := by
  constructor
  · simpa [neg] using hx.2
  · simpa [neg] using hx.1

/-- Differences stay in the difference of bounds. -/
theorem sub_mem {a b r : Bounds} (h : a.sub b = .ok r) {x y : ℝ} (hx : x ∈ a.set) (hy : y ∈ b.set) :
    x - y ∈ r.set := by
  rw [sub_eq_add_neg]
  exact add_mem h hx (neg_mem hy)

/-- The least of four rounded-down results is below the exact results at all corners. -/
theorem corners_floor {op : Decimal → Decimal → Except DecimalException Decimal} (exactOp : ℚ → ℚ → ℚ)
    (hop : ∀ a b r, op a b = .ok r → r.value ≤ exactOp a.value b.value) {a b : Bounds} {lo : Decimal}
    (h : corners op Decimal.minimum a b = .ok lo) :
    lo.value ≤ exactOp a.lo.value b.lo.value ∧ lo.value ≤ exactOp a.lo.value b.hi.value ∧
      lo.value ≤ exactOp a.hi.value b.lo.value ∧ lo.value ≤ exactOp a.hi.value b.hi.value := by
  unfold corners at h
  obtain ⟨p, hp, h⟩ := exists_of_bind_eq_ok h
  obtain ⟨q, hq, h⟩ := exists_of_bind_eq_ok h
  obtain ⟨r, hr, h⟩ := exists_of_bind_eq_ok h
  obtain ⟨s, hs, h⟩ := exists_of_bind_eq_ok h
  cases h
  have hp := hop _ _ _ (raising_eq_ok.mp hp)
  have hq := hop _ _ _ (raising_eq_ok.mp hq)
  have hr := hop _ _ _ (raising_eq_ok.mp hr)
  have hs := hop _ _ _ (raising_eq_ok.mp hs)
  simp only [Decimal.value_minimum]
  refine ⟨le_trans ?_ hp, le_trans ?_ hq, le_trans ?_ hr, le_trans ?_ hs⟩ <;> simp

/-- The greatest of four rounded-up results is above the exact results at all corners. -/
theorem corners_ceiling {op : Decimal → Decimal → Except DecimalException Decimal} (exactOp : ℚ → ℚ → ℚ)
    (hop : ∀ a b r, op a b = .ok r → exactOp a.value b.value ≤ r.value) {a b : Bounds} {hi : Decimal}
    (h : corners op Decimal.maximum a b = .ok hi) :
    exactOp a.lo.value b.lo.value ≤ hi.value ∧ exactOp a.lo.value b.hi.value ≤ hi.value ∧
      exactOp a.hi.value b.lo.value ≤ hi.value ∧ exactOp a.hi.value b.hi.value ≤ hi.value := by
  unfold corners at h
  obtain ⟨p, hp, h⟩ := exists_of_bind_eq_ok h
  obtain ⟨q, hq, h⟩ := exists_of_bind_eq_ok h
  obtain ⟨r, hr, h⟩ := exists_of_bind_eq_ok h
  obtain ⟨s, hs, h⟩ := exists_of_bind_eq_ok h
  cases h
  have hp := hop _ _ _ (raising_eq_ok.mp hp)
  have hq := hop _ _ _ (raising_eq_ok.mp hq)
  have hr := hop _ _ _ (raising_eq_ok.mp hr)
  have hs := hop _ _ _ (raising_eq_ok.mp hs)
  simp only [Decimal.value_maximum]
  refine ⟨hp.trans ?_, hq.trans ?_, hr.trans ?_, hs.trans ?_⟩ <;> simp

/-- Products stay in the product of bounds. -/
theorem mul_mem {a b r : Bounds} (h : a.mul b = .ok r) {x y : ℝ} (hx : x ∈ a.set) (hy : y ∈ b.set) :
    x * y ∈ r.set := by
  unfold mul at h
  obtain ⟨lo, hlo, h⟩ := exists_of_bind_eq_ok h
  obtain ⟨hi, hhi, h⟩ := exists_of_bind_eq_ok h
  cases h
  obtain ⟨h1, h2, h3, h4⟩ := corners_floor (· * ·)
    (fun _ _ _ hr => (Context.mul_rounds (by decide) hr).floor rfl) hlo
  obtain ⟨h5, h6, h7, h8⟩ := corners_ceiling (· * ·)
    (fun _ _ _ hr => (Context.mul_rounds (by decide) hr).ceiling rfl) hhi
  constructor
  · apply le_mul_of_corners hx hy <;> assumption_mod_cast
  · apply mul_le_of_corners hx hy <;> assumption_mod_cast

/-- Divisors that passed the test lie on one side of zero. -/
theorem div_side {a b r : Bounds} (h : a.div b = .ok r) :
    (0 : ℝ) < b.lo.value ∨ (b.hi.value : ℝ) < 0 := by
  unfold div at h
  split at h
  · cases h
  · rename_i hne
    rw [Decimal.le_iff_value, Decimal.le_iff_value] at hne
    simp only [Decimal.value_ofInt, Int.cast_zero, not_and_or, not_le] at hne
    exact hne.imp (fun h => by exact_mod_cast h) fun h => by exact_mod_cast h

/-- Quotients stay in the quotient of bounds. -/
theorem div_mem {a b r : Bounds} (h : a.div b = .ok r) {x y : ℝ} (hx : x ∈ a.set) (hy : y ∈ b.set) :
    x / y ∈ r.set := by
  have hinv := inv_mem_Icc hy (div_side h)
  unfold div at h
  split at h
  · cases h
  obtain ⟨lo, hlo, h⟩ := exists_of_bind_eq_ok h
  obtain ⟨hi, hhi, h⟩ := exists_of_bind_eq_ok h
  cases h
  obtain ⟨h1, h2, h3, h4⟩ := corners_floor (fun u v => u * v⁻¹)
    (fun _ _ _ hr => by
      simpa only [div_eq_mul_inv] using (Context.div_rounds (by decide) hr).floor rfl) hlo
  obtain ⟨h5, h6, h7, h8⟩ := corners_ceiling (fun u v => u * v⁻¹)
    (fun _ _ _ hr => by
      simpa only [div_eq_mul_inv] using (Context.div_rounds (by decide) hr).ceiling rfl) hhi
  rw [div_eq_mul_inv]
  constructor
  · apply le_mul_of_corners hx hinv <;> assumption_mod_cast
  · apply mul_le_of_corners hx hinv <;> assumption_mod_cast

/-- The square of bounds contains products of two of its members. -/
theorem mul_mem_power_two {a r : Bounds} (h : a.power 2 = .ok r) {x y : ℝ} (hx : x ∈ a.set)
    (hy : y ∈ a.set) : x * y ∈ r.set := by
  simp only [power, pure_bind] at h
  obtain ⟨p, hp, h⟩ := exists_of_bind_eq_ok h
  have hxp := mul_mem hp (mem_point (.ofInt 1)) hx
  rw [value_one, one_mul] at hxp
  exact mul_mem h hxp hy

/-- A positive certified sign is the sign of every member. -/
theorem sign_eq_one {b : Bounds} (h : b.sign = 1) {x : ℝ} (hx : x ∈ b.set) : 0 < x := by
  unfold sign at h
  split at h
  · rename_i hlo
    rw [Decimal.lt_iff_value] at hlo
    exact lt_of_lt_of_le (by simpa using hlo) hx.1
  · split at h <;> simp at h

/-- A negative certified sign is the sign of every member. -/
theorem sign_eq_neg_one {b : Bounds} (h : b.sign = -1) {x : ℝ} (hx : x ∈ b.set) : x < 0 := by
  unfold sign at h
  split at h
  · simp at h
  · split at h
    · rename_i hhi
      rw [Decimal.lt_iff_value] at hhi
      exact lt_of_le_of_lt hx.2 (by simpa using hhi)
    · simp at h

/-- A certified sign is one, minus one or absent. -/
theorem sign_cases (b : Bounds) : b.sign = 1 ∨ b.sign = -1 ∨ b.sign = 0 := by
  unfold sign
  split
  · exact Or.inl rfl
  · split
    · exact Or.inr (Or.inl rfl)
    · exact Or.inr (Or.inr rfl)

end Bounds

end EquityEval.Valuation
