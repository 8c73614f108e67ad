import EquityEval.Arithmetic.Decimal

/-!
# Rounding a fraction to an integer

Every rounding mode returns one of the two integers next to a fraction, so no mode crosses
an integer. The directed modes stay on their side of the fraction. The leading decimal
exponent of a fraction decides at which power of ten a result is rounded.
-/

namespace DecimalArithmetic

/-- The rounding modes in use. -/
inductive Rounding where
  | floor
  | ceiling
  | halfEven
deriving DecidableEq, Repr

/-- Round the magnitude `num / den` to a neighbouring integer. -/
def Rounding.quotient (rounding : Rounding) (negative : Bool) (num den : ℕ) : ℕ :=
  match rounding with
  | .floor => if negative ∧ num % den ≠ 0 then num / den + 1 else num / den
  | .ceiling => if ¬ negative ∧ num % den ≠ 0 then num / den + 1 else num / den
  | .halfEven =>
    if den < 2 * (num % den) ∨ (2 * (num % den) = den ∧ num / den % 2 = 1) then num / den + 1
    else num / den

/-- Every mode returns one of the two neighbouring integers. -/
theorem Rounding.quotient_cases (rounding : Rounding) (negative : Bool) (num den : ℕ) :
    rounding.quotient negative num den = num / den ∨
      (rounding.quotient negative num den = num / den + 1 ∧ num % den ≠ 0) := by
  cases rounding <;> simp only [quotient] <;> split <;> rename_i h
  · exact Or.inr ⟨rfl, h.2⟩
  · exact Or.inl rfl
  · exact Or.inr ⟨rfl, h.2⟩
  · exact Or.inl rfl
  · refine Or.inr ⟨rfl, fun hzero => ?_⟩
    rw [hzero] at h
    rcases h with h | ⟨h, hodd⟩
    · omega
    · subst h
      simp at hodd
  · exact Or.inl rfl

/-- An exact quotient is returned unchanged. -/
theorem Rounding.quotient_exact (rounding : Rounding) (negative : Bool) {num den : ℕ}
    (h : num % den = 0) : rounding.quotient negative num den = num / den := by
  rcases rounding.quotient_cases negative num den with hq | ⟨_, hne⟩
  · exact hq
  · exact absurd h hne

/-- Rounding never crosses an integer from above. -/
theorem Rounding.le_quotient (rounding : Rounding) (negative : Bool) {num den k : ℕ}
    (hden : 0 < den) (h : k * den ≤ num) : k ≤ rounding.quotient negative num den := by
  have hk : k ≤ num / den := (Nat.le_div_iff_mul_le hden).mpr h
  rcases rounding.quotient_cases negative num den with hq | ⟨hq, _⟩ <;> omega

/-- Rounding never crosses an integer from below. -/
theorem Rounding.quotient_le (rounding : Rounding) (negative : Bool) {num den k : ℕ}
    (hden : 0 < den) (h : num ≤ k * den) : rounding.quotient negative num den ≤ k := by
  have hsplit := Nat.div_add_mod num den
  have hk : num / den ≤ k := by
    rw [Nat.div_le_iff_le_mul hden]
    omega
  rcases rounding.quotient_cases negative num den with hq | ⟨hq, hne⟩
  · omega
  · have : num / den ≠ k := by
      rintro rfl
      rw [mul_comm] at hsplit
      omega
    omega

/-- Rounding toward zero does not exceed the exact magnitude. -/
theorem Rounding.quotient_mul_le {rounding : Rounding} {negative : Bool} {num den : ℕ}
    (hmode : rounding = .floor ∧ negative = false ∨ rounding = .ceiling ∧ negative = true) :
    rounding.quotient negative num den * den ≤ num := by
  rcases hmode with ⟨rfl, rfl⟩ | ⟨rfl, rfl⟩ <;> simpa [quotient] using Nat.div_mul_le_self num den

/-- Rounding away from zero is not below the exact magnitude. -/
theorem Rounding.le_quotient_mul {rounding : Rounding} {negative : Bool} {num den : ℕ} (hden : 0 < den)
    (hmode : rounding = .floor ∧ negative = true ∨ rounding = .ceiling ∧ negative = false) :
    num ≤ rounding.quotient negative num den * den := by
  have hsplit := Nat.div_add_mod num den
  have hlt := Nat.mod_lt num hden
  rcases hmode with ⟨rfl, rfl⟩ | ⟨rfl, rfl⟩ <;> simp only [quotient] <;> split <;>
    rename_i h <;> simp only [Bool.false_eq_true, not_false_eq_true, true_and, ne_eq, not_not] at h <;>
    first | (rw [add_mul, one_mul, mul_comm]; omega) | (rw [mul_comm]; omega)

/-- The decimal exponent of the leading digit of the fraction `num / den`. -/
def magnitude (num den : ℕ) : ℤ :=
  let shift : ℤ := (Nat.log 10 num : ℤ) - Nat.log 10 den
  if den * 10 ^ shift.toNat ≤ num * 10 ^ (-shift).toNat then shift else shift - 1

/-- A ratio of powers of ten, cleared of its negative exponent. -/
theorem zpow_eq_div_pow (s : ℤ) :
    (10 : ℚ) ^ s = (10 : ℚ) ^ s.toNat / (10 : ℚ) ^ (-s).toNat := by
  rw [← zpow_natCast, ← zpow_natCast, ← zpow_sub₀ (by norm_num)]
  congr 1
  omega

/-- The shift test of `magnitude` compares the fraction with a power of ten. -/
theorem shift_le_iff {num den : ℕ} (hden : 0 < den) (s : ℤ) :
    den * 10 ^ s.toNat ≤ num * 10 ^ (-s).toNat ↔ (10 : ℚ) ^ s ≤ num / den := by
  have hd : (0 : ℚ) < den := by exact_mod_cast hden
  have hp : (0 : ℚ) < (10 : ℚ) ^ (-s).toNat := by positivity
  rw [zpow_eq_div_pow, div_le_div_iff₀ hp hd, mul_comm ((10 : ℚ) ^ s.toNat)]
  exact_mod_cast Iff.rfl

/-- The leading exponent brackets the fraction between consecutive powers of ten. -/
theorem magnitude_bounds {num den : ℕ} (hnum : 0 < num) (hden : 0 < den) :
    (10 : ℚ) ^ magnitude num den ≤ num / den ∧
      (num : ℚ) / den < (10 : ℚ) ^ (magnitude num den + 1) := by
  have hn : (0 : ℚ) < num := by exact_mod_cast hnum
  have hd : (0 : ℚ) < den := by exact_mod_cast hden
  have hnlo : (10 : ℚ) ^ Nat.log 10 num ≤ num := by exact_mod_cast Nat.pow_log_le_self 10 hnum.ne'
  have hnhi : (num : ℚ) < 10 ^ (Nat.log 10 num + 1) := by
    exact_mod_cast Nat.lt_pow_succ_log_self (by norm_num) num
  have hdlo : (10 : ℚ) ^ Nat.log 10 den ≤ den := by exact_mod_cast Nat.pow_log_le_self 10 hden.ne'
  have hdhi : (den : ℚ) < 10 ^ (Nat.log 10 den + 1) := by
    exact_mod_cast Nat.lt_pow_succ_log_self (by norm_num) den
  -- the quotient of the two leading powers is off by less than one digit on either side
  have hupper : (num : ℚ) / den < (10 : ℚ) ^ ((Nat.log 10 num : ℤ) - Nat.log 10 den + 1) := by
    rw [div_lt_iff₀ hd, show (Nat.log 10 num : ℤ) - Nat.log 10 den + 1 =
      ((Nat.log 10 num + 1 : ℕ) : ℤ) - (Nat.log 10 den : ℕ) by push_cast; ring,
      zpow_sub₀ (by norm_num), zpow_natCast, zpow_natCast, div_mul_eq_mul_div,
      lt_div_iff₀ (by positivity)]
    exact mul_lt_mul hnhi hdlo (by positivity) (by positivity)
  have hlower : (10 : ℚ) ^ ((Nat.log 10 num : ℤ) - Nat.log 10 den - 1) ≤ num / den := by
    rw [le_div_iff₀ hd, show (Nat.log 10 num : ℤ) - Nat.log 10 den - 1 =
      ((Nat.log 10 num : ℕ) : ℤ) - (Nat.log 10 den + 1 : ℕ) by push_cast; ring,
      zpow_sub₀ (by norm_num), zpow_natCast, zpow_natCast, div_mul_eq_mul_div,
      div_le_iff₀ (by positivity)]
    exact mul_le_mul hnlo hdhi.le (by positivity) (by positivity)
  unfold magnitude
  dsimp only
  split <;> rename_i hshift <;> rw [shift_le_iff hden] at hshift
  · exact ⟨hshift, hupper⟩
  · exact ⟨hlower, by rw [sub_add_cancel]; exact not_le.mp hshift⟩

end DecimalArithmetic
