import EquityEval.Arithmetic.Exact
import EquityEval.Arithmetic.NumberSystem
import Mathlib.Data.List.Forall2

/-!
# Arithmetic reads values only

Rounding reads the value of an exact result, and comparison reads values. So operations on numerically equal decimals raise
the same exception or return numerically equal decimals, whichever representations they are given.
-/

namespace DecimalArithmetic

/-- Computations that raise the same error or return related results. -/
def MonadRelation.exceptExcept (ε : Type) : MonadRelation (Except ε) (Except ε) where
  Rel R x y := (∃ a b, x = .ok a ∧ y = .ok b ∧ R a b) ∨ ∃ e, x = .error e ∧ y = .error e
  pure h := .inl ⟨_, _, rfl, rfl, h⟩
  bind := by
    rintro α β γ δ R S x y f g (⟨a, b, rfl, rfl, hab⟩ | ⟨e, rfl, rfl⟩) hf
    · exact hf a b hab
    · exact .inr ⟨e, rfl, rfl⟩

/-- The computations raise the same error or return related results. -/
abbrev Alike {ε α β : Type} (R : α → β → Prop) (x : Except ε α) (y : Except ε β) : Prop :=
  (MonadRelation.exceptExcept ε).Rel R x y

namespace Alike

variable {ε ε' α β : Type} {R S : α → β → Prop} {x : Except ε α} {y : Except ε β} {a : α} {b : β}

/-- Related results are alike. -/
theorem ok (h : R a b) : Alike R (.ok a : Except ε α) (.ok b) := .inl ⟨a, b, rfl, rfl, h⟩

/-- A computation that is alike to one that returns does so, too. -/
theorem exists_of_ok (h : Alike R x y) (hx : x = .ok a) : ∃ b, y = .ok b ∧ R a b := by
  rcases h with ⟨a', b, rfl, rfl, hab⟩ | ⟨e, rfl, rfl⟩
  · cases hx
    exact ⟨b, rfl, hab⟩
  · cases hx

/-- A computation returns where one that it is alike to does. -/
theorem exists_of_ok_right (h : Alike R x y) (hy : y = .ok b) : ∃ a, x = .ok a ∧ R a b := by
  rcases h with ⟨a, b', rfl, rfl, hab⟩ | ⟨e, rfl, rfl⟩
  · cases hy
    exact ⟨a, rfl, hab⟩
  · cases hy

/-- Renamed errors are alike. -/
theorem mapError (h : Alike R x y) (f : ε → ε') : Alike R (x.mapError f) (y.mapError f) := by
  rcases h with ⟨a, b, rfl, rfl, hab⟩ | ⟨e, rfl, rfl⟩
  · exact ok hab
  · exact .inr ⟨f e, rfl, rfl⟩

/-- What is alike in one way is so in a wider one. -/
theorem imp (h : Alike R x y) (hRS : ∀ a b, R a b → S a b) : Alike S x y := by
  rcases h with ⟨a, b, rfl, rfl, hab⟩ | ⟨e, rfl, rfl⟩
  · exact ok (hRS a b hab)
  · exact .inr ⟨e, rfl, rfl⟩

/-- A computation is alike to itself. -/
theorem refl {R : α → α → Prop} (hR : ∀ a, R a a) (x : Except ε α) : Alike R x x := by
  cases x with
  | ok a => exact ok (hR a)
  | error e => exact .inr ⟨e, rfl, rfl⟩

/-- Lists are traversed alike where every entry is. -/
theorem mapM {γ : Type} {f : γ → Except ε α} {g : γ → Except ε β} {l : List γ} (h : ∀ c ∈ l, Alike R (f c) (g c)) :
    Alike (List.Forall₂ R) (l.mapM f) (l.mapM g) := by
  let M := MonadRelation.exceptExcept ε
  induction l with
  | nil => exact ok .nil
  | cons c rest ih =>
    rw [List.mapM_cons, List.mapM_cons]
    refine M.bind (h c List.mem_cons_self) fun _ _ hc => ?_
    refine M.bind (ih fun d hd => h d (List.mem_cons_of_mem _ hd)) fun _ _ hrest => ?_
    exact ok (.cons hc hrest)

end Alike

/-- Every entry of a traversed list is the result of one of the list. -/
theorem exists_of_mem_mapM {ε α γ : Type} {f : γ → Except ε α} {l : List γ} {out : List α} (h : l.mapM f = .ok out) {a : α}
    (ha : a ∈ out) : ∃ c ∈ l, f c = .ok a := by
  induction l generalizing out with
  | nil =>
    cases h
    cases ha
  | cons c rest ih =>
    rw [List.mapM_cons] at h
    obtain ⟨b, hb, h⟩ := exists_of_bind_eq_ok h
    obtain ⟨bs, hbs, h⟩ := exists_of_bind_eq_ok h
    cases h
    rcases List.mem_cons.mp ha with rfl | ha
    · exact ⟨c, List.mem_cons_self, hb⟩
    · obtain ⟨d, hd, hda⟩ := ih hbs ha
      exact ⟨d, List.mem_cons_of_mem _ hd, hda⟩

/-! ### Rounding -/

/-- A fraction is rounded alike when it is expanded. -/
theorem Rounding.quotient_mul_left (rounding : Rounding) (negative : Bool) (num den : ℕ) {k : ℕ} (hk : 0 < k) :
    rounding.quotient negative (k * num) (k * den) = rounding.quotient negative num den := by
  have hdiv : k * num / (k * den) = num / den := Nat.mul_div_mul_left num den hk
  have hmod : k * num % (k * den) = k * (num % den) := Nat.mul_mod_mul_left k num den
  have hzero : k * (num % den) ≠ 0 ↔ num % den ≠ 0 := by simp [hk.ne']
  have hhalf : k * den < 2 * (k * (num % den)) ↔ den < 2 * (num % den) := by
    rw [mul_left_comm, Nat.mul_lt_mul_left hk]
  have htie : 2 * (k * (num % den)) = k * den ↔ 2 * (num % den) = den := by
    rw [mul_left_comm, Nat.mul_right_inj hk.ne']
  cases rounding <;> simp only [quotient, hdiv, hmod, hzero, hhalf, htie]

section

variable {num num' den den' : ℕ}

/-- Equal fractions are rounded alike. -/
theorem Rounding.quotient_congr (rounding : Rounding) (negative : Bool) (hden : 0 < den) (hden' : 0 < den')
    (h : num * den' = num' * den) : rounding.quotient negative num den = rounding.quotient negative num' den' := by
  rw [← rounding.quotient_mul_left negative num den hden', ← rounding.quotient_mul_left negative num' den' hden,
    mul_comm den' num, h, mul_comm num' den, mul_comm den' den]

/-- Equal fractions are whole together. -/
theorem mod_eq_zero_congr (hden : 0 < den) (hden' : 0 < den') (h : num * den' = num' * den) :
    num % den = 0 ↔ num' % den' = 0 := by
  have hleft : den' * num % (den' * den) = den' * (num % den) := Nat.mul_mod_mul_left den' num den
  have hright : den * num' % (den * den') = den * (num' % den') := Nat.mul_mod_mul_left den num' den'
  rw [mul_comm den' num, h, mul_comm num' den, mul_comm den' den, hright] at hleft
  constructor <;> intro hzero <;> rw [hzero, mul_zero] at hleft
  · exact (mul_eq_zero.mp hleft).resolve_left hden.ne'
  · exact (mul_eq_zero.mp hleft.symm).resolve_left hden'.ne'

end

namespace Context

/-- A signed magnitude determines the magnitude, and the sign where it is not zero. -/
theorem signed_magnitude {negative negative' : Bool} {q q' : ℚ} (hq : 0 ≤ q) (hq' : 0 ≤ q')
    (h : signFactor negative * q = signFactor negative' * q') : q = q' ∧ (q ≠ 0 → negative = negative') := by
  cases negative <;> cases negative' <;> simp only [signFactor, if_true, Bool.false_eq_true, if_false, one_mul, neg_mul, neg_inj] at h
  · exact ⟨h, fun _ => rfl⟩
  · exact ⟨by linarith, fun hne => absurd (by linarith) hne⟩
  · exact ⟨by linarith, fun hne => absurd (by linarith) hne⟩
  · exact ⟨h, fun _ => rfl⟩

/-- Exact results of one value are fitted alike. -/
theorem finish_congr (ctx : Context) {negative negative' : Bool} {num num' den den' : ℕ} {exponent exponent' : ℤ}
    (hden : 0 < den) (hden' : 0 < den')
    (h : signFactor negative * ((num : ℚ) / den * (10 : ℚ) ^ exponent) =
      signFactor negative' * ((num' : ℚ) / den' * (10 : ℚ) ^ exponent')) :
    Alike Decimal.NumEq (ctx.finish negative num den exponent) (ctx.finish negative' num' den' exponent') := by
  have hten : ∀ e : ℤ, (0 : ℚ) < (10 : ℚ) ^ e := fun e => zpow_pos (by norm_num) e
  have hd : (0 : ℚ) < den := by exact_mod_cast hden
  have hd' : (0 : ℚ) < den' := by exact_mod_cast hden'
  obtain ⟨hfraction, hsign⟩ := signed_magnitude (by positivity) (by positivity) h
  by_cases hnum : num = 0
  · have hnum' : num' = 0 := by
      rw [hnum, Nat.cast_zero, zero_div, zero_mul] at hfraction
      have hzero := (mul_eq_zero.mp hfraction.symm).resolve_right (hten exponent').ne'
      exact_mod_cast (div_eq_zero_iff.mp hzero).resolve_right hd'.ne'
    simp only [finish, hnum, hnum', if_true]
    exact Alike.ok (by simp [Decimal.NumEq, Decimal.value, Decimal.signed])
  have hpos : (0 : ℚ) < num := by exact_mod_cast Nat.pos_of_ne_zero hnum
  have hquotient : (0 : ℚ) < num / den * (10 : ℚ) ^ exponent := by positivity
  have hnum' : num' ≠ 0 := by
    rintro rfl
    rw [hfraction] at hquotient
    simp at hquotient
  obtain rfl := hsign hquotient.ne'
  -- the leading digits are at one place, and so is the last one that is kept
  obtain ⟨hlow, hhigh⟩ := fraction_bounds (Nat.pos_of_ne_zero hnum) hden exponent
  obtain ⟨hlow', hhigh'⟩ := fraction_bounds (Nat.pos_of_ne_zero hnum') hden' exponent'
  have hone : (1 : ℚ) < 10 := by norm_num
  have hlead : magnitude num den + exponent = magnitude num' den' + exponent' := by
    have hlt := (zpow_lt_zpow_iff_right₀ hone).mp ((hfraction ▸ hlow).trans_lt hhigh')
    have hlt' := (zpow_lt_zpow_iff_right₀ hone).mp ((hfraction ▸ hlow').trans_lt hhigh)
    omega
  have he : ctx.roundingExponent num den exponent = ctx.roundingExponent num' den' exponent' := by
    rw [roundingExponent, roundingExponent, hlead]
  unfold finish
  rw [if_neg hnum, if_neg hnum', hlead]
  split
  · exact .inr ⟨_, rfl, rfl⟩
  · dsimp only
    rw [he]
    set e := ctx.roundingExponent num' den' exponent'
    have hn : 0 < den * 10 ^ (e - exponent).toNat := aligned_pos hden _
    have hn' : 0 < den' * 10 ^ (e - exponent').toNat := aligned_pos hden' _
    have hcross : num * 10 ^ (exponent - e).toNat * (den' * 10 ^ (e - exponent').toNat) =
        num' * 10 ^ (exponent' - e).toNat * (den * 10 ^ (e - exponent).toNat) := by
      have heq := (aligned_fraction num den exponent e).trans (hfraction.trans (aligned_fraction num' den' exponent' e).symm)
      have heq := mul_right_cancel₀ (hten e).ne' heq
      rw [div_eq_div_iff (by exact_mod_cast hn.ne') (by exact_mod_cast hn'.ne')] at heq
      exact_mod_cast heq
    rw [ctx.rounding.quotient_congr negative hn hn' hcross]
    by_cases hwhole : num * 10 ^ (exponent - e).toNat % (den * 10 ^ (e - exponent).toNat) = 0
    · rw [if_pos hwhole, if_pos ((mod_eq_zero_congr hn hn' hcross).mp hwhole)]
      exact Alike.ok (by rw [Decimal.NumEq, value_strip, value_strip])
    · rw [if_neg hwhole, if_neg (mt (mod_eq_zero_congr hn hn' hcross).mpr hwhole)]
      exact Alike.refl (R := Decimal.NumEq) (fun _ => rfl) _

/-! ### Operations -/

variable {ctx : Context} {a a' b b' : Decimal}

/-- Sums read values only. -/
theorem add_congr (ctx : Context) (ha : a.NumEq a') (hb : b.NumEq b') :
    Alike Decimal.NumEq (ctx.add a b) (ctx.add a' b') :=
  finish_congr ctx Nat.one_pos Nat.one_pos (by rw [← add_exact, ← add_exact, ha, hb])

/-- Differences read values only. -/
theorem sub_congr (ctx : Context) (ha : a.NumEq a') (hb : b.NumEq b') :
    Alike Decimal.NumEq (ctx.sub a b) (ctx.sub a' b') :=
  add_congr ctx ha (by rw [Decimal.NumEq, Decimal.value_copyNegate, Decimal.value_copyNegate, hb])

/-- Products read values only. -/
theorem mul_congr (ctx : Context) (ha : a.NumEq a') (hb : b.NumEq b') :
    Alike Decimal.NumEq (ctx.mul a b) (ctx.mul a' b') :=
  finish_congr ctx Nat.one_pos Nat.one_pos (by rw [← mul_exact, ← mul_exact, ha, hb])

/-- Numerically equal decimals vanish together. -/
theorem coefficient_eq_zero_congr (h : a.NumEq a') : a.coefficient = 0 ↔ a'.coefficient = 0 := by
  have hzero : ∀ d : Decimal, d.coefficient = 0 ↔ d.value = 0 := by
    intro d
    rw [← abs_eq_zero, d.abs_value, mul_eq_zero, or_iff_left (zpow_ne_zero _ (by norm_num)), Nat.cast_eq_zero]
  rw [hzero, hzero, h]

/-- Quotients read values only. -/
theorem div_congr (ctx : Context) (ha : a.NumEq a') (hb : b.NumEq b') :
    Alike Decimal.NumEq (ctx.div a b) (ctx.div a' b') := by
  unfold div
  by_cases hzero : b.coefficient = 0
  · rw [if_pos hzero, if_pos ((coefficient_eq_zero_congr hb).mp hzero)]
    exact .inr ⟨_, rfl, by simp only [coefficient_eq_zero_congr ha]⟩
  · have hzero' := mt (coefficient_eq_zero_congr hb).mpr hzero
    rw [if_neg hzero, if_neg hzero']
    exact finish_congr ctx (Nat.pos_of_ne_zero hzero) (Nat.pos_of_ne_zero hzero') (by rw [← div_exact, ← div_exact, ha, hb])

/-- Absolute values read values only. -/
theorem abs_congr (ctx : Context) (ha : a.NumEq a') : Alike Decimal.NumEq (ctx.abs a) (ctx.abs a') :=
  finish_congr ctx Nat.one_pos Nat.one_pos (by rw [← abs_exact, ← abs_exact, ha])

/-! ### Digits -/

/-- Dropping trailing zeros makes no coefficient longer. -/
theorem coefficient_strip_le (fuel : ℕ) (d : Decimal) : (strip fuel d).coefficient ≤ d.coefficient := by
  induction fuel generalizing d with
  | zero => exact le_rfl
  | succ fuel ih =>
    unfold strip
    split
    · exact (ih _).trans (Nat.div_le_self _ _)
    · exact le_rfl

/-- A coefficient below a power of ten has at most as many digits. -/
theorem digits_le {d : Decimal} {k : ℕ} (hk : 0 < k) (h : d.coefficient < 10 ^ k) : d.digits ≤ k := by
  unfold Decimal.digits
  by_cases hzero : d.coefficient = 0
  · rw [hzero, Nat.log_zero_right]
    omega
  · have := Nat.log_lt_of_lt_pow hzero h
    omega

/-- An exact coefficient is below the capacity of the context. -/
theorem exact_lt_capacity {num den : ℕ} {exponent : ℤ} (hnum : 0 < num) (hden : 0 < den) :
    num * 10 ^ (exponent - ctx.roundingExponent num den exponent).toNat /
      (den * 10 ^ (ctx.roundingExponent num den exponent - exponent).toNat) < 10 ^ ctx.prec := by
  have hlt : (num : ℚ) / den * (10 : ℚ) ^ exponent < (10 : ℚ) ^ ctx.prec * (10 : ℚ) ^ ctx.roundingExponent num den exponent :=
    fraction_lt_capacity hnum hden
  set e := ctx.roundingExponent num den exponent
  have hd := aligned_pos hden (e - exponent).toNat
  rw [← aligned_fraction num den exponent e, mul_lt_mul_iff_left₀ (zpow_pos (by norm_num) _),
    div_lt_iff₀ (by exact_mod_cast hd)] at hlt
  exact (Nat.div_lt_iff_lt_mul hd).mpr (by exact_mod_cast hlt)

/-- A fitted result has at most as many digits as the context keeps. -/
theorem digits_finish {negative : Bool} {num den : ℕ} {exponent : ℤ} {r : Decimal} (hprec : 0 < ctx.prec) (hden : 0 < den)
    (h : ctx.finish negative num den exponent = .ok r) : r.digits ≤ ctx.prec := by
  apply digits_le hprec
  have hten : 0 < 10 ^ ctx.prec := by positivity
  unfold finish at h
  split at h
  · cases h
    exact hten
  · rename_i hnum
    have hle : ctx.roundedCoefficient negative num den exponent ≤ 10 ^ ctx.prec :=
      roundedCoefficient_le negative (Nat.pos_of_ne_zero hnum) hden
    split at h
    · cases h
    · dsimp only at h
      split at h
      · cases h
        refine (coefficient_strip_le _ _).trans_lt ?_
        rw [ctx.rounding.quotient_exact _ ‹_›]
        exact exact_lt_capacity (Nat.pos_of_ne_zero hnum) hden
      · split at h
        · rename_i hcarry
          split at h
          · cases h
          · cases h
            exact (Nat.div_lt_self (hten.trans_eq hcarry.symm) (by norm_num)).trans_eq hcarry
        · rename_i hcarry
          cases h
          exact lt_of_le_of_ne hle hcarry

/-- A sum has at most as many digits as the context keeps. -/
theorem digits_add {r : Decimal} (hprec : 0 < ctx.prec) (h : ctx.add a b = .ok r) : r.digits ≤ ctx.prec :=
  digits_finish hprec Nat.one_pos h

end Context

namespace Decimal

variable {a a' b b' : Decimal}

/-- A decimal is numerically equal to itself. -/
theorem NumEq.refl (a : Decimal) : a.NumEq a := rfl

/-- Comparison reads values only. -/
theorem NumEq.le_iff (ha : a.NumEq a') (hb : b.NumEq b') : a ≤ b ↔ a' ≤ b' := by
  rw [le_iff_value, le_iff_value, ha, hb]

/-- Strict comparison reads values only. -/
theorem NumEq.lt_iff (ha : a.NumEq a') (hb : b.NumEq b') : a < b ↔ a' < b' := by
  rw [lt_iff_value, lt_iff_value, ha, hb]

/-- Minima read values only. -/
theorem NumEq.minimum (ha : a.NumEq a') (hb : b.NumEq b') : (a.minimum b).NumEq (a'.minimum b') := by
  rw [NumEq, value_minimum, value_minimum, ha, hb]

/-- The leading digit of a decimal that is not zero is at or below its magnitude. -/
theorem zpow_adjusted_le {d : Decimal} (h : d.coefficient ≠ 0) : (10 : ℚ) ^ d.adjusted ≤ |d.value| := by
  have hpow : ((10 ^ (d.digits - 1) : ℕ) : ℚ) ≤ d.coefficient := by
    exact_mod_cast Nat.pow_log_le_self 10 h
  have hadjusted : d.adjusted = ((d.digits - 1 : ℕ) : ℤ) + d.exponent := by
    unfold adjusted digits
    push_cast
    ring
  rw [d.abs_value, hadjusted, zpow_add₀ (by norm_num), zpow_natCast]
  exact mul_le_mul_of_nonneg_right (by exact_mod_cast hpow) (zpow_pos (by norm_num) _).le

/-- The leading digit of a decimal that is not zero is told by its value. -/
theorem NumEq.adjusted_eq (h : a.NumEq a') (hne : a.value ≠ 0) : a.adjusted = a'.adjusted := by
  have hnonzero : ∀ {d : Decimal}, d.value ≠ 0 → d.coefficient ≠ 0 := by
    intro d hd hzero
    exact hd (abs_eq_zero.mp (by rw [d.abs_value, hzero, Nat.cast_zero, zero_mul]))
  have hle := zpow_adjusted_le (hnonzero hne)
  have hle' := zpow_adjusted_le (hnonzero (h ▸ hne))
  have hone : (1 : ℚ) < 10 := by norm_num
  have hlt := (zpow_lt_zpow_iff_right₀ hone).mp ((h ▸ hle).trans_lt a'.abs_value_lt)
  have hlt' := (zpow_lt_zpow_iff_right₀ hone).mp ((h ▸ hle').trans_lt a.abs_value_lt)
  omega

/-- Maxima read values only. -/
theorem NumEq.maximum (ha : a.NumEq a') (hb : b.NumEq b') : (a.maximum b).NumEq (a'.maximum b') := by
  rw [NumEq, value_maximum, value_maximum, ha, hb]

end Decimal

end DecimalArithmetic
