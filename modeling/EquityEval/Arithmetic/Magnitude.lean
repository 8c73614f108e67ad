import EquityEval.Arithmetic.Exact
import EquityEval.Arithmetic.NumberSystem

/-!
# Magnitudes

A number spans a range of digits when it is at most a power of ten and a whole number of units of another one. Rounding
keeps both, so that sums, products and quotients of numbers that span known ranges return and span known ranges.
-/

namespace DecimalArithmetic

/-! ### Computations that return -/

/-- A computation returns, and what it returns has a property. -/
def Returns {ε α : Type} (x : Except ε α) (p : α → Prop) : Prop := ∃ a, x = .ok a ∧ p a

/-- Returning a value returns. -/
theorem returns_pure {ε α : Type} {p : α → Prop} {a : α} (h : p a) : Returns (pure a : Except ε α) p := ⟨a, rfl, h⟩

/-- A sequence returns when its first part does and the rest does from there. -/
theorem Returns.bind {ε α β : Type} {x : Except ε α} {f : α → Except ε β} {p : α → Prop} {q : β → Prop} (h : Returns x p)
    (hf : ∀ a, x = .ok a → p a → Returns (f a) q) : Returns (x >>= f) q := by
  obtain ⟨a, rfl, ha⟩ := h
  exact hf a rfl ha

/-- What is returned has weaker properties too. -/
theorem Returns.mono {ε α : Type} {x : Except ε α} {p q : α → Prop} (h : Returns x p) (hpq : ∀ a, p a → q a) : Returns x q := by
  obtain ⟨a, hx, ha⟩ := h
  exact ⟨a, hx, hpq a ha⟩

/-! ### Ranges of digits -/

/-- At most `10 ^ top` and a whole number of units `10 ^ unit`. -/
structure Spans (top unit : ℤ) (q : ℚ) : Prop where
  le : |q| ≤ (10 : ℚ) ^ top
  whole : ∃ m : ℤ, q = m * (10 : ℚ) ^ unit

section

variable {top top' unit unit' : ℤ} {a b q : ℚ}

/-- A power of ten is positive. -/
theorem ten_zpow_pos (e : ℤ) : (0 : ℚ) < 10 ^ e := zpow_pos (by norm_num) e

/-- Powers of ten grow with their exponents. -/
theorem ten_zpow_le {e e' : ℤ} (h : e ≤ e') : (10 : ℚ) ^ e ≤ 10 ^ e' := zpow_le_zpow_right₀ (by norm_num) h

/-- A whole number of units is one of smaller units. -/
theorem whole_mono (h : ∃ m : ℤ, q = m * (10 : ℚ) ^ unit) (hle : unit' ≤ unit) : ∃ m : ℤ, q = m * (10 : ℚ) ^ unit' := by
  obtain ⟨m, rfl⟩ := h
  obtain ⟨n, hn⟩ := Int.eq_ofNat_of_zero_le (sub_nonneg.mpr hle)
  refine ⟨m * 10 ^ n, ?_⟩
  rw [show unit = (n : ℤ) + unit' by omega, zpow_add₀ (by norm_num), zpow_natCast]
  push_cast
  ring

/-- A range may be widened. -/
theorem Spans.mono (h : Spans top unit q) (htop : top ≤ top') (hunit : unit' ≤ unit) : Spans top' unit' q :=
  ⟨h.le.trans (ten_zpow_le htop), whole_mono h.whole hunit⟩

/-- The opposite number spans the same range. -/
theorem Spans.neg (h : Spans top unit q) : Spans top unit (-q) := by
  obtain ⟨m, hm⟩ := h.whole
  exact ⟨by rw [abs_neg]; exact h.le, -m, by rw [hm]; push_cast; ring⟩

/-- A sum spans one digit more. -/
theorem Spans.add (ha : Spans top unit a) (hb : Spans top unit b) : Spans (top + 1) unit (a + b) := by
  obtain ⟨m, hm⟩ := ha.whole
  obtain ⟨n, hn⟩ := hb.whole
  refine ⟨?_, m + n, by rw [hm, hn]; push_cast; ring⟩
  have hten : (10 : ℚ) ^ (top + 1) = 10 ^ top * 10 := zpow_add_one₀ (by norm_num) _
  have hpos := ten_zpow_pos top
  calc |a + b| ≤ |a| + |b| := abs_add_le a b
    _ ≤ 10 ^ top + 10 ^ top := add_le_add ha.le hb.le
    _ ≤ 10 ^ (top + 1) := by rw [hten]; linarith

/-- A product spans the digits of both. -/
theorem Spans.mul (ha : Spans top unit a) (hb : Spans top' unit' b) : Spans (top + top') (unit + unit') (a * b) := by
  obtain ⟨m, hm⟩ := ha.whole
  obtain ⟨n, hn⟩ := hb.whole
  refine ⟨?_, m * n, ?_⟩
  · rw [abs_mul, zpow_add₀ (by norm_num)]
    exact mul_le_mul ha.le hb.le (abs_nonneg b) (ten_zpow_pos top).le
  · rw [hm, hn, zpow_add₀ (by norm_num)]
    push_cast
    ring

/-- A number that is not zero is at least a unit. -/
theorem Spans.unit_le (h : Spans top unit q) (hq : q ≠ 0) : (10 : ℚ) ^ unit ≤ |q| := by
  obtain ⟨m, rfl⟩ := h.whole
  have hm : m ≠ 0 := by
    rintro rfl
    simp at hq
  have hone : (1 : ℚ) ≤ |(m : ℚ)| := by exact_mod_cast Int.one_le_abs hm
  rw [abs_mul, abs_of_pos (ten_zpow_pos unit)]
  exact le_mul_of_one_le_left (ten_zpow_pos unit).le hone

/-- A decimal spans its digits. -/
theorem Decimal.spans (d : Decimal) : Spans (d.adjusted + 1) d.exponent d.value := ⟨d.abs_value_lt.le, d.signed, rfl⟩

end

/-! ### Rounding -/

namespace Context

variable {ctx : Context} {top unit low high : ℤ} {q : ℚ} {r : Decimal}

/-- A range that the context has room for. -/
structure Room (ctx : Context) (top unit : ℤ) : Prop where
  top_lt : top < ctx.Emax
  le_top : ctx.etiny ≤ top
  le_unit : ctx.etiny ≤ unit

/-- A power of ten is representable. -/
theorem representable_ten (hprec : 0 < ctx.prec) {e : ℤ} (he : ctx.etiny ≤ e) : ctx.Representable ((10 : ℚ) ^ e) :=
  ⟨1, e, by simpa using one_lt_pow₀ (by norm_num : (1 : ℤ) < 10) hprec.ne', he, by simp⟩

/-- A rounded number is at most a power of ten that the exact one is at most. -/
theorem Rounds.magnitude_le (h : ctx.Rounds q r) (hprec : 0 < ctx.prec) (htop : ctx.etiny ≤ top) (hq : |q| ≤ (10 : ℚ) ^ top) :
    |r.value| ≤ (10 : ℚ) ^ top := by
  have hten := representable_ten hprec htop
  obtain ⟨hlow, hhigh⟩ := abs_le.mp hq
  exact abs_le.mpr ⟨h.ge_of_ge _ hten.neg hlow, h.le_of_le _ hten hhigh⟩

/-- A rounded number is at least a power of ten that the exact one is at least. -/
theorem Rounds.le_magnitude (h : ctx.Rounds q r) (hprec : 0 < ctx.prec) (hlow : ctx.etiny ≤ low) (hq : (10 : ℚ) ^ low ≤ |q|) :
    (10 : ℚ) ^ low ≤ |r.value| := by
  have hten := representable_ten hprec hlow
  rcases le_abs.mp hq with hpos | hneg
  · exact (h.ge_of_ge _ hten hpos).trans (le_abs_self _)
  · have hle := h.le_of_le _ hten.neg (le_neg.mp hneg)
    exact (le_neg.mp hle).trans (neg_le_abs _)

/-- A representable number that is at least a power of ten is whole in units of its last digit. -/
theorem Representable.whole (h : ctx.Representable q) (hq : (10 : ℚ) ^ low ≤ |q|) :
    ∃ m : ℤ, q = m * (10 : ℚ) ^ (low - ctx.prec + 1) := by
  obtain ⟨m, e, hm, -, rfl⟩ := h
  refine whole_mono ⟨m, rfl⟩ ?_
  have hlt : |(m : ℚ) * (10 : ℚ) ^ e| < (10 : ℚ) ^ ((ctx.prec : ℤ) + e) := by
    rw [abs_mul, abs_of_pos (ten_zpow_pos e), zpow_add₀ (by norm_num), zpow_natCast]
    exact mul_lt_mul_of_pos_right (by exact_mod_cast hm) (ten_zpow_pos e)
  have hexponent := (zpow_lt_zpow_iff_right₀ (by norm_num : (1 : ℚ) < 10)).mp (hq.trans_lt hlt)
  omega

/-- A rounded number spans what the exact one does. -/
theorem Rounds.spans (h : ctx.Rounds q r) (hprec : 0 < ctx.prec) (hroom : ctx.Room top unit) (hq : Spans top unit q) :
    Spans top unit r.value := by
  refine ⟨h.magnitude_le hprec hroom.le_top hq.le, ?_⟩
  rcases lt_or_ge |q| ((10 : ℚ) ^ (unit + ctx.prec)) with hsmall | hlarge
  · obtain ⟨m, hm⟩ := hq.whole
    rw [h.exact (representable_of_lt hroom.le_unit hm hsmall le_rfl)]
    exact ⟨m, hm⟩
  · have hle : ctx.etiny ≤ unit + ctx.prec := by
      have := hroom.le_unit
      omega
    have hwhole := h.representable.whole (h.le_magnitude hprec hle hlarge)
    exact whole_mono hwhole (by omega)

/-- A rounded number is positive when the exact one is a positive whole number of units. -/
theorem Rounds.pos (h : ctx.Rounds q r) (hprec : 0 < ctx.prec) (hroom : ctx.Room top unit) (hq : Spans top unit q)
    (hpos : 0 < q) : 0 < r.value := by
  have hle := hq.unit_le hpos.ne'
  rw [abs_of_pos hpos] at hle
  exact (ten_zpow_pos unit).trans_le (h.ge_of_ge _ (representable_ten hprec hroom.le_unit) hle)

/-- A positive number is rounded by less than one unit of its last digit. -/
theorem Rounds.error_le (h : ctx.Rounds q r) (hprec : 0 < ctx.prec) (hunit : ctx.etiny ≤ low - ctx.prec + 1)
    (hlow : (10 : ℚ) ^ low ≤ q) (hhigh : q < (10 : ℚ) ^ (low + 1)) : |r.value - q| ≤ q * (10 : ℚ) ^ (1 - (ctx.prec : ℤ)) := by
  have hpos := ten_zpow_pos (low - ctx.prec + 1)
  have hdigits : (10 : ℚ) ^ (low + 1) = (10 : ℚ) ^ ctx.prec * (10 : ℚ) ^ (low - ctx.prec + 1) := by
    rw [← zpow_natCast, ← zpow_add₀ (by norm_num)]
    congr 1
    ring
  have hunits : (10 : ℚ) ^ (low - ctx.prec + 1) ≤ q * (10 : ℚ) ^ (1 - (ctx.prec : ℤ)) := by
    rw [show low - (ctx.prec : ℤ) + 1 = low + (1 - ctx.prec) by ring, zpow_add₀ (by norm_num)]
    exact mul_le_mul_of_nonneg_right hlow (ten_zpow_pos _).le
  -- the exact number lies between two neighbours that the context represents
  have hfloor := Int.floor_le (q / (10 : ℚ) ^ (low - ctx.prec + 1))
  have hceil := Int.lt_floor_add_one (q / (10 : ℚ) ^ (low - ctx.prec + 1))
  set m := ⌊q / (10 : ℚ) ^ (low - ctx.prec + 1)⌋
  rw [le_div_iff₀ hpos] at hfloor
  rw [div_lt_iff₀ hpos] at hceil
  have hm : (m : ℚ) < (10 : ℚ) ^ ctx.prec :=
    lt_of_mul_lt_mul_right (hfloor.trans_lt (hdigits ▸ hhigh)) hpos.le
  have hm' : m < 10 ^ ctx.prec := by exact_mod_cast hm
  have hnonneg : 0 ≤ m := Int.floor_nonneg.mpr (div_nonneg ((ten_zpow_pos low).le.trans hlow) hpos.le)
  have hbelow : ctx.Representable (m * (10 : ℚ) ^ (low - ctx.prec + 1)) :=
    ⟨m, _, by rwa [abs_of_nonneg hnonneg], hunit, rfl⟩
  have habove : ctx.Representable ((m + 1) * (10 : ℚ) ^ (low - ctx.prec + 1)) := by
    rcases eq_or_ne (m + 1) (10 ^ ctx.prec) with htop | htop
    · have hten : ctx.Representable ((10 : ℚ) ^ (low + 1)) := representable_ten hprec (by omega)
      rwa [hdigits, show (10 : ℚ) ^ ctx.prec = (m : ℚ) + 1 by exact_mod_cast htop.symm] at hten
    · refine ⟨m + 1, _, ?_, hunit, by push_cast; rfl⟩
      rw [abs_of_nonneg (by omega)]
      omega
  have hge := h.ge_of_ge _ hbelow hfloor
  have hle := h.le_of_le _ habove hceil.le
  rw [add_mul, one_mul] at hle hceil
  exact abs_le.mpr ⟨by linarith, by linarith⟩

/-! ### Operations -/

variable {a b : Decimal} {top' unit' : ℤ}

/-- A product that leaves one digit of room in the exponent range is returned. -/
theorem mul_isOk (hrange : ctx.Emin < ctx.Emax) (h : |a.value * b.value| < (10 : ℚ) ^ ctx.Emax) :
    ∃ r, ctx.mul a b = .ok r := by
  apply finish_isOk _ Nat.one_pos hrange
  rw [abs_mul, a.abs_value, b.abs_value] at h
  rw [Nat.cast_one, div_one, zpow_add₀ (by norm_num)]
  push_cast
  linarith

/-- A sum of numbers that leave room returns. -/
theorem add_returns (hprec : 0 < ctx.prec) (hrange : ctx.Emin < ctx.Emax) (hroom : ctx.Room (top + 1) unit)
    (ha : Spans top unit a.value) (hb : Spans top unit b.value) :
    Returns (ctx.add a b) fun r => ctx.Rounds (a.value + b.value) r ∧ Spans (top + 1) unit r.value := by
  have hsum := ha.add hb
  have hlt : |a.value + b.value| < (10 : ℚ) ^ ctx.Emax :=
    hsum.le.trans_lt (zpow_lt_zpow_right₀ (by norm_num) hroom.top_lt)
  obtain ⟨r, hr⟩ := add_isOk hrange hlt
  have hrounds := add_rounds hprec hr
  exact ⟨r, hr, hrounds, hrounds.spans hprec hroom hsum⟩

/-- A difference of numbers that leave room returns. -/
theorem sub_returns (hprec : 0 < ctx.prec) (hrange : ctx.Emin < ctx.Emax) (hroom : ctx.Room (top + 1) unit)
    (ha : Spans top unit a.value) (hb : Spans top unit b.value) :
    Returns (ctx.sub a b) fun r => ctx.Rounds (a.value - b.value) r ∧ Spans (top + 1) unit r.value := by
  have h := add_returns hprec hrange hroom ha (b := b.copyNegate) (by rw [Decimal.value_copyNegate]; exact hb.neg)
  rwa [Decimal.value_copyNegate, ← sub_eq_add_neg] at h

/-- A product of numbers that leave room returns. -/
theorem mul_returns (hprec : 0 < ctx.prec) (hrange : ctx.Emin < ctx.Emax) (hroom : ctx.Room (top + top') (unit + unit'))
    (ha : Spans top unit a.value) (hb : Spans top' unit' b.value) :
    Returns (ctx.mul a b) fun r => ctx.Rounds (a.value * b.value) r ∧ Spans (top + top') (unit + unit') r.value := by
  have hproduct := ha.mul hb
  have hlt : |a.value * b.value| < (10 : ℚ) ^ ctx.Emax :=
    hproduct.le.trans_lt (zpow_lt_zpow_right₀ (by norm_num) hroom.top_lt)
  obtain ⟨r, hr⟩ := mul_isOk hrange hlt
  have hrounds := mul_rounds hprec hr
  exact ⟨r, hr, hrounds, hrounds.spans hprec hroom hproduct⟩

/-- A quotient of numbers that leave room returns; its last digit is known from the smallest dividend and the largest divisor. -/
theorem div_returns (hprec : 0 < ctx.prec) (hrange : ctx.Emin < ctx.Emax)
    (hroom : ctx.Room (top - low) (unit - high - ctx.prec + 1)) (ha : Spans top unit a.value)
    (hlow : (10 : ℚ) ^ low ≤ |b.value|) (hhigh : |b.value| ≤ (10 : ℚ) ^ high) :
    Returns (ctx.div a b) fun r =>
      ctx.Rounds (a.value / b.value) r ∧ Spans (top - low) (unit - high - ctx.prec + 1) r.value := by
  have hpos : 0 < |b.value| := (ten_zpow_pos low).trans_le hlow
  have hle : |a.value / b.value| ≤ (10 : ℚ) ^ (top - low) := by
    rw [abs_div, zpow_sub₀ (by norm_num)]
    exact div_le_div₀ (ten_zpow_pos top).le ha.le (ten_zpow_pos low) hlow
  obtain ⟨r, hr⟩ := div_isOk (abs_pos.mp hpos) hrange (hle.trans_lt (zpow_lt_zpow_right₀ (by norm_num) hroom.top_lt))
  have hrounds := div_rounds hprec hr
  refine ⟨r, hr, hrounds, hrounds.magnitude_le hprec hroom.le_top hle, ?_⟩
  by_cases hzero : a.value = 0
  · rw [hzero, zero_div] at hrounds
    exact ⟨0, by rw [hrounds.exact ctx.representable_zero]; simp⟩
  · have hleast : (10 : ℚ) ^ (unit - high) ≤ |a.value / b.value| := by
      rw [abs_div, zpow_sub₀ (by norm_num)]
      exact div_le_div₀ (abs_nonneg _) (ha.unit_le hzero) hpos hhigh
    have hfloor : ctx.etiny ≤ unit - high := by
      have := hroom.le_unit
      omega
    exact hrounds.representable.whole (hrounds.le_magnitude hprec hfloor hleast)

end Context

end DecimalArithmetic
