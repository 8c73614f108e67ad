import EquityEval.Arithmetic.Magnitude

/-!
# Equal parts of an interval

An interval between two decimals is cut into at most a hundred equal parts. The quotients are rounded;
in a context with some digits below the last one of the end points, the cuts are still strictly
increasing and start at the lower end. No estimate of an error is needed: between two cuts there are
two neighbours of a grid that the context represents, and rounding does not cross them.
-/

namespace DecimalArithmetic

/-- A list is traversed when each entry returns, and what it returns has the entry's property. -/
theorem returns_mapM {ε α β : Type} {f : α → Except ε β} {p : α → β → Prop} {l : List α} (h : ∀ a ∈ l, Returns (f a) (p a)) :
    Returns (l.mapM f) (List.Forall₂ p l) := by
  induction l with
  | nil => exact ⟨[], rfl, .nil⟩
  | cons a rest ih =>
    rw [List.mapM_cons]
    refine (h a List.mem_cons_self).bind fun b _ hb => ?_
    refine (ih fun c hc => h c (List.mem_cons_of_mem _ hc)).bind fun bs _ hbs => ?_
    exact returns_pure (.cons hb hbs)

namespace Context

/-- The cuts of an interval into equal parts: `lower + span * i / parts` for each part, and the upper end. -/
def cuts (ctx : Context) (lower upper : Decimal) (parts : ℕ) : Except DecimalException (List Decimal) := do
  let span ← ctx.sub upper lower
  let inner ← (List.range parts).mapM fun (i : ℕ) => do
    ctx.add lower (← ctx.div (← ctx.mul span (.ofInt i)) (.ofInt parts))
  return inner ++ [upper]

variable {ctx : Context} {lower upper : Decimal} {top unit : ℤ}

/-- The end points span known digits, and the context has room for nine more. -/
structure Fine (ctx : Context) (lower upper : Decimal) (top unit : ℤ) : Prop where
  lower_spans : Spans top unit lower.value
  upper_spans : Spans top unit upper.value
  prec_le : top - unit + 9 ≤ ctx.prec
  unit_le : unit ≤ top
  top_lt : top + 4 < ctx.Emax
  etiny_le : ctx.etiny ≤ unit - ctx.prec - 1
  range : ctx.Emin < ctx.Emax

/-- A cut before it is rounded. -/
def cutAt (lower upper : Decimal) (parts i : ℕ) : ℚ := (upper.value - lower.value) * i / parts

/-- A unit of the grid that separates cuts. -/
def gridUnit (unit : ℤ) : ℚ := (10 : ℚ) ^ (unit - 3)

/-- A cut lies between the same points of the grid as before it was rounded. -/
structure CutAt (lower upper : Decimal) (top unit : ℤ) (parts i : ℕ) (b : Decimal) : Prop where
  le_grid : ∀ k : ℤ, |k * gridUnit unit| ≤ (10 : ℚ) ^ (top + 2) → cutAt lower upper parts i ≤ k * gridUnit unit →
    b.value ≤ lower.value + k * gridUnit unit
  grid_le : ∀ k : ℤ, |k * gridUnit unit| ≤ (10 : ℚ) ^ (top + 2) → k * gridUnit unit ≤ cutAt lower upper parts i →
    lower.value + k * gridUnit unit ≤ b.value

/-- Points of the grid that are not too far out are representable. -/
theorem Fine.representable_grid (h : Fine ctx lower upper top unit) {z : ℚ} (hz : Spans (top + 3) (unit - 3) z) :
    ctx.Representable z := by
  obtain ⟨m, hm⟩ := hz.whole
  have hetiny := h.etiny_le
  have hprec := h.prec_le
  have htop : |z| < (10 : ℚ) ^ (top + 4) := hz.le.trans_lt (zpow_lt_zpow_right₀ (by norm_num) (by omega))
  have hunit := h.unit_le
  exact representable_of_lt (by omega) hm htop (by omega)

/-- A positive precision. -/
theorem Fine.prec_pos (h : Fine ctx lower upper top unit) : 0 < ctx.prec := by
  have hprec := h.prec_le
  have hunit := h.unit_le
  omega

/-- The span of the interval. -/
theorem Fine.span_spans (h : Fine ctx lower upper top unit) : Spans (top + 1) unit (upper.value - lower.value) := by
  rw [sub_eq_add_neg]
  exact h.upper_spans.add h.lower_spans.neg

/-- A part's number spans two digits. -/
theorem spans_ofInt {n : ℕ} (hn : n ≤ 100) : Spans 2 0 (Decimal.ofInt n).value := by
  rw [Decimal.value_ofInt]
  refine ⟨?_, n, by simp⟩
  rw [Int.cast_natCast, abs_of_nonneg (Nat.cast_nonneg n)]
  norm_num
  exact hn

/-- Each cut is computed, and lies between the points of the grid that it should. -/
theorem Fine.cut_returns (h : Fine ctx lower upper top unit) {span : Decimal} (hspan : span.value = upper.value - lower.value)
    {parts i : ℕ} (hparts : 1 ≤ parts ∧ parts ≤ 100) (hi : i < parts) :
    Returns (do ctx.add lower (← ctx.div (← ctx.mul span (.ofInt i)) (.ofInt parts)))
      (CutAt lower upper top unit parts i) := by
  have hprec := h.prec_pos
  have hdigits := h.prec_le
  have hunit := h.unit_le
  have htop := h.top_lt
  have hetiny := h.etiny_le
  have hspans : Spans (top + 1) unit span.value := hspan ▸ h.span_spans
  -- the product is exact
  have hmul : Returns (ctx.mul span (.ofInt i)) fun r => r.value = (upper.value - lower.value) * i ∧ Spans (top + 3) unit r.value := by
    have hroom : ctx.Room (top + 1 + 2) (unit + 0) := ⟨by omega, by omega, by omega⟩
    refine (mul_returns hprec h.range hroom hspans (spans_ofInt (hi.le.trans hparts.2))).mono fun r hr => ?_
    have hproduct := hspans.mul (spans_ofInt (hi.le.trans hparts.2))
    have hexact := hr.1.exact (h.representable_grid (hproduct.mono (by omega) (by omega)))
    refine ⟨by rw [hexact, hspan, Decimal.value_ofInt, Int.cast_natCast], hr.2.mono (by omega) (by omega)⟩
  refine hmul.bind fun product _ hproduct => ?_
  have hpos : (1 : ℚ) ≤ parts := by exact_mod_cast hparts.1
  have hdiv : Returns (ctx.div product (.ofInt parts)) fun r =>
      ctx.Rounds (cutAt lower upper parts i) r ∧ Spans (top + 3) (unit - ctx.prec - 1) r.value := by
    have hroom : ctx.Room (top + 3 - 0) (unit - 2 - ctx.prec + 1) := ⟨by omega, by omega, by omega⟩
    refine (div_returns hprec h.range hroom hproduct.2 (b := .ofInt parts) ?_ ?_).mono fun r hr => ?_
    · rw [Decimal.value_ofInt, Int.cast_natCast, zpow_zero, abs_of_nonneg (Nat.cast_nonneg _)]
      exact hpos
    · rw [Decimal.value_ofInt, Int.cast_natCast, abs_of_nonneg (Nat.cast_nonneg _)]
      norm_num
      exact hparts.2
    · rw [Decimal.value_ofInt, Int.cast_natCast, hproduct.1] at hr
      exact ⟨hr.1, hr.2.mono (by omega) (by omega)⟩
  refine hdiv.bind fun quotient _ hquotient => ?_
  have hroom : ctx.Room (top + 3 + 1) (unit - ctx.prec - 1) := ⟨by omega, by omega, by omega⟩
  refine (add_returns hprec h.range hroom (h.lower_spans.mono (by omega) (by omega)) hquotient.2).mono fun b hb => ?_
  -- points of the grid, and the ones that the lower end is added to, are representable
  have hgrid : ∀ k : ℤ, |k * gridUnit unit| ≤ (10 : ℚ) ^ (top + 2) →
      ctx.Representable (k * gridUnit unit) ∧ ctx.Representable (lower.value + k * gridUnit unit) := by
    intro k hk
    have hspans : Spans (top + 2) (unit - 3) (k * gridUnit unit) := ⟨hk, k, rfl⟩
    exact ⟨h.representable_grid (hspans.mono (by omega) le_rfl),
      h.representable_grid (((h.lower_spans.mono (by omega) (by omega)).add hspans).mono (by omega) le_rfl)⟩
  constructor
  · intro k hk hcut
    obtain ⟨hpoint, hsum⟩ := hgrid k hk
    exact hb.1.le_of_le _ hsum (by have := hquotient.1.le_of_le _ hpoint hcut; linarith)
  · intro k hk hcut
    obtain ⟨hpoint, hsum⟩ := hgrid k hk
    exact hb.1.ge_of_ge _ hsum (by have := hquotient.1.ge_of_ge _ hpoint hcut; linarith)

/-- The part of the interval below a cut lies within the span. -/
theorem cutAt_le (hlt : lower.value < upper.value) {parts i : ℕ} (hparts : 1 ≤ parts) (hi : i ≤ parts) :
    0 ≤ cutAt lower upper parts i ∧ cutAt lower upper parts i ≤ upper.value - lower.value := by
  have hspan : 0 < upper.value - lower.value := sub_pos.mpr hlt
  have hpos : (0 : ℚ) < parts := by exact_mod_cast hparts
  have hle : (i : ℚ) ≤ parts := by exact_mod_cast hi
  refine ⟨by unfold cutAt; positivity, ?_⟩
  rw [cutAt, div_le_iff₀ hpos]
  exact mul_le_mul_of_nonneg_left hle hspan.le

/-- Two cuts are at least ten units of the grid apart. -/
theorem Fine.cutAt_apart (h : Fine ctx lower upper top unit) (hlt : lower.value < upper.value) {parts i j : ℕ}
    (hparts : 1 ≤ parts ∧ parts ≤ 100) (hij : i < j) : cutAt lower upper parts i + 10 * gridUnit unit ≤ cutAt lower upper parts j := by
  have hspan : 0 < upper.value - lower.value := sub_pos.mpr hlt
  have hunit := h.span_spans.unit_le hspan.ne'
  rw [abs_of_pos hspan] at hunit
  have hpos : (0 : ℚ) < parts := by exact_mod_cast hparts.1
  have hle : (parts : ℚ) ≤ 100 := by exact_mod_cast hparts.2
  have hnext : (i : ℚ) + 1 ≤ j := by exact_mod_cast hij
  have hgrid : 1000 * gridUnit unit = (10 : ℚ) ^ unit := by
    rw [gridUnit, zpow_sub₀ (by norm_num)]
    norm_num
    ring
  have hunitPos : 0 < gridUnit unit := ten_zpow_pos _
  rw [cutAt, cutAt, ← le_sub_iff_add_le', ← sub_div, ← mul_sub, le_div_iff₀ hpos]
  calc 10 * gridUnit unit * parts ≤ 10 * gridUnit unit * 100 := mul_le_mul_of_nonneg_left hle (by positivity)
    _ = 10 ^ unit := by rw [← hgrid]; ring
    _ ≤ upper.value - lower.value := hunit
    _ ≤ (upper.value - lower.value) * (j - i) := le_mul_of_one_le_right hspan.le (by linarith)

/-- Next to a part of the interval there are two neighbours of the grid. -/
theorem Fine.exists_grid (h : Fine ctx lower upper top unit) {q : ℚ} (hq : 0 ≤ q) (hle : q ≤ upper.value - lower.value) :
    ∃ k : ℤ, q ≤ k * gridUnit unit ∧ (k + 1 : ℤ) * gridUnit unit ≤ q + 2 * gridUnit unit ∧
      |k * gridUnit unit| ≤ (10 : ℚ) ^ (top + 2) ∧ |(k + 1 : ℤ) * gridUnit unit| ≤ (10 : ℚ) ^ (top + 2) := by
  have hpos : 0 < gridUnit unit := ten_zpow_pos _
  have hceil := Int.le_ceil (q / gridUnit unit)
  have hbelow := Int.ceil_lt_add_one (q / gridUnit unit)
  set k := ⌈q / gridUnit unit⌉
  rw [div_le_iff₀ hpos] at hceil
  have hnext : (k : ℚ) * gridUnit unit ≤ q + gridUnit unit := by
    have := mul_le_mul_of_nonneg_right hbelow.le hpos.le
    rwa [add_mul, one_mul, div_mul_cancel₀ _ hpos.ne'] at this
  have hspan : upper.value - lower.value ≤ (10 : ℚ) ^ (top + 1) := (le_abs_self _).trans h.span_spans.le
  have hsmall : gridUnit unit ≤ (10 : ℚ) ^ (top + 1) := ten_zpow_le (by have := h.unit_le; omega)
  have hten : (10 : ℚ) ^ (top + 2) = 10 ^ (top + 1) * 10 := by
    rw [show top + 2 = top + 1 + 1 by ring, zpow_add_one₀ (by norm_num)]
  have hlarge := ten_zpow_pos (top + 1)
  refine ⟨k, hceil, by push_cast; linarith, ?_, ?_⟩
  · rw [abs_of_nonneg (hq.trans hceil), hten]
    linarith
  · push_cast
    rw [abs_of_nonneg (by linarith), hten]
    linarith

/-- A later cut is greater. -/
theorem Fine.cut_lt (h : Fine ctx lower upper top unit) (hlt : lower.value < upper.value) {parts i j : ℕ}
    (hparts : 1 ≤ parts ∧ parts ≤ 100) (hij : i < j) (hj : j < parts) {b b' : Decimal} (hb : CutAt lower upper top unit parts i b)
    (hb' : CutAt lower upper top unit parts j b') : b < b' := by
  obtain ⟨hnonneg, hle⟩ := cutAt_le hlt hparts.1 (hij.trans hj).le
  obtain ⟨k, hk, hnext, hbound, hbound'⟩ := h.exists_grid hnonneg hle
  have hpos : 0 < gridUnit unit := ten_zpow_pos _
  have hapart := h.cutAt_apart hlt hparts hij
  have hlow := hb.le_grid k hbound hk
  have hhigh := hb'.grid_le (k + 1) hbound' (by linarith)
  push_cast at hhigh
  rw [Decimal.lt_iff_value]
  linarith

/-- A cut is less than the upper end. -/
theorem Fine.cut_lt_upper (h : Fine ctx lower upper top unit) (hlt : lower.value < upper.value) {parts i : ℕ}
    (hparts : 1 ≤ parts ∧ parts ≤ 100) (hi : i < parts) {b : Decimal} (hb : CutAt lower upper top unit parts i b) : b < upper := by
  obtain ⟨hnonneg, hle⟩ := cutAt_le hlt hparts.1 hi.le
  obtain ⟨k, hk, hnext, hbound, -⟩ := h.exists_grid hnonneg hle
  have hpos : 0 < gridUnit unit := ten_zpow_pos _
  have hapart := h.cutAt_apart hlt hparts hi
  have hlast := (cutAt_le hlt hparts.1 (le_refl parts)).2
  have hlow := hb.le_grid k hbound hk
  push_cast at hnext
  rw [Decimal.lt_iff_value]
  linarith

/-- The first cut is the lower end. -/
theorem CutAt.first {parts : ℕ} {b : Decimal} (hb : CutAt lower upper top unit parts 0 b) : b.NumEq lower := by
  have hzero : cutAt lower upper parts 0 = 0 := by simp [cutAt]
  have hbound : |((0 : ℤ) : ℚ) * gridUnit unit| ≤ (10 : ℚ) ^ (top + 2) := by
    rw [Int.cast_zero, zero_mul, abs_zero]
    exact (ten_zpow_pos _).le
  have hle := hb.le_grid 0 hbound (by simp [hzero])
  have hge := hb.grid_le 0 hbound (by simp [hzero])
  simp only [Int.cast_zero, zero_mul, add_zero] at hle hge
  exact le_antisymm hle hge

/-- The cuts of an interval are returned. They increase strictly from its lower to its upper end. -/
theorem Fine.cuts_returns (h : Fine ctx lower upper top unit) (hlt : lower < upper) {parts : ℕ} (hparts : 1 ≤ parts ∧ parts ≤ 100) :
    Returns (ctx.cuts lower upper parts) fun cuts => cuts.length = parts + 1 ∧ cuts.Pairwise (· < ·) ∧
      (∀ b ∈ cuts.head?, b.NumEq lower) ∧ cuts.getLast? = some upper := by
  rw [Decimal.lt_iff_value] at hlt
  have hdigits := h.prec_le
  have hunit := h.unit_le
  have htop := h.top_lt
  have hetiny := h.etiny_le
  have hspan : Returns (ctx.sub upper lower) fun r => r.value = upper.value - lower.value := by
    have hroom : ctx.Room (top + 1) unit := ⟨by omega, by omega, by omega⟩
    refine (sub_returns h.prec_pos h.range hroom h.upper_spans h.lower_spans).mono fun r hr => ?_
    exact hr.1.exact (h.representable_grid (h.span_spans.mono (by omega) (by omega)))
  refine hspan.bind fun span _ hvalue => ?_
  have hinner := returns_mapM (l := List.range parts) fun i hi => h.cut_returns hvalue hparts (List.mem_range.mp hi)
  refine hinner.bind fun inner _ hcuts => returns_pure ?_
  have hlength : inner.length = parts := by rw [← hcuts.length_eq, List.length_range]
  have hcut : ∀ i (hi : i < inner.length), CutAt lower upper top unit parts i (inner.get ⟨i, hi⟩) := by
    intro i hi
    have hrange : i < (List.range parts).length := by rwa [List.length_range, ← hlength]
    have := hcuts.get hrange hi
    rwa [List.get_eq_getElem, List.getElem_range] at this
  refine ⟨by rw [List.length_append, hlength, List.length_singleton], ?_, ?_, List.getLast?_concat⟩
  · rw [List.pairwise_append]
    refine ⟨List.pairwise_iff_getElem.mpr fun i j hi hj hij => ?_, List.pairwise_singleton _ _, fun b hb b' hb' => ?_⟩
    · exact h.cut_lt hlt hparts hij (hlength ▸ hj) (hcut i hi) (hcut j hj)
    · obtain ⟨i, rfl⟩ := List.mem_iff_get.mp hb
      rw [List.mem_singleton.mp hb']
      exact h.cut_lt_upper hlt hparts (hlength ▸ i.isLt) (hcut i i.isLt)
  · intro b hb
    cases inner with
    | nil =>
      rw [List.length_nil] at hlength
      omega
    | cons first rest =>
      rw [List.cons_append, List.head?_cons, Option.mem_some_iff] at hb
      rw [← hb]
      exact (hcut 0 (Nat.succ_pos _)).first

end Context

end DecimalArithmetic
