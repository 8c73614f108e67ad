import EquityEval.Valuation.Solver

/-!
# What one visit certifies

A visited region is excluded, holds a unique root inside a certified bracket, or says
nothing. Midpoints are rounded, so a bracket may leave the region that it started from; it
cannot leave the solve domain, because rounding does not cross the representable ends. A
bracket of opposite signs inside the domain is therefore enough evidence for a root.
-/

namespace EquityEval.Valuation

open DecimalArithmetic IntervalCalculus Set

/-- Twice a bounded input has at most eighty digits. -/
theorem representable_of_bounded {d : Decimal} (h : Bounded d) (n : ℤ) (hn : |n| ≤ 2) :
    context.Representable (n * d.value) := by
  obtain ⟨hdigits, _, hexp⟩ := h
  refine ⟨n * d.signed, d.exponent, ?_, ?_, ?_⟩
  · have hsigned : |d.signed| < 10 ^ 40 := by
      have habs : |d.signed| = (d.coefficient : ℤ) := by
        unfold Decimal.signed
        split <;> simp
      have hlt : d.coefficient < 10 ^ d.digits := Nat.lt_pow_succ_log_self (by norm_num) _
      rw [habs]
      exact_mod_cast hlt.trans_le (Nat.pow_le_pow_right (by norm_num) hdigits)
    rw [abs_mul]
    calc |n| * |d.signed| ≤ 2 * |d.signed| := mul_le_mul_of_nonneg_right hn (abs_nonneg _)
      _ < 10 ^ context.prec := by
        have : (10 : ℤ) ^ context.prec = 10 ^ 80 := rfl
        rw [this]
        omega
  · have : context.etiny = -10078 := rfl
    rw [this]
    have := neg_abs_le d.exponent
    omega
  · unfold Decimal.value
    push_cast
    ring

/-- A rounded midpoint stays between bounded inputs that its arguments stay between. -/
theorem midpoint_mem {lower upper a b mid : Decimal} (hlower : Bounded lower) (hupper : Bounded upper)
    (ha : a.value ∈ Icc lower.value upper.value) (hb : b.value ∈ Icc lower.value upper.value)
    (h : midpoint a b = .ok mid) : mid.value ∈ Icc lower.value upper.value := by
  unfold midpoint at h
  obtain ⟨sum, hsum, h⟩ := exists_of_bind_eq_ok h
  have hsum := Context.add_rounds (by decide) (raising_eq_ok.mp hsum)
  have hmid := Context.div_rounds (by decide) (raising_eq_ok.mp h)
  have hdouble : ∀ {d : Decimal}, Bounded d → context.Representable (2 * d.value) := fun hd => by
    simpa using representable_of_bounded hd 2 (by norm_num)
  have hsame : ∀ {d : Decimal}, Bounded d → context.Representable d.value := fun hd => by
    simpa using representable_of_bounded hd 1 (by norm_num)
  have hlo : 2 * lower.value ≤ sum.value :=
    hsum.ge_of_ge _ (hdouble hlower) (by linarith [ha.1, hb.1])
  have hhi : sum.value ≤ 2 * upper.value :=
    hsum.le_of_le _ (hdouble hupper) (by linarith [ha.2, hb.2])
  have htwo : (Decimal.ofInt 2).value = 2 := by simp
  rw [htwo] at hmid
  exact ⟨hmid.ge_of_ge _ (hsame hlower) (by linarith), hmid.le_of_le _ (hsame hupper) (by linarith)⟩

/-- A bounded input is far below the largest decimal. -/
theorem abs_value_lt_of_bounded {d : Decimal} (h : Bounded d) : |d.value| < (10 : ℚ) ^ (101 : ℤ) := by
  obtain ⟨_, hadjusted, _⟩ := h
  have hp : (0 : ℚ) < (10 : ℚ) ^ d.exponent := zpow_pos (by norm_num) _
  have hdigits : (d.coefficient : ℚ) < (10 : ℚ) ^ (d.digits : ℤ) := by
    rw [zpow_natCast]
    exact_mod_cast d.coefficient_lt
  rw [d.abs_value]
  calc (d.coefficient : ℚ) * (10 : ℚ) ^ d.exponent < (10 : ℚ) ^ (d.digits : ℤ) * (10 : ℚ) ^ d.exponent :=
        mul_lt_mul_of_pos_right hdigits hp
    _ = (10 : ℚ) ^ (d.digits + d.exponent) := (zpow_add₀ (by norm_num) _ _).symm
    _ ≤ (10 : ℚ) ^ (101 : ℤ) := by
      apply zpow_le_zpow_right₀ (by norm_num)
      have := (abs_le.mp hadjusted).2
      unfold Decimal.adjusted at this
      omega

/-- The rounded midpoint of decimals between bounded inputs is returned. -/
theorem midpoint_isOk {lower upper a b : Decimal} (hlower : Bounded lower) (hupper : Bounded upper)
    (ha : a.value ∈ Icc lower.value upper.value) (hb : b.value ∈ Icc lower.value upper.value) :
    ∃ mid, midpoint a b = .ok mid := by
  have hsmall : (2 : ℚ) * (10 : ℚ) ^ (101 : ℤ) < (10 : ℚ) ^ context.Emax := by
    calc (2 : ℚ) * (10 : ℚ) ^ (101 : ℤ) < (10 : ℚ) ^ (1 : ℤ) * (10 : ℚ) ^ (101 : ℤ) := by norm_num
      _ = (10 : ℚ) ^ (102 : ℤ) := (zpow_add₀ (by norm_num) _ _).symm
      _ < (10 : ℚ) ^ context.Emax := zpow_lt_zpow_right₀ (by norm_num) (by decide)
  have hl := abs_lt.mp (abs_value_lt_of_bounded hlower)
  have hu := abs_lt.mp (abs_value_lt_of_bounded hupper)
  obtain ⟨sum, hsum⟩ : ∃ sum, context.add a b = .ok sum := by
    apply Context.add_isOk (by decide)
    rw [abs_lt]
    constructor <;> linarith [ha.1, ha.2, hb.1, hb.2]
  have hrounds := Context.add_rounds (by decide) hsum
  have hdouble : ∀ {d : Decimal}, Bounded d → context.Representable (2 * d.value) := fun hd => by
    simpa using representable_of_bounded hd 2 (by norm_num)
  have hlo := hrounds.ge_of_ge _ (hdouble hlower) (by linarith [ha.1, hb.1])
  have hhi := hrounds.le_of_le _ (hdouble hupper) (by linarith [ha.2, hb.2])
  obtain ⟨mid, hmid⟩ : ∃ mid, context.div sum (.ofInt 2) = .ok mid := by
    apply Context.div_isOk (by simp) (by decide)
    rw [Decimal.value_ofInt, abs_lt]
    push_cast
    constructor <;> linarith
  exact ⟨mid, by simp [midpoint, raising, hsum, hmid, Except.mapError, bind, Except.bind]⟩

/-- A number has a certified sign. -/
def HasSign (x : ℝ) (sign : ℤ) : Prop := (sign = 1 → 0 < x) ∧ (sign = -1 → x < 0)

namespace Solver

variable {s : Solver} {c c' : Counters}

/-- The exact residual whose zeros the solver looks for. -/
noncomputable def f (s : Solver) : ℝ → ℝ :=
  exactResidual s.inputs.toForecastOf s.spec.toSolveSpecFields s.target

/-- A value inside the solve domain. -/
def InDomain (s : Solver) (d : Decimal) : Prop := d.value ∈ Icc s.spec.lower.value s.spec.upper.value

/-- The lower end of a specification is a bounded input. -/
theorem bounded_lower (s : Solver) : Bounded s.spec.lower :=
  s.spec.domain_of_accepted.bounded _ (by simp [SolveSpecFields.inputs])

/-- The upper end of a specification is a bounded input. -/
theorem bounded_upper (s : Solver) : Bounded s.spec.upper :=
  s.spec.domain_of_accepted.bounded _ (by simp [SolveSpecFields.inputs])

/-- A midpoint of values inside the domain is inside the domain. -/
theorem InDomain.midpoint {a b mid : Decimal} (ha : s.InDomain a) (hb : s.InDomain b)
    (h : midpoint a b = .ok mid) : s.InDomain mid :=
  midpoint_mem s.bounded_lower s.bounded_upper ha hb h

/-- The midpoint of values inside the domain is returned. -/
theorem InDomain.midpoint_isOk {a b : Decimal} (ha : s.InDomain a) (hb : s.InDomain b) :
    ∃ mid, Valuation.midpoint a b = .ok mid :=
  Valuation.midpoint_isOk s.bounded_lower s.bounded_upper ha hb

/-- A counted evaluation encloses the exact residual. -/
theorem at_encloses {b : Bounds} {d : Dual} (h : s.at b c = (.ok d, c')) : d.Encloses b.set s.f := by
  unfold «at» at h
  split at h
  · simp at h
  · simp only [Prod.mk.injEq] at h
    exact dualResidual_encloses (mapError_eq_ok.mp h.1)

/-- The ends of a counted evaluation have at most eighty digits. -/
theorem at_representable {b : Bounds} {d : Dual} (h : s.at b c = (.ok d, c')) :
    context.Representable d.value.lo.value ∧ context.Representable d.value.hi.value := by
  unfold «at» at h
  split at h
  · simp at h
  · simp only [Prod.mk.injEq] at h
    exact dualResidual_representable (mapError_eq_ok.mp h.1)

/-- The sign of an evaluation at a point is the sign of the exact residual there. -/
theorem at_point_sign {v : Decimal} {d : Dual} (h : s.at (.point v) c = (.ok d, c')) :
    HasSign (s.f v.value) d.value.sign := by
  have hmem := (at_encloses h).value (Bounds.mem_point v)
  exact ⟨fun hs => Bounds.sign_eq_one hs hmem, fun hs => Bounds.sign_eq_neg_one hs hmem⟩

/-- A bracket inside the domain with certified opposite signs at its ends. -/
structure Bracket (s : Solver) (leftSign : ℤ) (b : Bounds) : Prop where
  lo_inDomain : s.InDomain b.lo
  hi_inDomain : s.InDomain b.hi
  left : HasSign (s.f b.lo.value) leftSign
  right : HasSign (s.f b.hi.value) (-leftSign)

/-- What an accepted bracket certifies. -/
structure Refined (s : Solver) (leftSign : ℤ) (bracket residual : Bounds) : Prop where
  signs : s.Bracket leftSign bracket
  encloses : ∃ slopes, (Dual.mk residual slopes).Encloses bracket.set s.f
  representable : context.Representable residual.lo.value ∧ context.Representable residual.hi.value
  accepted : ∃ tolerance, s.tolerance = .ok tolerance ∧ s.accepts tolerance bracket residual = .ok true

/-- An accepted bracket is narrow as computed, and its residual lies within the tolerance. -/
theorem accepts_eq_true {tolerance : Decimal} {bracket residual : Bounds}
    (hrepresentable : context.Representable residual.lo.value ∧ context.Representable residual.hi.value)
    (h : s.accepts tolerance bracket residual = .ok true) :
    (∃ width, context.sub bracket.hi bracket.lo = .ok width ∧ width ≤ s.spec.widthTolerance) ∧
      |residual.lo.value| ≤ tolerance.value ∧ |residual.hi.value| ≤ tolerance.value := by
  have habs : ∀ {a r : Decimal}, context.Representable a.value → context.abs a = .ok r → r.value = |a.value| := by
    intro a r ha hr
    have hmagnitude : context.Representable |a.value| := by
      rcases abs_choice a.value with heq | heq
      · rwa [heq]
      · rw [heq]
        exact ha.neg
    exact (Context.abs_rounds (by decide) hr).exact hmagnitude
  unfold accepts at h
  obtain ⟨width, hwidth, h⟩ := exists_of_bind_eq_ok h
  split at h
  · rename_i hnarrow
    obtain ⟨lo, hlo, h⟩ := exists_of_bind_eq_ok h
    obtain ⟨hi, hhi, h⟩ := exists_of_bind_eq_ok h
    have hmax : Decimal.maximum lo hi ≤ tolerance := by simpa [pure, Except.pure] using h
    rw [Decimal.le_iff_value, Decimal.value_maximum, max_le_iff,
      habs hrepresentable.1 (raising_eq_ok.mp hlo), habs hrepresentable.2 (raising_eq_ok.mp hhi)] at hmax
    exact ⟨⟨width, raising_eq_ok.mp hwidth, hnarrow⟩, hmax⟩
  · simp [pure, Except.pure] at h

/-- A turn of the bisection loop keeps a bracket of opposite signs and returns an accepted one. -/
theorem refineTurn_refined {tolerance : Decimal} {leftSign : ℤ} (htol : s.tolerance = .ok tolerance)
    (hsign : leftSign = 1 ∨ leftSign = -1) {b : Bounds} (hb : s.Bracket leftSign b) {turn : RefineTurn}
    (h : s.refineTurn tolerance leftSign b c = (.ok turn, c')) :
    (∀ bracket residual, turn = .done (some (bracket, residual)) → s.Refined leftSign bracket residual) ∧
      ∀ next, turn = .again next → s.Bracket leftSign next := by
  unfold refineTurn at h
  rw [SolverM.modify_bind] at h
  obtain ⟨result, c₁, hresult, h⟩ := SolverM.exists_of_bind h
  obtain ⟨accepted, haccepted, h⟩ := SolverM.exists_of_numeric_bind h
  split at h
  · rename_i htrue
    subst htrue
    cases h
    refine ⟨?_, by rintro next ⟨⟩⟩
    rintro bracket residual ⟨⟩
    exact ⟨hb, ⟨result.derivative, at_encloses hresult⟩, at_representable hresult, tolerance, htol, haccepted⟩
  obtain ⟨mid, hmid, h⟩ := SolverM.exists_of_numeric_bind h
  replace hmid := hb.lo_inDomain.midpoint hb.hi_inDomain hmid
  split at h
  · cases h
    exact ⟨by rintro _ _ ⟨⟩, by rintro _ ⟨⟩⟩
  obtain ⟨atMid, c₂, hatMid, h⟩ := SolverM.exists_of_bind h
  have hmidSign := at_point_sign hatMid
  dsimp only at h
  split at h
  · rename_i hne
    cases h
    refine ⟨by rintro _ _ ⟨⟩, ?_⟩
    rintro next ⟨⟩
    -- the half with opposite signs is kept
    split
    · rename_i heq
      exact ⟨hmid, hb.hi_inDomain, heq ▸ hmidSign, hb.right⟩
    · rename_i hneq
      have hopposite : -leftSign = atMid.value.sign := by
        rcases atMid.value.sign_cases with h1 | h1 | h1 <;> rcases hsign with h2 | h2 <;> omega
      exact ⟨hb.lo_inDomain, hmid, hb.left, hopposite ▸ hmidSign⟩
  · -- an uncertified midpoint is enclosed by two certified quarter points
    obtain ⟨low, hlow, h⟩ := SolverM.exists_of_numeric_bind h
    obtain ⟨high, hhigh, h⟩ := SolverM.exists_of_numeric_bind h
    obtain ⟨atLow, c₃, hatLow, h⟩ := SolverM.exists_of_bind h
    obtain ⟨atHigh, c₄, hatHigh, h⟩ := SolverM.exists_of_bind h
    split at h
    · rename_i hsigns
      cases h
      refine ⟨by rintro _ _ ⟨⟩, ?_⟩
      rintro next ⟨⟩
      exact
        { lo_inDomain := hb.lo_inDomain.midpoint hmid hlow
          hi_inDomain := hmid.midpoint hb.hi_inDomain hhigh
          left := hsigns.1 ▸ at_point_sign hatLow
          right := hsigns.2 ▸ at_point_sign hatHigh }
    · cases h
      exact ⟨by rintro _ _ ⟨⟩, by rintro _ ⟨⟩⟩

/-- The bisection loop returns an accepted bracket of opposite signs. -/
theorem refineLoop_refined {tolerance : Decimal} {leftSign : ℤ} (htol : s.tolerance = .ok tolerance)
    (hsign : leftSign = 1 ∨ leftSign = -1) (rounds : ℕ) {b : Bounds} (hb : s.Bracket leftSign b)
    {bracket residual : Bounds}
    (h : s.refineLoop tolerance leftSign rounds b c = (.ok (some (bracket, residual)), c')) :
    s.Refined leftSign bracket residual := by
  induction rounds generalizing b c with
  | zero => cases h
  | succ rounds ih =>
    unfold refineLoop at h
    obtain ⟨turn, c₁, hturn, h⟩ := SolverM.exists_of_bind h
    obtain ⟨hdone, hagain⟩ := refineTurn_refined htol hsign hb hturn
    cases turn with
    | done result =>
      cases h
      exact hdone _ _ rfl
    | again next => exact ih (hagain next rfl) h

/-- Refinement returns an accepted bracket of opposite signs. -/
theorem refine_refined {leftSign : ℤ} (hsign : leftSign = 1 ∨ leftSign = -1) {b : Bounds}
    (hb : s.Bracket leftSign b) {bracket residual : Bounds}
    (h : s.refine b leftSign c = (.ok (some (bracket, residual)), c')) :
    s.Refined leftSign bracket residual := by
  unfold refine at h
  obtain ⟨tolerance, htol, h⟩ := SolverM.exists_of_numeric_bind h
  exact refineLoop_refined htol hsign _ hb h

/-- Slopes of a certified sign are all positive or all negative. -/
theorem slopes_one_signed {b : Bounds} (h : b.sign ≠ 0) : (∀ d ∈ b.set, 0 < d) ∨ ∀ d ∈ b.set, d < 0 := by
  rcases b.sign_cases with h1 | h1 | h1
  · exact Or.inl fun d hd => Bounds.sign_eq_one h1 hd
  · exact Or.inr fun d hd => Bounds.sign_eq_neg_one h1 hd
  · exact absurd h1 h

/-- A certified sign of a value enclosure excludes zeros. -/
theorem ne_zero_of_sign {b : Bounds} (h : b.sign ≠ 0) {x : ℝ} (hx : x ∈ b.set) : x ≠ 0 :=
  (slopes_one_signed h).elim (fun hpos => (hpos x hx).ne') fun hneg => (hneg x hx).ne

/-- Equal certified signs at the ends of a one-signed region exclude zeros between them. -/
theorem ne_zero_of_ends {region : Bounds} {D : Set ℝ} {g : ℝ → ℝ} {sign : ℤ} (hslopes : SlopesIn region.set g D)
    (hD : (∀ d ∈ D, 0 < d) ∨ ∀ d ∈ D, d < 0) (hsign : sign = 1 ∨ sign = -1)
    (hleft : HasSign (g region.lo.value) sign) (hright : HasSign (g region.hi.value) sign) :
    ∀ x ∈ region.set, g x ≠ 0 := by
  intro x hx
  have hordered : (region.lo.value : ℝ) ≤ region.hi.value := hx.1.trans hx.2
  have hlo : (region.lo.value : ℝ) ∈ region.set := ⟨le_rfl, hordered⟩
  have hhi : (region.hi.value : ℝ) ∈ region.set := ⟨hordered, le_rfl⟩
  -- the value at `x` lies between the values at the ends
  have hbetween : min (g region.lo.value) (g region.hi.value) ≤ g x ∧
      g x ≤ max (g region.lo.value) (g region.hi.value) := by
    rcases hD with hpos | hneg
    · have hmono := (hslopes.strictMonoOn hpos).monotoneOn
      exact ⟨(min_le_left _ _).trans (hmono hlo hx hx.1), (hmono hx hhi hx.2).trans (le_max_right _ _)⟩
    · have hanti := (hslopes.strictAntiOn hneg).antitoneOn
      exact ⟨(min_le_right _ _).trans (hanti hx hhi hx.2), (hanti hlo hx hx.1).trans (le_max_left _ _)⟩
  rcases hsign with hs | hs
  · exact (lt_of_lt_of_le (lt_min (hleft.1 hs) (hright.1 hs)) hbetween.1).ne'
  · exact (lt_of_le_of_lt hbetween.2 (max_lt (hleft.2 hs) (hright.2 hs))).ne

/-- What a region with a unique root certifies. -/
structure UniqueRoot (s : Solver) (region root residual : Bounds) : Prop where
  injective : InjOn s.f region.set
  continuous : ContinuousOn s.f region.set
  opposite : s.f region.lo.value < 0 ∧ 0 < s.f region.hi.value ∨
    0 < s.f region.lo.value ∧ s.f region.hi.value < 0
  refined : ∃ leftSign, (leftSign = 1 ∨ leftSign = -1) ∧ s.Refined leftSign root residual

/-- What a disposition with its root says about a region. -/
inductive Certifies (s : Solver) (region : Bounds) : Disposition → Option (Bounds × Bounds) → Prop where
  | excluded (h : ∀ x ∈ region.set, s.f x ≠ 0) : s.Certifies region .excluded none
  | unresolved : s.Certifies region .unresolved none
  | uniqueRoot {root residual : Bounds} (h : s.UniqueRoot region root residual) :
    s.Certifies region .uniqueRoot (some (root, residual))

/-- An inspection certifies its disposition. -/
theorem inspect_certifies {current : Bounds} {seen : Inspection} (hlo : s.InDomain current.lo)
    (hhi : s.InDomain current.hi) (h : s.inspect current c = (.ok seen, c')) :
    s.Certifies current seen.disposition seen.root := by
  unfold inspect at h
  obtain ⟨result, c₁, hresult, h⟩ := SolverM.exists_of_bind h
  have henclosed := at_encloses hresult
  split at h
  · rename_i hsign
    cases h
    exact .excluded fun x hx => ne_zero_of_sign hsign (henclosed.value hx)
  split at h
  · rename_i hslope
    have hD := slopes_one_signed hslope
    obtain ⟨left, c₂, hleft, h⟩ := SolverM.exists_of_bind h
    obtain ⟨right, c₃, hright, h⟩ := SolverM.exists_of_bind h
    replace hleft := at_point_sign hleft
    replace hright := at_point_sign hright
    dsimp only at h
    split at h
    · rename_i hsame
      cases h
      refine .excluded (ne_zero_of_ends henclosed.slopes hD ?_ hleft (hsame.2 ▸ hright))
      rcases left.value.sign_cases with h1 | h1 | h1
      · exact Or.inl h1
      · exact Or.inr h1
      · exact absurd h1 hsame.1
    · split at h
      · rename_i hopposite
        obtain ⟨refined, c₄, hrefined, h⟩ := SolverM.exists_of_bind h
        have hsigns : (left.value.sign = 1 ∨ left.value.sign = -1) ∧ right.value.sign = -left.value.sign := by
          rcases Int.mul_eq_neg_one_iff_eq_one_or_neg_one.mp hopposite with ⟨h1, h2⟩ | ⟨h1, h2⟩
          · exact ⟨Or.inl h1, by rw [h1, h2]⟩
          · exact ⟨Or.inr h1, by rw [h1, h2, neg_neg]⟩
        have hbracket : s.Bracket left.value.sign current := ⟨hlo, hhi, hleft, hsigns.2 ▸ hright⟩
        split at h
        · rename_i root residual
          cases h
          refine .uniqueRoot
            { injective := henclosed.slopes.injOn hD
              continuous := henclosed.slopes.continuousOn
              opposite := ?_
              refined := ⟨_, hsigns.1, refine_refined hsigns.1 hbracket hrefined⟩ }
          rcases hsigns.1 with h1 | h1
          · exact Or.inr ⟨hbracket.left.1 h1, hbracket.right.2 (by rw [h1])⟩
          · exact Or.inl ⟨hbracket.left.2 h1, hbracket.right.1 (by rw [h1]; rfl)⟩
        · cases h
          exact .unresolved
      · cases h
        exact .unresolved
  · cases h
    exact .unresolved

end Solver

end EquityEval.Valuation
