import EquityEval.Valuation.Representation
import EquityEval.Valuation.Sensitivity

/-!
# Patched forecasts

A patch writes a parameter into the slots that it fills. Writing the value that a scenario already has changes representations at
most, and writing the solved parameter gives the slots that `resolved` computes for it.
-/

namespace EquityEval.Valuation

open DecimalArithmetic

/-! ### Resolved slots -/

/-- Rounded arithmetic reads values only. -/
theorem rounded_congr : Simulates (MonadRelation.exceptExcept DecimalException) Decimal.NumEq (rounded context) (rounded context) where
  const d := .refl d
  add := context.add_congr
  sub := context.sub_congr
  mul := context.mul_congr
  div := context.div_congr
  positive h := Alike.ok (h.maximum (.refl _))

/-- Rounded arithmetic of the forward model reads values only where the powers do. -/
theorem forward_congr {power : Decimal → ℕ → Except DecimalException Decimal}
    (hpower : ∀ {a b : Decimal}, a.NumEq b → ∀ n, Alike Decimal.NumEq (power a n) (power b n)) :
    ForwardSimulates (MonadRelation.exceptExcept DecimalException) Decimal.NumEq (forward power) (forward power) where
  toSimulates := rounded_congr
  power := hpower
  exceeds h d := decide_eq_decide.mpr ((Decimal.NumEq.refl d).lt_iff h)

/-- Faded margins read the value of the terminal margin only. -/
theorem fadedMargins_congr (spec : SolveSpecFields) {a b : Decimal} (h : a.NumEq b) :
    Alike (List.Forall₂ Decimal.NumEq) (fadedMargins (rounded context) spec a) (fadedMargins (rounded context) spec b) := by
  let M := MonadRelation.exceptExcept DecimalException
  refine Alike.mapM fun w _ => ?_
  refine M.bind (context.sub_congr (.refl _) (.refl _)) fun _ _ h1 => ?_
  refine M.bind (context.mul_congr h1 (.refl _)) fun _ _ h2 => ?_
  exact M.bind (context.mul_congr (.refl _) h) fun _ _ h3 => context.add_congr h2 h3

/-- A faded margin is a rounded sum. -/
theorem digits_fadedMargins {spec : SolveSpecFields} {a m : Decimal} {l : List Decimal}
    (h : fadedMargins (rounded context) spec a = .ok l) (hm : m ∈ l) : m.digits ≤ 80 := by
  obtain ⟨w, _, hw⟩ := exists_of_mem_mapM h hm
  iterate 3 obtain ⟨_, _, hw⟩ := exists_of_bind_eq_ok hw
  exact context.digits_add (by decide) hw

namespace ScenarioFields

/-- The margins of a resolved scenario. -/
def marginsOf (s : ScenarioFields) (parameter : Decimal) : Except DecimalException (List Decimal) :=
  if s.solve.solveVariable = .terminalOperatingMargin then fadedMargins (rounded context) s.solve.toSolveSpecFields parameter
  else .ok (s.margins.getD [])

/-- The slots of a resolved scenario with given margins. -/
def filled (s : ScenarioFields) (parameter : Decimal) (margins : List Decimal) : ForecastOf Decimal where
  revenueAnchor := s.revenueAnchor
  growth := if s.solve.solveVariable = .revenueCagr then List.replicate s.taxes.length parameter else s.growth.getD []
  margins
  taxes := s.taxes
  reinvestment :=
    if s.solve.solveVariable = .reinvestmentToRevenue then List.replicate s.taxes.length parameter else s.reinvestment.getD []
  wacc := s.wacc
  riskFree := s.riskFree
  terminalGrowth := s.terminalGrowth
  terminalMargin := if s.solve.solveVariable = .terminalOperatingMargin then parameter else s.terminalMargin.getD (.ofInt 0)
  terminalTax := s.terminalTax
  terminalRoic := s.terminalRoic

end ScenarioFields

variable {s : ScenarioFields} {f g : ForecastOf Decimal} {a b x : Decimal} {p : AxisParameter}

/-- A scenario resolves to its own slots with the margins that it fades. -/
theorem resolvedValues_eq (s : ScenarioFields) (a : Decimal) :
    resolvedValues (rounded context) s a = (s.marginsOf a).map (s.filled a) := by
  have hid : ∀ l : List Decimal, l.map (rounded context).const = l := List.map_id
  unfold resolvedValues ScenarioFields.marginsOf ScenarioFields.filled
  by_cases hv : s.solve.solveVariable = .terminalOperatingMargin
  · simp only [hid, hv, if_true]
    change (fadedMargins (rounded context) s.solve.toSolveSpecFields a >>= _) = _
    cases fadedMargins (rounded context) s.solve.toSolveSpecFields a <;> rfl
  · simp only [hid, hv, if_false]
    rfl

/-- A resolved scenario has faded its margins. -/
theorem resolvedValues_eq_ok :
    resolvedValues (rounded context) s a = .ok f ↔ ∃ margins, s.marginsOf a = .ok margins ∧ f = s.filled a margins := by
  rw [resolvedValues_eq]
  cases s.marginsOf a with
  | error e => simp [Except.map]
  | ok margins => simp [Except.map, eq_comm]

/-- The margins of a resolved scenario read the value of the parameter only. -/
theorem marginsOf_congr (s : ScenarioFields) (h : a.NumEq b) :
    Alike (List.Forall₂ Decimal.NumEq) (s.marginsOf a) (s.marginsOf b) := by
  unfold ScenarioFields.marginsOf
  split
  · exact fadedMargins_congr _ h
  · exact Alike.ok (List.forall₂_same.mpr fun m _ => .refl m)

/-- Copies of numerically equal values are numerically equal. -/
theorem replicate_congr (n : ℕ) (h : a.NumEq b) : List.Forall₂ Decimal.NumEq (List.replicate n a) (List.replicate n b) := by
  induction n with
  | zero => exact .nil
  | succ n ih => exact .cons h ih

/-- Numerically equal parameters and margins fill slots that are numerically equal. -/
theorem filled_congr (s : ScenarioFields) (h : a.NumEq b) {margins margins' : List Decimal}
    (hmargins : List.Forall₂ Decimal.NumEq margins margins') : (s.filled a margins).Related Decimal.NumEq (s.filled b margins') := by
  have hlist : ∀ l : List Decimal, List.Forall₂ Decimal.NumEq l l := fun l => List.forall₂_same.mpr fun d _ => .refl d
  constructor
  case margins => exact hmargins
  case growth | reinvestment =>
    dsimp only [ScenarioFields.filled]
    split
    · exact replicate_congr _ h
    · exact hlist _
  case taxes => exact hlist _
  case terminalMargin =>
    dsimp only [ScenarioFields.filled]
    split
    · exact h
    · exact .refl _
  all_goals exact .refl _

/-- Numerically equal parameters resolve to numerically equal slots. -/
theorem resolvedValues_congr (s : ScenarioFields) (h : a.NumEq b) (hg : resolvedValues (rounded context) s b = .ok g) :
    ∃ f, resolvedValues (rounded context) s a = .ok f ∧ f.Related Decimal.NumEq g := by
  obtain ⟨margins, hmargins, rfl⟩ := resolvedValues_eq_ok.mp hg
  have hsymm : b.NumEq a := Eq.symm h
  obtain ⟨margins', hmargins', hrelated⟩ := (marginsOf_congr s hsymm).exists_of_ok hmargins
  exact ⟨_, resolvedValues_eq_ok.mpr ⟨margins', hmargins', rfl⟩,
    filled_congr s h (hrelated.flip.imp fun _ _ hd => Eq.symm hd)⟩

/-! ### Patches -/

/-- Patches read values only. -/
theorem changed_congr (hfg : f.Related Decimal.NumEq g) (h : a.NumEq b) (p : AxisParameter) (s : ScenarioFields) :
    Alike (ForecastOf.Related Decimal.NumEq) (changed f p a s) (changed g p b s) := by
  cases p with
  | revenueCagr => exact Alike.ok { hfg with growth := replicate_congr _ h }
  | reinvestmentToRevenue => exact Alike.ok { hfg with reinvestment := replicate_congr _ h }
  | wacc => exact Alike.ok { hfg with wacc := h }
  | terminalGrowth => exact Alike.ok { hfg with terminalGrowth := h }
  | terminalOperatingMargin =>
    unfold changed
    dsimp only
    split
    · refine (MonadRelation.exceptExcept DecimalException).bind (fadedMargins_congr _ h) fun _ _ hmargins => ?_
      exact Alike.ok { hfg with margins := hmargins, terminalMargin := h }
    · exact Alike.ok { hfg with terminalMargin := h }

/-- Writing the solved parameter into the slots of a resolved scenario resolves it anew. -/
theorem changed_solved (h : resolvedValues (rounded context) s a = .ok f) (b : Decimal) :
    changed f s.solve.solveVariable.parameter b s = resolvedValues (rounded context) s b := by
  obtain ⟨margins, hmargins, rfl⟩ := resolvedValues_eq_ok.mp h
  rw [resolvedValues_eq]
  unfold ScenarioFields.marginsOf at hmargins ⊢
  cases hv : s.solve.solveVariable with
  | terminalOperatingMargin =>
    unfold changed
    simp only [Variable.parameter, hv, if_true]
    cases fadedMargins (rounded context) s.solve.toSolveSpecFields b with
    | error e => rfl
    | ok faded =>
      simp only [Except.map, ScenarioFields.filled, hv, reduceCtorEq, if_false, if_true]
      rfl
  | revenueCagr | reinvestmentToRevenue =>
    simp only [hv, reduceCtorEq, if_false] at hmargins ⊢
    rw [hmargins]
    simp only [changed, Variable.parameter, Except.map, ScenarioFields.filled, hv, reduceCtorEq, if_false, if_true]

/-! ### Values that a scenario already has -/

/-- The values that a scenario has for a parameter once it is solved. -/
def ScenarioFields.ownValues (s : ScenarioFields) (solved : Decimal) : AxisParameter → List Decimal
  | .wacc => [s.wacc]
  | .terminalGrowth => [s.terminalGrowth]
  | .revenueCagr => s.growth.getD [solved]
  | .terminalOperatingMargin => [s.terminalMargin.getD solved]
  | .reinvestmentToRevenue => s.reinvestment.getD [solved]

/-- The scenario already has the value for the parameter. -/
def ScenarioFields.Holds (s : ScenarioFields) (solved : Decimal) (p : AxisParameter) (x : Decimal) : Prop :=
  ∀ v ∈ s.ownValues solved p, v.NumEq x

instance (s : ScenarioFields) (solved : Decimal) (p : AxisParameter) (x : Decimal) : Decidable (s.Holds solved p x) := by
  unfold ScenarioFields.Holds
  infer_instance

/-- Exactly the slots of the solved variable are open. -/
theorem Scenario.isNone_slots (scenario : Scenario) :
    scenario.growth.isNone = decide (scenario.solve.solveVariable = .revenueCagr) ∧
      scenario.reinvestment.isNone = decide (scenario.solve.solveVariable = .reinvestmentToRevenue) ∧
      scenario.margins.isNone = decide (scenario.solve.solveVariable = .terminalOperatingMargin) ∧
      scenario.terminalMargin.isNone = decide (scenario.solve.solveVariable = .terminalOperatingMargin) := by
  have haccepted := scenario.accepted
  simp only [ScenarioFields.slots, boundedDecimals, refuseIf_bind_eq_ok, not_or, not_not, ne_eq] at haccepted
  exact haccepted.2.2.1

/-- A parameter that is not solved has its values whatever the solution is. -/
theorem Scenario.ownValues_of_ne {scenario : Scenario} (hp : scenario.solve.solveVariable.parameter ≠ p) (a b : Decimal) :
    scenario.ownValues a p = scenario.ownValues b p := by
  obtain ⟨hgrowth, hreinvestment, _, hmargin⟩ := scenario.isNone_slots
  have hgiven : ∀ {α : Type} {o : Option α} (v : Variable), v.parameter = p →
      o.isNone = decide (scenario.solve.solveVariable = v) → ∀ d d' : α, o.getD d = o.getD d' := by
    intro α o v hv ho d d'
    have hne : scenario.solve.solveVariable ≠ v := fun h => hp (h ▸ hv)
    cases o with
    | none => exact absurd (of_decide_eq_true ho.symm) hne
    | some _ => rfl
  cases p with
  | wacc | terminalGrowth => rfl
  | revenueCagr => exact hgiven _ rfl hgrowth _ _
  | terminalOperatingMargin => exact congrArg ([·]) (hgiven _ rfl hmargin _ _)
  | reinvestmentToRevenue => exact hgiven _ rfl hreinvestment _ _

/-- Entries of a vector that the parameter fills are values of the scenario. -/
theorem mem_getD_of_filled {scenario : Scenario} {o : Option (List Decimal)} {v : Variable} {n : ℕ} {d : Decimal}
    (ho : o.isNone = decide (scenario.solve.solveVariable = v))
    (hd : d ∈ if scenario.solve.solveVariable = v then List.replicate n a else o.getD []) : d ∈ o.getD [a] := by
  cases o with
  | none =>
    rw [if_pos (of_decide_eq_true ho.symm)] at hd
    exact List.mem_singleton.mpr (List.eq_of_mem_replicate hd)
  | some l =>
    rw [if_neg (of_decide_eq_false ho.symm)] at hd
    exact hd

/-- Copies of one value are a list of as many entries that all equal it. -/
theorem replicate_related {l : List Decimal} (h : ∀ v ∈ l, v.NumEq x) : List.Forall₂ Decimal.NumEq (List.replicate l.length x) l := by
  induction l with
  | nil => exact .nil
  | cons v rest ih =>
    exact .cons (Eq.symm (h v List.mem_cons_self)) (ih fun w hw => h w (List.mem_cons_of_mem _ hw))

/-- Writing values that the scenario already has changes representations at most. -/
theorem changed_own {scenario : Scenario} (hg : resolvedValues (rounded context) scenario.toScenarioFields a = .ok g)
    (hyears : g.growth.length = scenario.taxes.length ∧ g.reinvestment.length = scenario.taxes.length)
    (hfg : f.Related Decimal.NumEq g) (hx : scenario.Holds a p x) :
    ∃ f', changed f p x scenario.toScenarioFields = .ok f' ∧ f'.Related Decimal.NumEq g := by
  obtain ⟨hgrowth, hreinvestment, _, hmargin⟩ := scenario.isNone_slots
  obtain ⟨margins, hmargins, rfl⟩ := resolvedValues_eq_ok.mp hg
  cases p with
  | wacc => exact ⟨_, rfl, { hfg with wacc := Eq.symm (hx _ List.mem_cons_self) }⟩
  | terminalGrowth => exact ⟨_, rfl, { hfg with terminalGrowth := Eq.symm (hx _ List.mem_cons_self) }⟩
  | revenueCagr =>
    refine ⟨_, rfl, { hfg with growth := ?_ }⟩
    dsimp only
    rw [← hyears.1]
    exact replicate_related fun v hv => hx v (mem_getD_of_filled hgrowth hv)
  | reinvestmentToRevenue =>
    refine ⟨_, rfl, { hfg with reinvestment := ?_ }⟩
    dsimp only
    rw [← hyears.2]
    exact replicate_related fun v hv => hx v (mem_getD_of_filled hreinvestment hv)
  | terminalOperatingMargin =>
    have hown := hx _ (List.mem_singleton.mpr rfl)
    unfold changed
    dsimp only
    by_cases hv : scenario.solve.solveVariable = .terminalOperatingMargin
    · have hnone : scenario.terminalMargin = none := Option.isNone_iff_eq_none.mp (hmargin.trans (decide_eq_true hv))
      rw [hnone, Option.getD_none] at hown
      rw [ScenarioFields.marginsOf, if_pos hv] at hmargins
      obtain ⟨faded, hfaded, hrelated⟩ := (fadedMargins_congr scenario.solve.toSolveSpecFields hown).exists_of_ok hmargins
      rw [if_pos hv, hfaded]
      refine ⟨_, rfl, { hfg with margins := hrelated.flip.imp fun _ _ hd => Eq.symm hd, terminalMargin := ?_ }⟩
      simp only [ScenarioFields.filled, hv, if_true]
      exact Eq.symm hown
    · cases hd : scenario.terminalMargin with
      | none =>
        rw [hd] at hmargin
        exact absurd (of_decide_eq_true hmargin.symm) hv
      | some d =>
        rw [hd, Option.getD_some] at hown
        rw [if_neg hv]
        refine ⟨_, rfl, { hfg with terminalMargin := ?_ }⟩
        simp only [ScenarioFields.filled, hv, if_false, hd, Option.getD_some]
        exact Eq.symm hown

/-! ### Validation -/

/-- The internal bounds of the numbers of a forecast. -/
def Fits (d : Decimal) : Prop := |d.adjusted| ≤ 100 ∧ d.digits ≤ 80

/-- Bounded inputs fit. -/
theorem fits_of_bounded {d : Decimal} (h : Bounded d) : Fits d := ⟨h.2.1, h.1.trans (by norm_num)⟩

/-- A number that is not zero fits where one that is numerically equal to it does. -/
theorem Fits.congr {d d' : Decimal} (h : Fits d) (heq : d'.NumEq d) (hne : d.value ≠ 0) (hdigits : d'.digits ≤ 80) : Fits d' :=
  ⟨(heq.adjusted_eq (heq ▸ hne)) ▸ h.1, hdigits⟩

/-- Numerically equal lists meet a condition on values together. -/
theorem exists_mem_congr {l l' : List Decimal} (h : List.Forall₂ Decimal.NumEq l l') {P : Decimal → Prop}
    (hP : ∀ {d d' : Decimal}, d.NumEq d' → (P d ↔ P d')) : (∃ d ∈ l, P d) ↔ ∃ d ∈ l', P d := by
  induction h with
  | nil => rfl
  | cons hd _ ih => simp only [List.exists_mem_cons_iff, hP hd, ih]

/-- Every number of a forecast meets a condition. -/
structure ForecastOf.Every (P : Decimal → Prop) (f : ForecastOf Decimal) : Prop where
  revenueAnchor : P f.revenueAnchor
  growth : ∀ v ∈ f.growth, P v
  margins : ∀ v ∈ f.margins, P v
  taxes : ∀ v ∈ f.taxes, P v
  reinvestment : ∀ v ∈ f.reinvestment, P v
  wacc : P f.wacc
  riskFree : P f.riskFree
  terminalGrowth : P f.terminalGrowth
  terminalMargin : P f.terminalMargin
  terminalTax : P f.terminalTax
  terminalRoic : P f.terminalRoic

/-- The numbers of a forecast are those of its slots. -/
theorem every_iff {P : Decimal → Prop} : f.Every P ↔ ∀ v ∈ f.numbers, P v := by
  simp only [ForecastOf.numbers, List.mem_append, List.mem_cons, List.not_mem_nil, or_false, or_imp, forall_and, forall_eq]
  constructor
  · rintro ⟨hanchor, hgrowth, hmargins, htaxes, hreinvestment, hwacc, hriskFree, htg, htm, htax, hroic⟩
    exact ⟨⟨⟨⟨⟨hanchor, hgrowth⟩, hmargins⟩, htaxes⟩, hreinvestment⟩, hwacc, hriskFree, htg, htm, htax, hroic⟩
  · rintro ⟨⟨⟨⟨⟨hanchor, hgrowth⟩, hmargins⟩, htaxes⟩, hreinvestment⟩, hwacc, hriskFree, htg, htm, htax, hroic⟩
    exact ⟨hanchor, hgrowth, hmargins, htaxes, hreinvestment, hwacc, hriskFree, htg, htm, htax, hroic⟩

/-- The domain check reads values, once the numbers fit. -/
theorem domains_congr (hfg : f.Related Decimal.NumEq g) (hg : g.domains = .ok ()) (hf : f.Every Fits) :
    f.domains = .ok () := by
  have hself := Decimal.NumEq.refl
  have hminimum := (hfg.riskFree.minimum hfg.wacc).minimum hfg.terminalRoic
  simp only [ForecastOf.domains, refuseIf_bind_eq_ok, refuseIf_eq_ok] at hg ⊢
  obtain ⟨-, hlengths, hpositive, hgrowth, hmargin, hvectors, htaxes⟩ := hg
  refine ⟨?_, ?_, ?_, ?_, ?_, ?_, ?_⟩
  · rintro ⟨v, hv, hout⟩
    rcases hout with hout | hout
    · exact absurd (every_iff.mp hf v hv).1 (not_le.mpr hout)
    · exact absurd (every_iff.mp hf v hv).2 (not_le.mpr hout)
  · simpa only [List.mem_cons, List.not_mem_nil, or_false, exists_eq_or_imp, exists_eq_left, hfg.growth.length_eq,
      hfg.margins.length_eq, hfg.taxes.length_eq, hfg.reinvestment.length_eq] using hlengths
  · rwa [hfg.revenueAnchor.le_iff (hself _), hfg.wacc.le_iff (hself _), hfg.terminalRoic.le_iff (hself _)]
  · rwa [(hself _).le_iff hfg.terminalGrowth, hfg.terminalGrowth.lt_iff hminimum]
  · rwa [(hself _).lt_iff hfg.terminalMargin, hfg.terminalMargin.le_iff (hself _), (hself _).le_iff hfg.terminalTax,
      hfg.terminalTax.lt_iff (hself _)]
  · rwa [exists_mem_congr hfg.growth fun h => h.le_iff (hself _), exists_mem_congr hfg.reinvestment fun h => h.lt_iff (hself _)]
  · rwa [exists_mem_congr hfg.taxes fun h => not_congr (and_congr ((hself _).le_iff h) (h.le_iff (hself _)))]

/-- The new numbers of a patch are the parameter and the margins that fade to it. -/
theorem every_changed {P : Decimal → Prop} {f' : ForecastOf Decimal} (hf : f.Every P) (hx : P x)
    (hfade : p = .terminalOperatingMargin → s.solve.solveVariable = .terminalOperatingMargin → ∀ margins,
      fadedMargins (rounded context) s.solve.toSolveSpecFields x = .ok margins → ∀ d ∈ margins, P d)
    (h : changed f p x s = .ok f') : f'.Every P := by
  have hcopies : ∀ v ∈ List.replicate s.taxes.length x, P v := fun v hv => List.eq_of_mem_replicate hv ▸ hx
  cases p with
  | wacc =>
    cases h
    exact { hf with wacc := hx }
  | terminalGrowth =>
    cases h
    exact { hf with terminalGrowth := hx }
  | revenueCagr =>
    cases h
    exact { hf with growth := hcopies }
  | reinvestmentToRevenue =>
    cases h
    exact { hf with reinvestment := hcopies }
  | terminalOperatingMargin =>
    unfold changed at h
    dsimp only at h
    by_cases hv : s.solve.solveVariable = .terminalOperatingMargin
    · rw [if_pos hv] at h
      obtain ⟨margins, hmargins, h⟩ := exists_of_bind_eq_ok h
      cases h
      exact { hf with margins := hfade rfl hv margins hmargins, terminalMargin := hx }
    · rw [if_neg hv] at h
      cases h
      exact { hf with terminalMargin := hx }

/-- The new numbers of a patch are new in every forecast that is patched alike. -/
theorem every_changed_alike {P : Decimal → Prop} {f' g' : ForecastOf Decimal} (hf : f.Every P) (hg' : g'.Every P)
    (h : changed f p x s = .ok f') (h' : changed g p x s = .ok g') : f'.Every P := by
  cases p with
  | wacc =>
    cases h
    cases h'
    exact { hf with wacc := hg'.wacc }
  | terminalGrowth =>
    cases h
    cases h'
    exact { hf with terminalGrowth := hg'.terminalGrowth }
  | revenueCagr =>
    cases h
    cases h'
    exact { hf with growth := hg'.growth }
  | reinvestmentToRevenue =>
    cases h
    cases h'
    exact { hf with reinvestment := hg'.reinvestment }
  | terminalOperatingMargin =>
    unfold changed at h h'
    dsimp only at h h'
    by_cases hv : s.solve.solveVariable = .terminalOperatingMargin
    · rw [if_pos hv] at h h'
      obtain ⟨margins, hmargins, h⟩ := exists_of_bind_eq_ok h
      obtain ⟨margins', hmargins', h'⟩ := exists_of_bind_eq_ok h'
      cases hmargins.symm.trans hmargins'
      cases h
      cases h'
      exact { hf with margins := hg'.margins, terminalMargin := hg'.terminalMargin }
    · rw [if_neg hv] at h h'
      cases h
      cases h'
      exact { hf with terminalMargin := hg'.terminalMargin }

end EquityEval.Valuation
