import EquityEval.Arithmetic.Congruence
import EquityEval.Valuation.Solver
import Mathlib.Data.List.Forall2

/-!
# The model reads values only

A forecast with numerically equal slots has numerically equal outputs and residuals: the forward model and the solver's residual
are programs over a number system, and every system of this development respects numerical equality.
-/

namespace EquityEval.Valuation

open DecimalArithmetic

/-! ### Bounds and dual numbers -/

namespace Bounds

/-- Numerically equal ends. -/
def NumEq (a b : Bounds) : Prop := a.lo.NumEq b.lo ∧ a.hi.NumEq b.hi

variable {a a' b b' : Bounds}

/-- Bounds are numerically equal to themselves. -/
theorem NumEq.refl (a : Bounds) : a.NumEq a := ⟨rfl, rfl⟩

/-- Sums of bounds read values only. -/
theorem add_congr (ha : a.NumEq a') (hb : b.NumEq b') : Alike NumEq (a.add b) (a'.add b') := by
  let M := MonadRelation.exceptExcept NumericError
  refine M.bind ((floorContext.add_congr ha.1 hb.1).mapError _) fun _ _ hlo => ?_
  exact M.bind ((ceilingContext.add_congr ha.2 hb.2).mapError _) fun _ _ hhi => Alike.ok ⟨hlo, hhi⟩

/-- Negated bounds read values only. -/
theorem neg_congr (ha : a.NumEq a') : a.neg.NumEq a'.neg := by
  constructor
  · simpa [neg, Decimal.NumEq] using ha.2
  · simpa [neg, Decimal.NumEq] using ha.1

/-- Differences of bounds read values only. -/
theorem sub_congr (ha : a.NumEq a') (hb : b.NumEq b') : Alike NumEq (a.sub b) (a'.sub b') := add_congr ha (neg_congr hb)

/-- The picked corner reads values only. -/
theorem corners_congr {op : Decimal → Decimal → Except DecimalException Decimal} {pick : Decimal → Decimal → Decimal}
    (hop : ∀ {a a' b b' : Decimal}, a.NumEq a' → b.NumEq b' → Alike Decimal.NumEq (op a b) (op a' b'))
    (hpick : ∀ {a a' b b' : Decimal}, a.NumEq a' → b.NumEq b' → (pick a b).NumEq (pick a' b'))
    (ha : a.NumEq a') (hb : b.NumEq b') : Alike Decimal.NumEq (corners op pick a b) (corners op pick a' b') := by
  let M := MonadRelation.exceptExcept NumericError
  refine M.bind ((hop ha.1 hb.1).mapError _) fun _ _ hp => ?_
  refine M.bind ((hop ha.1 hb.2).mapError _) fun _ _ hq => ?_
  refine M.bind ((hop ha.2 hb.1).mapError _) fun _ _ hr => ?_
  exact M.bind ((hop ha.2 hb.2).mapError _) fun _ _ hs => Alike.ok (hpick (hpick (hpick hp hq) hr) hs)

/-- Products of bounds read values only. -/
theorem mul_congr (ha : a.NumEq a') (hb : b.NumEq b') : Alike NumEq (a.mul b) (a'.mul b') := by
  let M := MonadRelation.exceptExcept NumericError
  refine M.bind (corners_congr floorContext.mul_congr Decimal.NumEq.minimum ha hb) fun _ _ hlo => ?_
  exact M.bind (corners_congr ceilingContext.mul_congr Decimal.NumEq.maximum ha hb) fun _ _ hhi => Alike.ok ⟨hlo, hhi⟩

/-- Quotients of bounds read values only. -/
theorem div_congr (ha : a.NumEq a') (hb : b.NumEq b') : Alike NumEq (a.div b) (a'.div b') := by
  have hzero : (b.lo ≤ .ofInt 0 ∧ .ofInt 0 ≤ b.hi) ↔ b'.lo ≤ .ofInt 0 ∧ .ofInt 0 ≤ b'.hi :=
    and_congr (hb.1.le_iff (.refl _)) ((Decimal.NumEq.refl _).le_iff hb.2)
  unfold div
  simp only [hzero]
  split
  · exact .inr ⟨_, rfl, rfl⟩
  · let M := MonadRelation.exceptExcept NumericError
    refine M.bind (corners_congr floorContext.div_congr Decimal.NumEq.minimum ha hb) fun _ _ hlo => ?_
    exact M.bind (corners_congr ceilingContext.div_congr Decimal.NumEq.maximum ha hb) fun _ _ hhi => Alike.ok ⟨hlo, hhi⟩

/-- Powers of bounds read values only. -/
theorem power_congr (ha : a.NumEq a') (exponent : ℕ) : Alike NumEq (a.power exponent) (a'.power exponent) := by
  induction exponent with
  | zero => exact Alike.ok (.refl _)
  | succ exponent ih => exact (MonadRelation.exceptExcept NumericError).bind ih fun _ _ h => mul_congr h ha

/-- Signs read values only. -/
theorem sign_congr (ha : a.NumEq a') : a.sign = a'.sign := by
  unfold sign
  simp only [(Decimal.NumEq.refl _).lt_iff ha.1, ha.2.lt_iff (.refl _)]

end Bounds

namespace Dual

/-- Numerically equal bounds of the value and of the slopes. -/
def NumEq (a b : Dual) : Prop := a.value.NumEq b.value ∧ a.derivative.NumEq b.derivative

variable {a a' b b' : Dual}

/-- A constant reads its value only. -/
theorem constant_congr {d d' : Decimal} (h : d.NumEq d') : (constant d).NumEq (constant d') := ⟨⟨h, h⟩, .refl _⟩

/-- Dual numbers read values only. -/
theorem system_congr : Simulates (MonadRelation.exceptExcept NumericError) NumEq system system where
  const d := constant_congr (.refl d)
  add ha hb := by
    let M := MonadRelation.exceptExcept NumericError
    refine M.bind (Bounds.add_congr ha.1 hb.1) fun _ _ hvalue => ?_
    exact M.bind (Bounds.add_congr ha.2 hb.2) fun _ _ hderivative => Alike.ok ⟨hvalue, hderivative⟩
  sub ha hb := by
    let M := MonadRelation.exceptExcept NumericError
    refine M.bind (Bounds.sub_congr ha.1 hb.1) fun _ _ hvalue => ?_
    exact M.bind (Bounds.sub_congr ha.2 hb.2) fun _ _ hderivative => Alike.ok ⟨hvalue, hderivative⟩
  mul ha hb := by
    let M := MonadRelation.exceptExcept NumericError
    refine M.bind (Bounds.mul_congr ha.1 hb.1) fun _ _ hvalue => ?_
    refine M.bind (Bounds.mul_congr ha.2 hb.1) fun _ _ hleft => ?_
    refine M.bind (Bounds.mul_congr ha.1 hb.2) fun _ _ hright => ?_
    exact M.bind (Bounds.add_congr hleft hright) fun _ _ hderivative => Alike.ok ⟨hvalue, hderivative⟩
  div ha hb := by
    let M := MonadRelation.exceptExcept NumericError
    refine M.bind (Bounds.div_congr ha.1 hb.1) fun _ _ hvalue => ?_
    refine M.bind (Bounds.mul_congr ha.2 hb.1) fun _ _ hleft => ?_
    refine M.bind (Bounds.mul_congr ha.1 hb.2) fun _ _ hright => ?_
    refine M.bind (Bounds.sub_congr hleft hright) fun _ _ hnumerator => ?_
    refine M.bind (Bounds.power_congr hb.1 2) fun _ _ hsquare => ?_
    exact M.bind (Bounds.div_congr hnumerator hsquare) fun _ _ hderivative => Alike.ok ⟨hvalue, hderivative⟩
  positive {a a'} ha := by
    refine Alike.ok ?_
    have hnonneg := (Decimal.NumEq.refl (.ofInt 0)).le_iff ha.1.1
    have hnonpos := ha.1.2.le_iff (Decimal.NumEq.refl (.ofInt 0))
    unfold positive
    simp only [hnonneg, hnonpos]
    split
    · exact ha
    · split
      · exact constant_congr (.refl _)
      · exact ⟨⟨rfl, ha.1.2⟩, ⟨Decimal.NumEq.minimum (.refl _) ha.2.1, Decimal.NumEq.maximum (.refl _) ha.2.2⟩⟩

end Dual

/-! ### Forecasts -/

section

variable {m n : Type → Type} [Monad m] [Monad n] {α β : Type} {M : MonadRelation m n} {R : α → β → Prop}

/-! ### The forward model -/

/-- Every operation of the first forward model keeps the relation with the second one. -/
structure ForwardSimulates (M : MonadRelation m n) (R : α → β → Prop) (N : ForwardSystem m α) (P : ForwardSystem n β) : Prop
    extends Simulates M R N.toNumberSystem P.toNumberSystem where
  power : ∀ {a b}, R a b → ∀ k, M.Rel R (N.power a k) (P.power b k)
  exceeds : ∀ {a b}, R a b → ∀ d, N.exceeds a d = P.exceeds b d

/-- Inputs of a year that are related. -/
structure Year.Related (R : α → β → Prop) (y : Year α) (z : Year β) : Prop where
  growth : R y.growth z.growth
  margin : R y.margin z.margin
  tax : R y.tax z.tax
  k : R y.k z.k

/-- Outputs of a year that are related. -/
structure ForecastRow.Related (R : α → β → Prop) (r : ForecastRow α) (t : ForecastRow β) : Prop where
  year : r.year = t.year
  revenue : R r.revenue t.revenue
  ebit : R r.ebit t.ebit
  cashTax : R r.cashTax t.cashTax
  nopat : R r.nopat t.nopat
  reinvestment : R r.reinvestment t.reinvestment
  fcff : R r.fcff t.fcff
  pv : R r.pv t.pv

/-- Outputs of the forward model that are related. -/
structure Evaluation.Related (R : α → β → Prop) (e : Evaluation α) (d : Evaluation β) : Prop where
  rows : List.Forall₂ (ForecastRow.Related R) e.rows d.rows
  terminalRevenue : R e.terminalRevenue d.terminalRevenue
  terminalNopat : R e.terminalNopat d.terminalNopat
  terminalReinvestment : R e.terminalReinvestment d.terminalReinvestment
  terminalFcff : R e.terminalFcff d.terminalFcff
  terminalValue : R e.terminalValue d.terminalValue
  pvTerminal : R e.pvTerminal d.pvTerminal
  pvExplicit : R e.pvExplicit d.pvExplicit
  operatingEv : R e.operatingEv d.operatingEv
  terminalContribution : Option.Rel R e.terminalContribution d.terminalContribution
  terminalDominant : e.terminalDominant = d.terminalDominant
  reasons : e.reasons = d.reasons

/-- Pairs of related entries are related in both parts. -/
theorem zip_related {γ δ : Type} {S : γ → δ → Prop} {l : List α} {l' : List β} {k : List γ} {k' : List δ}
    (hl : List.Forall₂ R l l') (hk : List.Forall₂ S k k') :
    List.Forall₂ (fun p q => R p.1 q.1 ∧ S p.2 q.2) (l.zip k) (l'.zip k') := by
  induction hl generalizing k k' with
  | nil => exact .nil
  | cons hab _ ih =>
    cases hk with
    | nil => exact .nil
    | cons hcd hk => exact .cons ⟨hab, hcd⟩ (ih hk)

/-- Related forecasts have related years. -/
theorem ForecastOf.Related.years {f : ForecastOf α} {g : ForecastOf β} (h : f.Related R g) :
    List.Forall₂ (Year.Related R) f.years g.years := by
  unfold ForecastOf.years
  rw [List.forall₂_map_left_iff, List.forall₂_map_right_iff]
  exact (zip_related (zip_related h.growth h.margins) (zip_related h.taxes h.reinvestment)).imp
    fun _ _ hy => ⟨hy.1.1, hy.1.2, hy.2.1, hy.2.2⟩

variable {N : ForwardSystem m α} {P : ForwardSystem n β}

/-- Rows of related years are related. -/
theorem forecastRow_related (h : ForwardSimulates M R N P) {wacc revenue : α} {wacc' revenue' : β} {y : Year α} {z : Year β}
    (hwacc : R wacc wacc') (year : ℕ) (hrevenue : R revenue revenue') (hy : y.Related R z) :
    M.Rel (ForecastRow.Related R) (forecastRow N wacc year revenue y) (forecastRow P wacc' year revenue' z) := by
  have hone := h.const (.ofInt 1)
  unfold forecastRow
  refine M.bind (h.add hone hy.growth) fun _ _ hg => ?_
  refine M.bind (h.mul hrevenue hg) fun _ _ hrevenue => ?_
  refine M.bind (h.mul hrevenue hy.margin) fun _ _ hebit => ?_
  refine M.bind (h.positive hebit) fun _ _ hpositive => ?_
  refine M.bind (h.mul hpositive hy.tax) fun _ _ htax => ?_
  refine M.bind (h.sub hebit htax) fun _ _ hnopat => ?_
  refine M.bind (h.mul hrevenue hy.k) fun _ _ hreinvestment => ?_
  refine M.bind (h.sub hnopat hreinvestment) fun _ _ hfcff => ?_
  refine M.bind (h.add hone hwacc) fun _ _ hrate => ?_
  refine M.bind (h.power hrate year) fun _ _ hdiscount => ?_
  refine M.bind (h.div hfcff hdiscount) fun _ _ hpv => ?_
  exact M.pure ⟨rfl, hrevenue, hebit, htax, hnopat, hreinvestment, hfcff, hpv⟩

/-- Rows of related lists of years are related. -/
theorem forecastRows_related (h : ForwardSimulates M R N P) {wacc revenue : α} {wacc' revenue' : β} {ys : List (Year α)}
    {zs : List (Year β)} (hwacc : R wacc wacc') (year : ℕ) (hrevenue : R revenue revenue')
    (hys : List.Forall₂ (Year.Related R) ys zs) :
    M.Rel (fun p q => R p.1 q.1 ∧ List.Forall₂ (ForecastRow.Related R) p.2 q.2) (forecastRows N wacc year revenue ys)
      (forecastRows P wacc' year revenue' zs) := by
  induction hys generalizing year revenue revenue' with
  | nil => exact M.pure ⟨hrevenue, .nil⟩
  | cons hy _ ih =>
    unfold forecastRows
    refine M.bind (forecastRow_related h hwacc year hrevenue hy) fun row row' hrow => ?_
    exact M.bind (ih (year + 1) hrow.revenue) fun _ _ hrest => M.pure ⟨hrest.1, .cons hrow hrest.2⟩

/-- A fold over related lists keeps a relation that each of its steps keeps. -/
theorem foldlM_related {S : α → β → Prop} {γ δ : Type} {T : γ → δ → Prop} {f : α → γ → m α} {g : β → δ → n β}
    (hstep : ∀ s t c d, S s t → T c d → M.Rel S (f s c) (g t d)) {l : List γ} {k : List δ} (hl : List.Forall₂ T l k)
    {s : α} {t : β} (h : S s t) : M.Rel S (l.foldlM f s) (k.foldlM g t) := by
  induction hl generalizing s t with
  | nil => exact M.pure h
  | cons hcd _ ih =>
    simp only [List.foldlM_cons]
    exact M.bind (hstep _ _ _ _ h hcd) fun _ _ hst => ih hst

/-- The forward model over related forecasts is related where one of its systems simulates the other. -/
theorem evaluate_related [LawfulMonad m] [LawfulMonad n] (h : ForwardSimulates M R N P) {f : ForecastOf α} {g : ForecastOf β} (hfg : f.Related R g) :
    M.Rel (Evaluation.Related R) (evaluate N f) (evaluate P g) := by
  have hone := h.const (.ofInt 1)
  unfold evaluate
  refine M.bind (forecastRows_related h hfg.wacc 1 hfg.revenueAnchor hfg.years) fun p q hrows => ?_
  have hpv : List.Forall₂ R (p.2.map (·.pv)) (q.2.map (·.pv)) := by
    rw [List.forall₂_map_left_iff, List.forall₂_map_right_iff]
    exact hrows.2.imp fun _ _ hrow => hrow.pv
  have hsum : M.Rel R ((p.2.map (·.pv)).foldlM N.add (N.const (.ofInt 0)))
      ((q.2.map (·.pv)).foldlM P.add (P.const (.ofInt 0))) := foldlM_related (f := N.add) (g := P.add) (fun _ _ _ _ => h.add) hpv (h.const _)
  refine M.bind (h.add hone hfg.terminalGrowth) fun _ _ h1 => ?_
  refine M.bind (h.mul hrows.1 h1) fun _ _ htr => ?_
  refine M.bind (h.mul htr hfg.terminalMargin) fun _ _ h2 => ?_
  refine M.bind (h.sub hone hfg.terminalTax) fun _ _ h3 => ?_
  refine M.bind (h.mul h2 h3) fun _ _ htn => ?_
  refine M.bind (h.mul htn hfg.terminalGrowth) fun _ _ h4 => ?_
  refine M.bind (h.div h4 hfg.terminalRoic) fun _ _ hti => ?_
  refine M.bind (h.sub htn hti) fun _ _ htf => ?_
  refine M.bind (h.sub hfg.wacc hfg.terminalGrowth) fun _ _ h5 => ?_
  refine M.bind (h.div htf h5) fun _ _ htv => ?_
  refine M.bind (h.add hone hfg.wacc) fun _ _ h6 => ?_
  rw [hrows.2.length_eq]
  refine M.bind (h.power h6 _) fun _ _ h7 => ?_
  refine M.bind (h.div htv h7) fun pv pv' hterminal => ?_
  refine M.bind hsum fun _ _ hexplicit => ?_
  refine M.bind (h.add hexplicit hterminal) fun ev ev' hev => ?_
  -- what is left of both programs, once the ratio is known
  extract_lets rest rest'
  have hrest : ∀ ratio ratio', Option.Rel R ratio ratio' → M.Rel (Evaluation.Related R) (rest ratio) (rest' ratio') :=
    fun ratio ratio' hr => M.pure
      { rows := hrows.2, terminalRevenue := htr, terminalNopat := htn, terminalReinvestment := hti, terminalFcff := htf
        terminalValue := htv, pvTerminal := hterminal, pvExplicit := hexplicit, operatingEv := hev
        terminalContribution := hr
        terminalDominant := by
          cases hr with
          | none => rfl
          | some hr => simp only [Option.map_some, h.exceeds hr]
        reasons := by cases hr <;> simp }
  rw [h.exceeds hev]
  split
  · simp only [map_eq_pure_bind]
    exact M.bind (M.bind (h.div hterminal hev) fun _ _ hr => M.pure (.some hr)) hrest
  · exact M.bind (M.pure .none) hrest

end

variable {f g : ForecastOf Decimal}

/-- The solver's residual reads values only. -/
theorem dualResidual_congr (h : f.Related Decimal.NumEq g) (spec : SolveSpecFields) (domain : Bounds) (target : Decimal) :
    Alike Dual.NumEq (dualResidual f spec domain target) (dualResidual g spec domain target) := by
  have hconst : f.Related (fun d e => (Dual.system.const d).NumEq (Dual.system.const e)) g := by
    have hlist : ∀ {v w : List Decimal}, List.Forall₂ Decimal.NumEq v w →
        List.Forall₂ (fun d e => (Dual.system.const d).NumEq (Dual.system.const e)) v w :=
      fun hvw => hvw.imp fun _ _ hd => Dual.constant_congr hd
    exact ⟨Dual.constant_congr h.revenueAnchor, hlist h.growth, hlist h.margins, hlist h.taxes, hlist h.reinvestment,
      Dual.constant_congr h.wacc, Dual.constant_congr h.riskFree, Dual.constant_congr h.terminalGrowth,
      Dual.constant_congr h.terminalMargin, Dual.constant_congr h.terminalTax, Dual.constant_congr h.terminalRoic⟩
  exact residual_related Dual.system_congr hconst spec target ⟨.refl _, .refl _⟩

end EquityEval.Valuation
