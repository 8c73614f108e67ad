import EquityEval.Fundamentals.Periods
import Mathlib.Data.Real.Basic
import Mathlib.Algebra.Order.BigOperators.Group.List

/-!
# Assembled amounts account for their days

The periods of the operands of an assembled amount make up its window day by day, its value is the
same sum of their values, and its uncertainty bounds that of the sum.
-/

namespace EquityEval.Fundamentals

open Workflow DecimalArithmetic Gregorian PointInTime
open Discovery (sortedSet)

/-! ### Signed sums -/

/-- A sum of terms with their coefficients. -/
def signedSum {R : Type} [Ring R] (coefficients : List ℤ) (terms : List R) : R :=
  (coefficients.zipWith (fun c x => (c : R) * x) terms).sum

@[simp] theorem signedSum_nil {R : Type} [Ring R] (terms : List R) : signedSum [] terms = 0 := by simp [signedSum]

@[simp] theorem signedSum_cons {R : Type} [Ring R] (c : ℤ) (coefficients : List ℤ) (x : R) (terms : List R) :
    signedSum (c :: coefficients) (x :: terms) = c * x + signedSum coefficients terms := by
  simp [signedSum]

/-- With coefficients of one, a signed sum is the sum. -/
theorem signedSum_ones {α R : Type} [Ring R] (items : List α) (term : α → R) :
    signedSum (items.map fun _ => 1) (items.map term) = (items.map term).sum := by
  induction items with
  | nil => simp
  | cons item items ih => simp only [List.map_cons, signedSum_cons, List.sum_cons, ih, Int.cast_one, one_mul]

/-- A signed sum of rational numbers is one of real numbers. -/
theorem cast_signedSum {α : Type} (coefficients : List ℤ) (items : List α) (term : α → ℚ) :
    ((signedSum coefficients (items.map term) : ℚ) : ℝ) = signedSum coefficients (items.map fun item => (term item : ℝ)) := by
  induction coefficients generalizing items with
  | nil => simp
  | cons c coefficients ih =>
    cases items with
    | nil => simp [signedSum]
    | cons item items => simp [ih]

/-- The operands of an assembled amount are added or subtracted once. -/
def Signs (coefficients : List ℤ) : Prop := ∀ c ∈ coefficients, c = 1 ∨ c = -1

/-- A signed sum is off by no more than its terms are together. -/
theorem abs_signedSum_sub_le {α : Type} (amount error : α → ℝ) (items : List α) {coefficients : List ℤ} {truths : List ℝ}
    (hsigns : Signs coefficients) (hlength : items.length = coefficients.length)
    (htruths : List.Forall₂ (fun item x => |x - amount item| ≤ error item) items truths) :
    |signedSum coefficients truths - signedSum coefficients (items.map amount)| ≤ (items.map error).sum := by
  induction htruths generalizing coefficients with
  | nil =>
    rw [List.eq_nil_of_length_eq_zero hlength.symm]
    simp
  | @cons item x items truths hitem _ ih =>
    obtain ⟨c, coefficients, rfl⟩ := List.exists_cons_of_length_eq_add_one hlength.symm
    have hrest := ih (fun c hc => hsigns c (List.mem_cons_of_mem _ hc)) (Nat.succ.inj hlength)
    have hterm : |(c : ℝ) * (x - amount item)| ≤ error item := by
      rcases hsigns c List.mem_cons_self with rfl | rfl
      · simpa using hitem
      · simpa [abs_sub_comm] using hitem
    rw [signedSum_cons, List.map_cons, signedSum_cons, List.map_cons, List.sum_cons]
    calc |c * x + signedSum coefficients truths - (c * amount item + signedSum coefficients (items.map amount))|
        = |c * (x - amount item) + (signedSum coefficients truths - signedSum coefficients (items.map amount))| := by
          congr 1
          ring
      _ ≤ |c * (x - amount item)| + |signedSum coefficients truths - signedSum coefficients (items.map amount)| :=
          abs_add_le _ _
      _ ≤ error item + (items.map error).sum := add_le_add hterm hrest

/-! ### Exact sums -/

/-- Finite numbers are their decimals. -/
theorem map_finite_filterMap {numbers : List Number} (h : ∀ number ∈ numbers, number.isFinite = true) :
    (numbers.filterMap (·.decimal?)).map .finite = numbers := by
  induction numbers with
  | nil => rfl
  | cons number numbers ih =>
    obtain ⟨d, hd⟩ := Option.isSome_iff_exists.mp (h number List.mem_cons_self)
    rw [List.filterMap_cons_some hd, List.map_cons, ih fun n hn => h n (List.mem_cons_of_mem _ hn),
      Number.decimal?_eq_some.mp hd]

/-- Terms that are negated where their coefficient is not one sum up to the signed sum. -/
theorem sum_terms {values : List Decimal} {coefficients : List ℤ} (hsigns : Signs coefficients)
    (hlength : values.length = coefficients.length) :
    ((values.zipWith (fun value (coefficient : ℤ) => if coefficient = 1 then value else value.copyNegate) coefficients).map
      Decimal.value).sum = signedSum coefficients (values.map Decimal.value) := by
  induction values generalizing coefficients with
  | nil => simp [List.eq_nil_of_length_eq_zero hlength.symm]
  | cons value values ih =>
    obtain ⟨c, coefficients, rfl⟩ := List.exists_cons_of_length_eq_add_one hlength.symm
    have hrest := ih (fun c hc => hsigns c (List.mem_cons_of_mem _ hc)) (Nat.succ.inj hlength)
    rw [List.zipWith_cons_cons, List.map_cons, List.sum_cons, List.map_cons, signedSum_cons, hrest]
    rcases hsigns c List.mem_cons_self with rfl | rfl <;> simp

/-- An exact sum is the signed sum of the values of its numbers. -/
theorem exactSum_exact {values : List Decimal} {coefficients : List ℤ} {r : Decimal} (hsigns : Signs coefficients)
    (h : exactSum (values.map .finite) coefficients = some r) :
    values.length = coefficients.length ∧ r.value = signedSum coefficients (values.map Decimal.value) := by
  have hvalues : (values.map Number.finite).filterMap (·.decimal?) = values := by
    rw [List.filterMap_map]
    exact List.filterMap_some
  simp only [exactSum, hvalues] at h
  split at h
  case isFalse => cases h
  case isTrue hrange =>
    simp only [Option.bind_eq_bind, Option.bind_eq_some_iff] at h
    obtain ⟨top, -, bottom, -, hsum⟩ := h
    have hprec : 0 < (sumContext top bottom).prec := by
      have : (50 : ℤ) ≤ max 50 (top - bottom + 4) := le_max_left _ _
      change 0 < (max 50 (top - bottom + 4)).toNat
      omega
    rw [Context.foldlM_add?_exact hprec rfl hsum, Decimal.value_ofInt, Int.cast_zero, zero_add]
    exact ⟨hrange.2.2, sum_terms hsigns hrange.2.2⟩

/-! ### Days -/

/-- The day lies between a first and a last one. -/
def Covers (first : Option Date) (last day : Date) : Prop := ∃ start ∈ first, start ≤ day ∧ day ≤ last

instance (first : Option Date) (last day : Date) : Decidable (Covers first last day) :=
  inferInstanceAs (Decidable (∃ _ ∈ _, _))

/-- Whether the day lies in the period of a source, as a number. -/
def FinancialInput.dayCount (source : FinancialInput) (day : Date) : ℤ :=
  if Covers source.period.startDate source.period.endDate day then 1 else 0

/-- Days lie between others as their ordinals do. -/
theorem covers_some {start last day : Date} :
    Covers (some start) last day ↔ start.toOrdinal ≤ day.toOrdinal ∧ day.toOrdinal ≤ last.toOrdinal := by
  simp [Covers, Date.toOrdinal_le]

/-- The source has a first day, which is no later than its last one. -/
def FinancialInput.Flow (source : FinancialInput) : Prop :=
  ∃ start, source.period.startDate = some start ∧ start ≤ source.period.endDate

/-- Sources that follow each other count the days from the first to the last one of all. -/
theorem sum_dayCount {first : FinancialInput} {sources : List FinancialInput} (day : Date)
    (hflows : ∀ source ∈ first :: sources, source.Flow) (hchain : (first :: sources).IsChain Follows) :
    let last := ((first :: sources).getLast (List.cons_ne_nil _ _)).period.endDate
    (∃ start ∈ first.period.startDate, start ≤ last) ∧
      ((first :: sources).map (·.dayCount day)).sum = if Covers first.period.startDate last day then 1 else 0 := by
  induction sources generalizing first with
  | nil =>
    refine ⟨hflows first List.mem_cons_self, ?_⟩
    rw [List.map_singleton, List.sum_singleton]
    rfl
  | cons second sources ih =>
    obtain ⟨hfollows, hrest⟩ := List.isChain_cons_cons.mp hchain
    obtain ⟨⟨next, hnext, hlast⟩, hsum⟩ := ih (fun source hsource => hflows source (List.mem_cons_of_mem _ hsource)) hrest
    obtain ⟨start, hstart, hend⟩ := hflows first List.mem_cons_self
    obtain ⟨_, hnext', hfollows⟩ := hfollows
    cases Option.mem_unique hnext hnext'
    rw [List.getLast_cons (List.cons_ne_nil _ _), List.map_cons, List.sum_cons, hsum]
    generalize ((second :: sources).getLast _).period.endDate = last at hlast ⊢
    rw [← Date.toOrdinal_le] at hend hlast
    refine ⟨⟨start, hstart, Date.toOrdinal_le.mp (by omega)⟩, ?_⟩
    rw [Option.mem_def.mp hnext, hstart, FinancialInput.dayCount, hstart]
    simp only [covers_some]
    split_ifs <;> omega

/-- What a year to date adds to the one before it are the days after that one. -/
theorem sub_dayCount {current prior : FinancialInput} {start next : Date} (day : Date)
    (hcurrent : current.period.startDate = some start) (hprior : prior.period.startDate = some start)
    (hstart : start ≤ prior.period.endDate) (hlast : prior.period.endDate < current.period.endDate)
    (hnext : prior.period.endDate.addDay = some next) :
    current.dayCount day - prior.dayCount day = if Covers (some next) current.period.endDate day then 1 else 0 := by
  have hordinal := Date.toOrdinal_addDay hnext
  rw [← Date.toOrdinal_le] at hstart
  rw [← Date.toOrdinal_lt] at hlast
  rw [FinancialInput.dayCount, FinancialInput.dayCount, hcurrent, hprior]
  simp only [covers_some]
  split_ifs <;> omega

/-- A year and the start of the next one, less the start of the year, are the days after that start. -/
theorem bridge_dayCount {annual current prior : FinancialInput} {start next : Date} (day : Date)
    (hannual : annual.period.startDate = some start) (hprior : prior.period.startDate = some start)
    (hstart : start ≤ prior.period.endDate) (hlast : prior.period.endDate < annual.period.endDate)
    (hflow : current.Flow) (hfollows : Follows annual current) (hnext : prior.period.endDate.addDay = some next) :
    annual.dayCount day + (current.dayCount day - prior.dayCount day) =
      if Covers (some next) current.period.endDate day then 1 else 0 := by
  have hordinal := Date.toOrdinal_addDay hnext
  obtain ⟨first, hfirst, hend⟩ := hflow
  obtain ⟨_, hfirst', hfollows⟩ := hfollows
  cases hfirst.symm.trans hfirst'
  rw [← Date.toOrdinal_le] at hstart hend
  rw [← Date.toOrdinal_lt] at hlast
  rw [FinancialInput.dayCount, FinancialInput.dayCount, FinancialInput.dayCount, hannual, hprior, hfirst]
  simp only [covers_some]
  split_ifs <;> omega

/-! ### Assembled amounts -/

/-- The amount that a source reports. -/
def FinancialInput.amount (t : Texts) (source : FinancialInput) : Decimal :=
  ((source.value t).bind (·.decimal?)).getD (.ofInt 0)

/-- The absolute error that a source states. -/
def FinancialInput.uncertainty (source : FinancialInput) : Decimal :=
  (source.precision.map (·.absoluteError)).getD (.ofInt 0)

/-- A true amount of a source is one within its stated absolute error. -/
def FinancialInput.Admits (t : Texts) (source : FinancialInput) (truth : ℝ) : Prop :=
  ∃ precision ∈ source.precision, |truth - (source.amount t).value| ≤ precision.absoluteError.value

/-- An amount accounts for its window: day by day, exactly, and within its uncertainty. -/
structure PeriodAmount.Accounts (t : Texts) (p : PeriodAmount) (d : Decimal) : Prop where
  signed : p.operands.length = p.coefficients.length
  reported : ∀ source ∈ p.operands, source.value t = some (.finite (source.amount t))
  days : ∀ day, signedSum p.coefficients (p.operands.map (·.dayCount day)) =
    if Covers p.period.startDate p.period.endDate day then 1 else 0
  exact : d.value = signedSum p.coefficients (p.operands.map fun source => (source.amount t).value)
  bounded : ∀ precision ∈ p.precision, (∀ source ∈ p.operands, source.precision ≠ none) ∧
    ∀ truths, List.Forall₂ (FinancialInput.Admits t) p.operands truths →
      |signedSum p.coefficients truths - (d.value : ℝ)| ≤ precision.absoluteError.value

variable {t : Texts} {sources : List FinancialInput} {coefficients : List ℤ}

/-- A source that nothing blocks reports its amount. -/
theorem value_eq_amount {source : FinancialInput} (h : source.blockingFlags t = []) :
    source.value t = some (.finite (source.amount t)) := by
  obtain ⟨d, hd⟩ := FinancialInput.finite_of_blockingFlags h
  rw [FinancialInput.amount, hd]
  rfl

/-- Sources without problems are flows that report their amounts. -/
theorem flows_of_periodProblems (h : periodProblems t sources = []) :
    ∀ source ∈ sources, source.value t = some (.finite (source.amount t)) ∧ source.Flow := by
  simp only [periodProblems, List.append_eq_nil_iff] at h
  intro source hsource
  obtain ⟨hblocking, hflow⟩ := flow_of_sourceIssues h.1.1.1.1 source hsource
  exact ⟨value_eq_amount hblocking, hflow⟩

/-- The evidence that is built has the uncertainty it is built from. -/
theorem absoluteError_build {absoluteError : Decimal} {observationIds : List Uuid} {evidenceRefs : List String}
    {method : String} {precision : PrecisionEvidence}
    (h : PrecisionEvidence.build absoluteError observationIds evidenceRefs method = some precision) :
    precision.absoluteError = absoluteError := by
  unfold PrecisionEvidence.build at h
  split at h <;> cases h
  rfl

/-- The uncertainty of the exact sum of uncertainties bounds the signed sum. -/
theorem combine_bounded {absoluteError : Decimal} (hsigns : Signs coefficients) (hlength : sources.length = coefficients.length)
    (hpresent : ∀ source ∈ sources, source.precision.isSome = true)
    (herror : exactSum ((sources.filterMap (·.precision)).map fun item => .finite item.absoluteError)
      ((sources.filterMap (·.precision)).map fun _ => 1) = some absoluteError)
    {truths : List ℝ} (htruths : List.Forall₂ (FinancialInput.Admits t) sources truths) :
    |signedSum coefficients truths - signedSum coefficients (sources.map fun source => ((source.amount t).value : ℝ))| ≤
      absoluteError.value := by
  have huncertainties : (sources.filterMap (·.precision)).map (·.absoluteError) = sources.map (·.uncertainty) := by
    rw [List.map_filterMap, ← List.filterMap_eq_map]
    refine List.filterMap_congr fun source hsource => ?_
    obtain ⟨precision, hprecision⟩ := Option.isSome_iff_exists.mp (hpresent source hsource)
    simp [FinancialInput.uncertainty, hprecision]
  have hones : Signs ((sources.filterMap (·.precision)).map fun _ => 1) := fun c hc =>
    Or.inl (List.eq_of_mem_map_const hc)
  have hvalue : (absoluteError.value : ℝ) = (sources.map fun source => (source.uncertainty.value : ℝ)).sum := by
    have hnumbers : (sources.filterMap (·.precision)).map (fun item => Number.finite item.absoluteError) =
        ((sources.filterMap (·.precision)).map (·.absoluteError)).map .finite := by
      rw [List.map_map]
      rfl
    rw [hnumbers] at herror
    obtain ⟨-, hsum⟩ := exactSum_exact hones herror
    rw [hsum, List.map_map, cast_signedSum, signedSum_ones]
    calc ((sources.filterMap (·.precision)).map fun item => (item.absoluteError.value : ℝ)).sum
        = (((sources.filterMap (·.precision)).map (·.absoluteError)).map fun d => (d.value : ℝ)).sum := by
          rw [List.map_map]
          rfl
      _ = (sources.map fun source => (source.uncertainty.value : ℝ)).sum := by
          rw [huncertainties, List.map_map]
          rfl
  rw [hvalue]
  refine abs_signedSum_sub_le (fun source => ((source.amount t).value : ℝ)) (fun source => (source.uncertainty.value : ℝ))
    sources hsigns hlength (htruths.imp fun source truth hadmits => ?_)
  obtain ⟨precision, hprecision, hwithin⟩ := hadmits
  rw [FinancialInput.uncertainty, Option.mem_def.mp hprecision]
  exact hwithin

/-- What sources combine to is their signed sum, with an uncertainty that bounds it. -/
theorem combine_exact {result : Decimal × Option PrecisionEvidence} (hsigns : Signs coefficients)
    (hreported : ∀ source ∈ sources, source.value t = some (.finite (source.amount t)))
    (h : combine t sources coefficients = some result) :
    sources.length = coefficients.length ∧
      result.1.value = signedSum coefficients (sources.map fun source => (source.amount t).value) ∧
      ∀ precision ∈ result.2, (∀ source ∈ sources, source.precision ≠ none) ∧
        ∀ truths, List.Forall₂ (FinancialInput.Admits t) sources truths →
          |signedSum coefficients truths - (result.1.value : ℝ)| ≤ precision.absoluteError.value := by
  have hnumbers : sources.filterMap (·.value t) = (sources.map (·.amount t)).map .finite := by
    rw [List.map_map, ← List.filterMap_eq_map]
    exact List.filterMap_congr hreported
  simp only [combine, Option.bind_eq_bind, Option.bind_eq_some_iff, hnumbers] at h
  obtain ⟨value, hvalue, hrest⟩ := h
  obtain ⟨hlength, hexact⟩ := exactSum_exact hsigns hvalue
  rw [List.length_map] at hlength
  rw [List.map_map] at hexact
  split at hrest
  case isFalse =>
    cases hrest
    exact ⟨hlength, hexact, fun precision hprecision => by cases hprecision⟩
  case isTrue hall =>
    simp only [Option.bind_eq_some_iff] at hrest
    obtain ⟨absoluteError, herror, precision, hbuild, hresult⟩ := hrest
    cases hresult
    have hpresent : ∀ source ∈ sources, source.precision.isSome = true := List.filterMap_length_eq_length.mp hall
    refine ⟨hlength, hexact, fun precision' hprecision => ?_⟩
    cases hprecision
    refine ⟨fun source hsource => Option.isSome_iff_ne_none.mp (hpresent source hsource), fun truths htruths => ?_⟩
    rw [hexact, cast_signedSum, absoluteError_build hbuild]
    exact combine_bounded hsigns hlength hpresent herror htruths

variable {window : PeriodWindow} {formula : String} {problems : List String} {revision : Option RevisionCompatibility}
  {calendar : Option FiscalCalendarEvidence} {n : Number}

/-- An assembled amount with a value has no problems and is what its sources combine to. -/
theorem combine_of_assemble (h : (assemble t sources coefficients window formula problems revision calendar).value = some n) :
    problems = [] ∧ ∃ result, combine t sources coefficients = some result ∧ n = .finite result.1 ∧
      (assemble t sources coefficients window formula problems revision calendar).precision = result.2 := by
  by_cases hproblems : problems = []
  case neg =>
    simp only [assemble, if_neg hproblems, Option.map_none] at h
    split at h <;> cases h
  case pos =>
    simp only [assemble, if_pos hproblems] at h ⊢
    split at h
    case isTrue => cases h
    case isFalse =>
      obtain ⟨result, hresult, rfl⟩ := Option.map_eq_some_iff.mp h
      exact ⟨hproblems, result, hresult, rfl, by rw [hresult, Option.bind_some]⟩

/-- An assembled amount accounts for its window if its sources make up the days of the window. -/
theorem accounts_of_assemble (hsigns : Signs coefficients) (hsources : problems = [] → periodProblems t sources = [])
    (hdays : problems = [] → ∀ day, signedSum coefficients (sources.map (·.dayCount day)) =
      if Covers window.startDate window.endDate day then 1 else 0)
    (h : (assemble t sources coefficients window formula problems revision calendar).value = some n) :
    ∃ d, n = .finite d ∧ (assemble t sources coefficients window formula problems revision calendar).Accounts t d := by
  obtain ⟨hproblems, result, hcombine, rfl, hprecision⟩ := combine_of_assemble h
  have hreported := fun source hsource => (flows_of_periodProblems (hsources hproblems) source hsource).1
  obtain ⟨hlength, hexact, hbounded⟩ := combine_exact hsigns hreported hcombine
  exact ⟨result.1, rfl, hlength, hreported, hdays hproblems, hexact, by rwa [hprecision]⟩

/-- What the four ways of assembling an amount return. -/
inductive Assembled (t : Texts) : PeriodAmount → Prop
  | annual (source : FinancialInput) (calendar : Option FiscalCalendarEvidence) :
      Assembled t (annualAmount t source calendar)
  | quarters {sources revision calendar p} (h : ttmFromQuarters t sources revision calendar = some p) : Assembled t p
  | ytd {current prior calendar p} (h : quarterFromYtd t current prior calendar = some p) : Assembled t p
  | bridge {annual current prior revision calendar p} (h : ttmFromAnnualYtd t annual current prior revision calendar = some p) :
      Assembled t p

/-- An annual amount accounts for the year of its source. -/
theorem annualAmount_accounts {source : FinancialInput} (h : (annualAmount t source calendar).value = some n) :
    ∃ d, n = .finite d ∧ (annualAmount t source calendar).Accounts t d := by
  simp only [annualAmount] at h
  split at h
  case isFalse => cases h
  case isTrue hproblems =>
    simp only [List.append_eq_nil_iff] at hproblems
    obtain ⟨hvalue, -⟩ := flows_of_periodProblems hproblems.1.1 source (List.mem_singleton_self _)
    rw [hvalue] at h
    cases h
    refine ⟨source.amount t, rfl, rfl, ?_, ?_, ?_, ?_⟩
    · simpa [annualAmount] using hvalue
    · intro day
      simp [annualAmount, FinancialInput.dayCount]
    · simp [annualAmount]
    · intro precision hprecision
      refine ⟨fun source' hsource' => ?_, fun truths htruths => ?_⟩
      · cases List.mem_singleton.mp hsource'
        exact Option.ne_none_iff_exists'.mpr ⟨precision, hprecision⟩
      · obtain ⟨truth, rest, hadmits, hrest, rfl⟩ := List.forall₂_cons_left_iff.mp htruths
        cases hrest
        obtain ⟨precision', hprecision', hwithin⟩ := hadmits
        cases Option.mem_unique hprecision hprecision'
        simpa [annualAmount] using hwithin

/-- A source that spans whole months spans them from its first to its last day. -/
theorem months_of_monthSpan {source : FinancialInput} {m : ℤ} (h : monthSpan source = some m) :
    ∃ start, source.period.startDate = some start ∧ Date.months start source.period.endDate = m := by
  simp only [monthSpan, Option.bind_eq_bind, Option.bind_eq_some_iff] at h
  obtain ⟨start, hstart, h⟩ := h
  split at h <;> cases h
  exact ⟨start, hstart, rfl⟩

/-- Of two sources with one first day, the one that spans more months ends later. -/
theorem lt_of_monthSpan {earlier later : FinancialInput} {m m' : ℤ} (h : monthSpan earlier = some m)
    (h' : monthSpan later = some m') (hsame : later.period.startDate = earlier.period.startDate) (hlt : m < m') :
    earlier.period.endDate < later.period.endDate := by
  obtain ⟨start, hstart, rfl⟩ := months_of_monthSpan h
  obtain ⟨start', hstart', rfl⟩ := months_of_monthSpan h'
  cases hstart.symm.trans (hsame.symm.trans hstart')
  exact Date.lt_of_months hlt

/-- Of two sources that reach quarters of one fiscal year, the one that reaches a later one ends later. -/
theorem lt_of_matchOf {calendar : FiscalCalendarEvidence} {earlier later : FinancialInput} {y q q' : ℕ}
    (h : calendar.matchOf earlier true = some (y, q)) (h' : calendar.matchOf later true = some (y, q')) (hlt : q < q') :
    later.period.startDate = earlier.period.startDate ∧ earlier.period.endDate < later.period.endDate := by
  obtain ⟨year, hyear, hstart, hq, hend⟩ := FiscalCalendarEvidence.matchOf_cumulative h
  obtain ⟨year', hyear', hstart', -, hend'⟩ := FiscalCalendarEvidence.matchOf_cumulative h'
  cases hyear.symm.trans hyear'
  exact ⟨hstart'.trans hstart.symm, FiscalYear.quarterEnd_lt (by omega) hend hend'⟩

/-- Two years to date start together, and the prior one ends earlier. -/
theorem earlier_of_yearToDate {current prior : FinancialInput} (h : YearToDate current prior calendar) :
    current.period.startDate = prior.period.startDate ∧ prior.period.endDate < current.period.endDate := by
  cases calendar with
  | none =>
    obtain ⟨c, hc, p, hp, -, -, hquarter, hsame⟩ := h
    exact ⟨hsame, lt_of_monthSpan hp hc hsame (by omega)⟩
  | some calendar =>
    obtain ⟨⟨y, q⟩, hc, ⟨y', q'⟩, hp, hyear, hquarter⟩ := h
    cases hyear
    exact lt_of_matchOf hp hc (Nat.lt_of_succ_le hquarter.ge)

/-- A year starts with its own part, which ends earlier, and is followed by the start of the next year. -/
theorem earlier_of_annualBridge {annual current prior : FinancialInput} (h : AnnualBridge annual current prior calendar) :
    annual.period.startDate = prior.period.startDate ∧ prior.period.endDate < annual.period.endDate ∧
      Follows annual current := by
  cases calendar with
  | none =>
    obtain ⟨ha, ⟨c, -, hquarters, hp⟩, hsame, next, hnext, hcurrent⟩ := h
    refine ⟨hsame.symm, lt_of_monthSpan hp ha hsame.symm ?_, next, hcurrent, (Date.toOrdinal_addDay hnext).symm⟩
    simp only [List.mem_cons, List.not_mem_nil, or_false] at hquarters
    omega
  | some calendar =>
    obtain ⟨⟨y, q⟩, ha, ⟨_, c⟩, -, ⟨y', q'⟩, hp, hfull, hyear, -, hsame, hquarters, hfollows⟩ := h
    cases hyear
    simp only [List.mem_cons, List.not_mem_nil, or_false] at hfull hsame hquarters
    obtain ⟨hstart, hlast⟩ := lt_of_matchOf hp ha (by omega)
    exact ⟨hstart, hlast, hfollows⟩

/-- A valid window starts on the day after its source. -/
theorem startAfter_eq_some {valid : Prop} [Decidable valid] {source : FinancialInput} {start : Option Date} (hvalid : valid)
    (h : startAfter valid source = some start) : ∃ next, source.period.endDate.addDay = some next ∧ some next = start := by
  rw [startAfter, if_pos hvalid] at h
  exact Option.map_eq_some_iff.mp h

/-- A sum of four quarters accounts for the days from the first to the last one. -/
theorem ttmFromQuarters_accounts {p : PeriodAmount} (h : ttmFromQuarters t sources revision calendar = some p)
    (hvalue : p.value = some n) : ∃ d, n = .finite d ∧ p.Accounts t d := by
  simp only [ttmFromQuarters, Option.bind_eq_bind, Option.bind_eq_some_iff] at h
  obtain ⟨first, hfirst, last, hlast, hresult⟩ := h
  obtain ⟨rest, rfl⟩ := List.head?_eq_some_iff.mp hfirst
  have hlast' : last = (first :: rest).getLast (List.cons_ne_nil _ _) := by
    rw [List.getLast?_eq_some_getLast (List.cons_ne_nil _ _)] at hlast
    exact (Option.some.inj hlast).symm
  cases hresult
  refine accounts_of_assemble (fun c hc => Or.inl (List.eq_of_mem_map_const hc)) (fun hproblems => ?_)
    (fun hproblems day => ?_) hvalue
  · simp only [List.append_eq_nil_iff] at hproblems
    exact hproblems.1.1.1.1.1
  · rw [List.append_eq_nil_iff] at hproblems
    obtain ⟨hnone, hcontiguous⟩ := hproblems
    have hchain : (first :: rest).IsChain Follows := by
      by_contra hbroken
      exact flagIf_eq_nil.mp hcontiguous ⟨hnone, hbroken⟩
    simp only [List.append_eq_nil_iff] at hnone
    have hflows := fun source hsource => (flows_of_periodProblems hnone.1.1.1.1 source hsource).2
    rw [signedSum_ones, hlast']
    exact (sum_dayCount day hflows hchain).2

/-- The difference of two years to date accounts for the days after the earlier one. -/
theorem quarterFromYtd_accounts {current prior : FinancialInput} {p : PeriodAmount}
    (h : quarterFromYtd t current prior calendar = some p) (hvalue : p.value = some n) :
    ∃ d, n = .finite d ∧ p.Accounts t d := by
  simp only [quarterFromYtd, Option.bind_eq_bind, Option.bind_eq_some_iff] at h
  obtain ⟨start, hstart, hresult⟩ := h
  cases hresult
  refine accounts_of_assemble (by simp [Signs]) (fun hproblems => ?_) (fun hproblems day => ?_) hvalue
  · simp only [List.append_eq_nil_iff] at hproblems
    exact hproblems.1.1.1
  · simp only [List.append_eq_nil_iff, flagIf_eq_nil, not_not] at hproblems
    obtain ⟨⟨⟨hproblems, -⟩, hvalid⟩, -⟩ := hproblems
    obtain ⟨-, first, hprior, hflow⟩ := flows_of_periodProblems hproblems prior (by simp)
    obtain ⟨hsame, hlast⟩ := earlier_of_yearToDate hvalid
    obtain ⟨next, hnext, rfl⟩ := startAfter_eq_some hvalid hstart
    have hdays := sub_dayCount day (hsame.trans hprior) hprior hflow hlast hnext
    simpa [sub_eq_add_neg] using hdays

/-- A year with the start of the next one, less its own, accounts for the days after that. -/
theorem ttmFromAnnualYtd_accounts {annual current prior : FinancialInput} {p : PeriodAmount}
    (h : ttmFromAnnualYtd t annual current prior revision calendar = some p) (hvalue : p.value = some n) :
    ∃ d, n = .finite d ∧ p.Accounts t d := by
  simp only [ttmFromAnnualYtd, Option.bind_eq_bind, Option.bind_eq_some_iff] at h
  obtain ⟨start, hstart, hresult⟩ := h
  cases hresult
  refine accounts_of_assemble (by simp [Signs]) (fun hproblems => ?_) (fun hproblems day => ?_) hvalue
  · simp only [List.append_eq_nil_iff] at hproblems
    exact hproblems.1.1.1
  · simp only [List.append_eq_nil_iff, flagIf_eq_nil, not_not] at hproblems
    obtain ⟨⟨⟨hproblems, -⟩, -⟩, hvalid⟩ := hproblems
    obtain ⟨-, first, hprior, hflow⟩ := flows_of_periodProblems hproblems prior (by simp)
    obtain ⟨-, hcurrent⟩ := flows_of_periodProblems hproblems current (by simp)
    obtain ⟨hsame, hlast, hfollows⟩ := earlier_of_annualBridge hvalid
    obtain ⟨next, hnext, rfl⟩ := startAfter_eq_some hvalid hstart
    have hdays := bridge_dayCount day (hsame.trans hprior) hprior hflow hlast hcurrent hfollows hnext
    simpa [sub_eq_add_neg] using hdays

/-- An assembled amount with a value accounts for its window. -/
theorem value_accounts {p : PeriodAmount} (h : Assembled t p) (hvalue : p.value = some n) :
    ∃ d, n = .finite d ∧ p.Accounts t d := by
  cases h with
  | annual source calendar => exact annualAmount_accounts hvalue
  | quarters h => exact ttmFromQuarters_accounts h hvalue
  | ytd h => exact quarterFromYtd_accounts h hvalue
  | bridge h => exact ttmFromAnnualYtd_accounts h hvalue

/-- The descriptor of a reviewed scope. -/
def sampleDescriptor : String :=
  "\x7b\"cash_scope\":\"not_applicable\",\"consolidation\":\"consolidated\",\"context_knowledge\":\"reported\"," ++
    "\"instrument\":null,\"payment_basis\":\"as_reported\",\"revenue_basis\":\"reported_complete_scope\",\"scope_evidence\":\"10-K\"\x7d"

/-- What is read from the texts of the samples. -/
def sampleTexts : Texts where
  loads text :=
    if text = "\x7b\x7d" then some []
    else if text = sampleDescriptor then
      some [("cash_scope", .text "not_applicable"), ("consolidation", .text "consolidated"),
        ("context_knowledge", .text "reported"), ("instrument", .null), ("payment_basis", .text "as_reported"),
        ("revenue_basis", .text "reported_complete_scope"), ("scope_evidence", .text "10-K")]
    else none
  sha256 text :=
    if text = sampleDescriptor then "ddbd5d9d3d1987a3240adff3f8b7b91b4260cb015986f7a9f90d6557ef180de9" else ""
  webAddress text := text = "https://sec.gov/filing"
  isDecimal := Char.isDigit

/-- A digest of letters of one kind. -/
def sampleDigest (c : Char) : String := String.ofList (List.replicate 64 c)

/-- The query of a sample statement. -/
def sampleQuery : PitQuery :=
  { issuerId := 1, periodId := 2, scopeId := 3, unitId := 4, statementFamily := .income, concepts := [.revenue],
    batchIds := [5], captureIds := [6], filingEventIds := [], mappingRevisionId := 7, normalizerRevision := "v1",
    authorityPolicyRevision := "v1", capturedBefore := 20000 * 86400000000, mode := .latestReported,
    cutoffGiven := by decide, pinned := by decide, distinct := by decide, revisions := by decide }

/-- The revenue of a sample period. -/
def sampleRevenue (start finish : Date) (period observation amount : ℕ) (precision : Option PrecisionEvidence) : FinancialInput where
  selection :=
    { query := { sampleQuery with periodId := period }, coverageIds := [8], filingVersionIds := [9], flags := [], qualityFlagIds := [], eventIds := [],
      usableForValuation := true, reportingBasis := some "us_gaap", inputHash := sampleDigest 'a',
      facts := [
        { concept := .revenue, value := some (.finite ⟨false, amount, 0⟩), status := .observed, resolutionIds := [10],
          observationIds := [observation], accession := some "0000000001-24-000001", filedDate := some 19900,
          sourceUrl := some "https://sec.gov/filing", sourceLocator := some "row", captureIds := [6],
          sourceHashes := [sampleDigest 'b'], sourceTag := some "us-gaap:Revenues", originalNumericText := some "1",
          transformJson := some "\x7b\x7d", flags := [] }] }
  concept := .revenue
  period := { id := period, periodKind := .duration, startDate := some start, endDate := finish }
  unit := { id := 4, unitKey := "USD", numeratorMeasures := ["iso4217:USD"], denominatorMeasures := [] }
  scope :=
    { id := 3, issuerId := 1, instrumentId := none, scopeKind := "consolidated", descriptorSchemaVersion := 1,
      descriptorJson := sampleDescriptor, contentSha256 := "ddbd5d9d3d1987a3240adff3f8b7b91b4260cb015986f7a9f90d6557ef180de9" }
  precision := precision

/-- An error without a sign is not negative. -/
theorem sampleError_nonneg (error : ℕ) : 0 ≤ (⟨false, error, 0⟩ : Decimal).signed := by
  simp [Decimal.signed]

/-- One observation is named once. -/
theorem sampleObservation_valid (observation : ℕ) : validIds [observation] := by
  simp [validIds]

/-- The rounding of a quarterly report is evidence. -/
theorem sampleRounding_evidenced : ["10-Q"] ≠ [] ∧ (∀ ref ∈ ["10-Q"], Vintage.hasText ref = true) ∧ Vintage.hasText "rounding" = true := by
  decide +kernel

/-- The uncertainty of a sample amount. -/
def samplePrecision (observation error : ℕ) : PrecisionEvidence :=
  { absoluteError := ⟨false, error, 0⟩, observationIds := [observation], evidenceRefs := ["10-Q"], method := "rounding",
    nonnegative := sampleError_nonneg error, identified := sampleObservation_valid observation,
    evidenced := sampleRounding_evidenced }

/-- The revenue of half a year. -/
def sampleHalf : FinancialInput :=
  sampleRevenue ⟨2024, 1, 1, Date.inYears_2024, Date.inMonths_1, Date.inDays_2024_1_1⟩
    ⟨2024, 6, 30, Date.inYears_2024, by decide, by decide⟩ 11 12 250 (some (samplePrecision 12 5))

/-- The revenue of a first quarter. -/
def sampleFirstQuarter : FinancialInput :=
  sampleRevenue ⟨2024, 1, 1, Date.inYears_2024, Date.inMonths_1, Date.inDays_2024_1_1⟩
    ⟨2024, 3, 31, Date.inYears_2024, Date.inMonths_3, Date.inDays_2024_3_31⟩ 13 14 100 (some (samplePrecision 14 5))

/-- The second quarter of the samples accounts for its days. -/
theorem sampleQuarter_accounts : ∃ p, quarterFromYtd sampleTexts sampleHalf sampleFirstQuarter none = some p ∧
    ∃ d, Number.finite ⟨false, 150, 0⟩ = .finite d ∧ p.Accounts sampleTexts d := by
  have hvalue : (quarterFromYtd sampleTexts sampleHalf sampleFirstQuarter none).bind (·.value) =
      some (.finite ⟨false, 150, 0⟩) := by
    decide +kernel
  obtain ⟨p, hp, hvalue⟩ := Option.bind_eq_some_iff.mp hvalue
  exact ⟨p, hp, value_accounts (.ytd hp) hvalue⟩

end EquityEval.Fundamentals
