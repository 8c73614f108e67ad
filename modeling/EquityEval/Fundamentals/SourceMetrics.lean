import EquityEval.Arithmetic.Significant
import EquityEval.Fundamentals.Assembly
import EquityEval.Fundamentals.Metrics

/-!
# What a valued metric was calculated from

A metric that has a value was calculated from amounts of one body of evidence: part by part they are of
the same days, with the same signs and from the same filings, and all of them share history, basis and
currency. Its value is the exact result of the reported amounts, rounded once where it is a quotient.
-/

namespace EquityEval.Fundamentals

open Workflow DecimalArithmetic Gregorian PointInTime
open Discovery (sortedSet mem_sortedSet)

/-! ### Metrics -/

/-- The metrics that are calculated from reported or assembled amounts of one period. -/
inductive SourceMetric where
  | operatingMargin
  | grossMargin
  | netMargin
  | derivedGrossMargin
  | freeCashFlow
  | freeCashFlowMargin
deriving DecidableEq, Repr

namespace SourceMetric

/-- The concepts of the operands of a metric. -/
def concepts : SourceMetric → List Concept
  | operatingMargin => [.operatingIncome, .revenue]
  | grossMargin => [.grossProfit, .revenue]
  | netMargin => [.netIncomeConsolidated, .revenue]
  | derivedGrossMargin => [.revenue, .costOfRevenue]
  | freeCashFlow => [.cashFromOperatingActivities, .capitalExpendituresPpe]
  | freeCashFlowMargin => [.cashFromOperatingActivities, .capitalExpendituresPpe, .revenue]

/-- The calculation of a metric; nothing where it raises or is given other operands. -/
def calculation (t : Texts) : SourceMetric → List Operand → Option Calculation
  | operatingMargin, [income, revenue] => Fundamentals.operatingMargin t income revenue
  | grossMargin, [profit, revenue] => Fundamentals.grossMargin t profit revenue
  | netMargin, [income, revenue] => Fundamentals.netMargin t income revenue
  | derivedGrossMargin, [revenue, cost] => Fundamentals.derivedGrossMargin t revenue cost
  | freeCashFlow, [cfo, capex] => Fundamentals.freeCashFlow t cfo capex
  | freeCashFlowMargin, [cfo, capex, revenue] => Fundamentals.freeCashFlowMargin t cfo capex revenue
  | _, _ => none

/-- The revenue that a metric divides by. -/
def revenueOf {α : Type} : SourceMetric → List α → Option α
  | derivedGrossMargin, operands => operands[0]?
  | freeCashFlow, _ => none
  | freeCashFlowMargin, operands => operands[2]?
  | _, operands => operands[1]?

/-- The operation of a metric on the values of its operands. -/
def operation : SourceMetric → List Number → Option Decimal
  | derivedGrossMargin => fun values => do
    let profit ← differenceOf values
    quotient (.finite profit) (← values.head?)
  | freeCashFlow => differenceOf
  | freeCashFlowMargin => fun values => do
    let cashFlow ← differenceOf (values.take 2)
    quotient (.finite cashFlow) (← values[2]?)
  | _ => ratioOf

/-- The result of a metric in exact numbers. -/
def exact : SourceMetric → List ℚ → ℚ
  | derivedGrossMargin, [revenue, cost] => (revenue - cost) / revenue
  | freeCashFlow, [cfo, capex] => cfo - capex
  | freeCashFlowMargin, [cfo, capex, revenue] => (cfo - capex) / revenue
  | operatingMargin, [amount, revenue] => amount / revenue
  | grossMargin, [amount, revenue] => amount / revenue
  | netMargin, [amount, revenue] => amount / revenue
  | _, _ => 0

end SourceMetric

/-! ### One body of evidence -/

/-- The reported amounts of an operand, each with the sign that it counts with. -/
def Operand.parts : Operand → List (FinancialInput × ℤ)
  | input source => [(source, 1)]
  | period amount => amount.operands.zip amount.coefficients

/-- The operand is a reported amount, or one that an assembly returned. -/
def Operand.Returned (t : Texts) : Operand → Prop
  | input _ => True
  | period amount => Assembled t amount

/-- Two parts are of the same days, with the same sign and from the same filings. -/
structure Corresponds (a b : FinancialInput × ℤ) : Prop where
  startDate : a.1.period.startDate = b.1.period.startDate
  endDate : a.1.period.endDate = b.1.period.endDate
  coefficient : a.2 = b.2
  filings : ∀ id, id ∈ a.1.selection.filingVersionIds ↔ id ∈ b.1.selection.filingVersionIds

/-- The operands are of one body of evidence, which has the concepts that are expected. -/
structure OneEvidence (t : Texts) (operands : List Operand) (expected : List Concept) : Prop where
  complete : ∀ o ∈ operands, o.parts.map Prod.fst = o.leaves
  aligned : ∀ a ∈ operands, ∀ b ∈ operands, List.Forall₂ Corresponds a.parts b.parts
  periods : ∀ a ∈ operands, ∀ b ∈ operands, a.startDate = b.startDate ∧ a.endDate = b.endDate
  concepts : List.Forall₂ (fun o concept => ∀ leaf ∈ o.leaves, leaf.concept = concept) operands expected
  shared : ∀ a ∈ operands.flatMap (·.leaves), ∀ b ∈ operands.flatMap (·.leaves),
    a.historyKey = b.historyKey ∧ a.selection.reportingBasis = b.selection.reportingBasis ∧ a.unit.measures = b.unit.measures
  sound : ∀ leaf ∈ operands.flatMap (·.leaves),
    leaf.blockingFlags t = [] ∧ leaf.unit.WholeCurrency ∧ leaf.scope.scopeKind = "consolidated" ∧ supportedScope t leaf = true

section

variable {t : Texts} {operands : List Operand} {expected : List Concept}

/-- What does not differ between items is the same in all of them. -/
theorem eq_of_not_differ {α κ : Type} [DecidableEq κ] {key : α → κ} {items : List α} (h : ¬ Differ key items) :
    ∀ a ∈ items, ∀ b ∈ items, key a = key b := by
  intro a ha b hb
  obtain ⟨k, hk⟩ := List.length_eq_one_iff.mp (not_not.mp h)
  have hall : ∀ item ∈ items, key item = k := by
    intro item hitem
    have hmem := List.mem_dedup.mpr (List.mem_map_of_mem (f := key) hitem)
    rw [hk] at hmem
    exact List.mem_singleton.mp hmem
  rw [hall a ha, hall b hb]

/-- Lists with the same keys correspond place by place. -/
theorem forall₂_of_map_eq {α κ : Type} {key : α → κ} {R : α → α → Prop} (hkey : ∀ a b, key a = key b → R a b) :
    ∀ {l l' : List α}, l.map key = l'.map key → List.Forall₂ R l l'
  | [], [], _ => .nil
  | [], _ :: _, h => by cases h
  | _ :: _, [], h => by cases h
  | a :: l, b :: l', h => by
    obtain ⟨hhead, htail⟩ := List.cons.inj h
    exact .cons (hkey a b hhead) (forall₂_of_map_eq hkey htail)

/-- What inputs without issues share. -/
theorem shared_of_sourceIssues {sources : List FinancialInput} {concepts : List Concept} {samePeriod : Bool}
    (h : sourceIssues t sources concepts samePeriod false = []) :
    sources.map (·.concept) = concepts ∧
      (∀ a ∈ sources, ∀ b ∈ sources,
        a.historyKey = b.historyKey ∧ a.selection.reportingBasis = b.selection.reportingBasis ∧ a.unit.measures = b.unit.measures) ∧
      (∀ leaf ∈ sources, leaf.blockingFlags t = [] ∧ leaf.unit.WholeCurrency ∧ leaf.scope.scopeKind = "consolidated" ∧
        supportedScope t leaf = true) ∧
      (samePeriod = true → ∀ a ∈ sources, ∀ b ∈ sources, Corresponds (a, 1) (b, 1)) := by
  simp only [sourceIssues, List.append_eq_nil_iff, Bool.false_eq_true, if_false, flagIf_eq_nil, not_exists, not_and,
    Bool.not_eq_false] at h
  obtain ⟨⟨⟨⟨hselection, -⟩, hperiods⟩, -⟩, hscope⟩ := h
  have hblocking := blockingFlags_of_selectionIssues hselection
  simp only [selectionIssues, List.append_eq_nil_iff, flagIf_eq_nil, not_or, not_exists, not_and, not_not] at hselection
  obtain ⟨⟨⟨⟨⟨⟨-, -⟩, hconcepts⟩, hhistory⟩, hbasis⟩, -⟩, hunits, hwhole⟩ := hselection
  refine ⟨hconcepts, fun a ha b hb => ?_, fun leaf hleaf => ?_, fun hsame a ha b hb => ?_⟩
  · exact ⟨eq_of_not_differ hhistory a ha b hb, eq_of_not_differ hbasis a ha b hb, eq_of_not_differ hunits a ha b hb⟩
  · have hsupported := hscope leaf hleaf
    have hkind : leaf.scope.scopeKind = "consolidated" := by
      unfold supportedScope at hsupported
      dsimp only at hsupported
      split at hsupported
      case h_1 => cases hsupported
      case h_2 =>
        simp only [Bool.and_eq_true, decide_eq_true_eq] at hsupported
        exact hsupported.1.1.1.1.1.1.2
    exact ⟨hblocking leaf hleaf, hwhole leaf hleaf, hkind, hsupported⟩
  · rw [if_pos hsame, List.append_eq_nil_iff, flagIf_eq_nil, flagIf_eq_nil] at hperiods
    have hdays := eq_of_not_differ hperiods.1 a ha b hb
    have hfilings := eq_of_not_differ hperiods.2 a ha b hb
    refine ⟨congrArg Prod.fst hdays, congrArg Prod.snd hdays, rfl, fun id => ?_⟩
    rw [← mem_sortedSet, hfilings, mem_sortedSet]

/-- The concepts of the leaves of operands are those expected of the operands. -/
theorem forall₂_concepts (hlength : operands.length = expected.length)
    (h : (operands.flatMap (·.leaves)).map (·.concept) =
      (operands.zip expected).flatMap fun x => List.replicate x.1.leaves.length x.2) :
    List.Forall₂ (fun o concept => ∀ leaf ∈ o.leaves, leaf.concept = concept) operands expected := by
  induction operands generalizing expected with
  | nil =>
    rw [List.eq_nil_of_length_eq_zero hlength.symm]
    exact .nil
  | cons o operands ih =>
    obtain ⟨concept, expected, rfl⟩ := List.exists_cons_of_length_eq_add_one hlength.symm
    rw [List.flatMap_cons, List.map_append, List.zip_cons_cons, List.flatMap_cons] at h
    obtain ⟨hfirst, hrest⟩ := List.append_inj h (by simp)
    refine .cons (fun leaf hleaf => ?_) (ih (Nat.succ.inj hlength) hrest)
    have hmem := List.mem_map_of_mem (f := fun leaf => leaf.concept) hleaf
    rw [hfirst] at hmem
    exact List.eq_of_mem_replicate hmem

/-- Parts of assembled amounts with the same key correspond place by place. -/
theorem parts_of_assemblyKey {a b : PeriodAmount} {key : AssemblyKey} (ha : (Operand.period a).assemblyKey = some key)
    (hb : (Operand.period b).assemblyKey = some key) : List.Forall₂ Corresponds (Operand.period a).parts (Operand.period b).parts := by
  simp only [Operand.assemblyKey, Option.ite_none_right_eq_some, Option.some.injEq] at ha hb
  have hsources := ha.2.trans hb.2.symm
  simp only [AssemblyKey.assembled.injEq] at hsources
  refine forall₂_of_map_eq (fun x y hxy => ?_) hsources.2.2.2
  simp only [Prod.mk.injEq] at hxy
  obtain ⟨hstart, hend, hcoefficient, hfilings⟩ := hxy
  refine ⟨hstart, hend, hcoefficient, fun id => ?_⟩
  rw [← List.mem_insertionSort (· ≤ ·), hfilings, List.mem_insertionSort]

/-- The parts of an operand that has an assembly key are all of its sources. -/
theorem parts_complete {o : Operand} {key : AssemblyKey} (h : o.assemblyKey = some key) : o.parts.map Prod.fst = o.leaves := by
  cases o with
  | input source => rfl
  | period amount =>
    simp only [Operand.assemblyKey, Option.ite_none_right_eq_some] at h
    exact List.map_fst_zip h.1.le

/-- Each of the items that were all read has a result among those read. -/
theorem exists_result_of_mapM {α κ : Type} {read : α → Option κ} {items : List α} {results : List κ}
    (h : items.mapM read = some results) : ∀ item ∈ items, ∃ result ∈ results, read item = some result := by
  induction items generalizing results with
  | nil => simp
  | cons item items ih =>
    simp only [List.mapM_cons, Option.bind_eq_bind, Option.bind_eq_some_iff, Option.pure_def, Option.some.injEq] at h
    obtain ⟨result, hresult, rest, hrest, rfl⟩ := h
    intro x hx
    rcases List.mem_cons.mp hx with rfl | hx
    · exact ⟨result, List.mem_cons_self, hresult⟩
    · obtain ⟨found, hfound, hread⟩ := ih hrest x hx
      exact ⟨found, List.mem_cons_of_mem _ hfound, hread⟩

/-- Operands that were compared over one period have one assembly key. -/
theorem key_of_assemblyIssues (h : assemblyIssues operands = some []) :
    (∀ a ∈ operands, ∀ b ∈ operands, a.startDate = b.startDate ∧ a.endDate = b.endDate) ∧
      ∃ key, ∀ o ∈ operands, o.assemblyKey = some key := by
  simp only [assemblyIssues, Option.bind_eq_bind, Option.bind_eq_some_iff, Option.some.injEq, List.append_eq_nil_iff,
    flagIf_eq_nil] at h
  obtain ⟨keys, hkeys, hperiods, hsame⟩ := h
  refine ⟨fun a ha b hb => Prod.mk.inj (eq_of_not_differ hperiods a ha b hb), ?_⟩
  obtain ⟨key, hkey⟩ : ∃ key, ∀ k ∈ keys, k = key := by
    cases keys with
    | nil => exact absurd rfl (not_not.mp hsame ▸ by simp : ([] : List AssemblyKey).length ≠ 0)
    | cons key keys => exact ⟨key, fun k hk => eq_of_not_differ hsame k hk key List.mem_cons_self⟩
  refine ⟨key, fun o ho => ?_⟩
  obtain ⟨k, hk, hassembly⟩ := exists_result_of_mapM hkeys o ho
  rw [hassembly, hkey k hk]

/-- The leaves of operands that are all reported amounts are these amounts. -/
theorem leaves_of_inputs (h : ∀ o ∈ operands, o.isInput = true) : operands = (operands.flatMap (·.leaves)).map .input := by
  induction operands with
  | nil => rfl
  | cons o operands ih =>
    have hrest := ih fun o ho => h o (List.mem_cons_of_mem _ ho)
    cases o with
    | input source =>
      rw [List.flatMap_cons, List.map_append, ← hrest]
      rfl
    | period amount => exact absurd (h _ List.mem_cons_self) Bool.false_ne_true

/-- Reported amounts of one period without issues are of one body of evidence. -/
theorem oneEvidence_of_inputs {sources : List FinancialInput} (h : sourceIssues t sources expected true false = []) :
    OneEvidence t (sources.map .input) expected := by
  obtain ⟨hconcepts, hshared, hsound, hparts⟩ := shared_of_sourceIssues h
  have hleaves : (sources.map Operand.input).flatMap (·.leaves) = sources := by
    rw [List.flatMap_map]
    exact List.flatMap_singleton' sources
  refine ⟨?_, ?_, ?_, ?_, by rwa [hleaves], by rwa [hleaves]⟩
  · simp [Operand.parts, Operand.leaves]
  · simp only [List.forall_mem_map, Operand.parts]
    exact fun a ha b hb => .cons (hparts rfl a ha b hb) .nil
  · simp only [List.forall_mem_map]
    exact fun a ha b hb => ⟨(hparts rfl a ha b hb).startDate, (hparts rfl a ha b hb).endDate⟩
  · rw [← hconcepts, List.forall₂_map_left_iff, List.forall₂_map_right_iff, List.forall₂_same]
    simp [Operand.leaves]

/-- Operands of which one was assembled have one assembly key only if all of them were. -/
theorem periods_of_key {key : AssemblyKey} (hkey : ∀ o ∈ operands, o.assemblyKey = some key)
    (hmixed : ¬ ∀ o ∈ operands, o.isInput = true) : ∀ o ∈ operands, ∃ amount, o = .period amount := by
  push Not at hmixed
  obtain ⟨assembled, hassembled, hkind⟩ := hmixed
  intro o ho
  cases o with
  | period amount => exact ⟨amount, rfl⟩
  | input source =>
    cases assembled with
    | input other => exact absurd rfl hkind
    | period amount =>
      have hselected := hkey _ ho
      have hother := hkey _ hassembled
      simp only [Operand.assemblyKey, Option.some.injEq, Option.ite_none_right_eq_some] at hselected hother
      exact absurd (hselected.trans hother.2.symm) (by simp)

/-- Operands of one period without issues are of one body of evidence. -/
theorem oneEvidence_of_issues (hlength : operands.length = expected.length) (h : issues t operands expected true = some []) :
    OneEvidence t operands expected := by
  unfold issues at h
  dsimp only at h
  split at h
  case isTrue hinputs =>
    rw [leaves_of_inputs hinputs]
    exact oneEvidence_of_inputs (Option.some.inj h)
  case isFalse hmixed =>
    simp only [if_true, Option.bind_eq_bind, Option.bind_eq_some_iff, Option.some.injEq, List.append_eq_nil_iff] at h
    obtain ⟨-, -, compared, hcompared, ⟨⟨⟨hissues, -⟩, -⟩, -⟩, rfl⟩ := h
    obtain ⟨hconcepts, hshared, hsound, -⟩ := shared_of_sourceIssues hissues
    obtain ⟨hperiods, key, hkey⟩ := key_of_assemblyIssues hcompared
    refine ⟨fun o ho => parts_complete (hkey o ho), fun a ha b hb => ?_, hperiods, forall₂_concepts hlength hconcepts, hshared, hsound⟩
    obtain ⟨p, rfl⟩ := periods_of_key hkey hmixed a ha
    obtain ⟨q, rfl⟩ := periods_of_key hkey hmixed b hb
    exact parts_of_assemblyKey (hkey _ ha) (hkey _ hb)

/-! ### Values -/

/-- The value of an operand that was returned is finite. -/
theorem finite_of_returned {o : Operand} {n : Number} (hreturned : o.Returned t) (hvalue : o.value t = some n) : ∃ d, n = .finite d := by
  cases o with
  | input source =>
    obtain ⟨d, hd⟩ := FinancialInput.finite_of_blockingFlags (FinancialInput.blockingFlags_of_value hvalue)
    exact ⟨d, Option.some.inj (hvalue.symm.trans hd)⟩
  | period amount =>
    obtain ⟨d, hd, -⟩ := value_accounts hreturned hvalue
    exact ⟨d, hd⟩

/-- The values of operands that were returned and have one. -/
theorem values_of_returned (hreturned : ∀ o ∈ operands, o.Returned t) (hvalues : ∀ o ∈ operands, o.value t ≠ none) :
    ∃ values : List Decimal, operands.map (·.value t) = values.map fun d => some (.finite d) := by
  induction operands with
  | nil => exact ⟨[], rfl⟩
  | cons o operands ih =>
    obtain ⟨values, hrest⟩ := ih (fun o ho => hreturned o (List.mem_cons_of_mem _ ho)) fun o ho => hvalues o (List.mem_cons_of_mem _ ho)
    obtain ⟨n, hn⟩ := Option.ne_none_iff_exists'.mp (hvalues o List.mem_cons_self)
    obtain ⟨d, rfl⟩ := finite_of_returned (hreturned o List.mem_cons_self) hn
    exact ⟨d :: values, by rw [List.map_cons, hn, hrest, List.map_cons]⟩

/-- Every amount that a revenue admits is positive. -/
def PositiveRevenue (t : Texts) (revenue : Operand) : Prop :=
  ∃ d precision, revenue.value t = some (.finite d) ∧ revenue.precision = some precision ∧
    ∀ truth : ℝ, |truth - d.value| ≤ precision.absoluteError.value → 0 < truth

/-- A revenue that can be divided by is positive whatever its error is. -/
theorem positiveRevenue_of_denominatorIssues {revenue : Operand} {d : Decimal} (hvalue : revenue.value t = some (.finite d))
    (h : denominatorIssues t revenue = some []) : PositiveRevenue t revenue := by
  unfold denominatorIssues at h
  rw [hvalue] at h
  simp only [atMost] at h
  cases hprecision : revenue.precision with
  | none =>
    rw [hprecision] at h
    split at h <;> simp_all
  | some precision =>
    rw [hprecision] at h
    refine ⟨d, precision, hvalue, hprecision, fun truth htruth => ?_⟩
    split at h
    · cases h
    · cases h
    · simp_all
    · next hprecision' =>
      cases hprecision'
      simp only [Option.map_some, Option.some.injEq, flagIf_eq_nil, decide_eq_true_eq] at h
      have hvalues : precision.absoluteError.value < d.value := not_le.mp fun hle => h (Decimal.le_iff_value.mpr hle)
      have hlt : (precision.absoluteError.value : ℝ) < d.value := by exact_mod_cast hvalues
      linarith [(abs_le.mp htruth).1]

/-- What a calculation with a value found and computed. -/
theorem value_of_calculate {metric unit : String} {found : List String} {operation : List Number → Option Decimal} {margin : Bool}
    {extraFlags : List String} {n : Number}
    (h : (calculate t metric operands found operation unit margin extraFlags).value = some n) :
    found = [] ∧ (∀ o ∈ operands, o.value t ≠ none) ∧
      ∃ d, operation (operands.filterMap (·.value t)) = some d ∧ n = .finite d := by
  simp only [calculate, Option.map_eq_some_iff, Option.ite_none_right_eq_some, List.append_eq_nil_iff, flagIf_eq_nil, not_exists,
    not_and] at h
  obtain ⟨d, ⟨⟨hfound, hvalues⟩, hoperation⟩, rfl⟩ := h
  exact ⟨hfound, hvalues, d, hoperation, rfl⟩

/-- A difference that is returned is exact. -/
theorem difference_exact {a b r : Decimal} (h : difference (.finite a) (.finite b) = some r) : r.value = a.value - b.value := by
  have hdifference : ratioContext.sub? exactTraps a b = some r := h
  exact Context.sub?_exact (by decide) rfl hdifference

/-- A quotient that is returned is rounded once. -/
theorem quotient_significant {a b r : Decimal} (h : quotient (.finite a) (.finite b) = some r) :
    r.value = significant 50 (a.value / b.value) := by
  have hquotient : ratioContext.div? { subnormal := true } a b = some r := h
  have hrounded := Context.div?_significant (by decide) rfl rfl hquotient
  exact hrounded

/-- The operation of a metric returns the exact result, rounded once where it is a quotient. -/
theorem operation_exact {metric : SourceMetric} {values : List Decimal} {d : Decimal}
    (hlength : values.length = metric.concepts.length) (h : metric.operation (values.map .finite) = some d) :
    d.value = if metric = .freeCashFlow then metric.exact (values.map Decimal.value)
      else significant 50 (metric.exact (values.map Decimal.value)) := by
  cases metric with
  | operatingMargin | grossMargin | netMargin =>
    obtain ⟨a, b, rfl⟩ := List.length_eq_two.mp hlength
    exact quotient_significant h
  | derivedGrossMargin =>
    obtain ⟨a, b, rfl⟩ := List.length_eq_two.mp hlength
    obtain ⟨profit, hprofit, h⟩ := Option.bind_eq_some_iff.mp h
    have hquotient : d.value = significant 50 (profit.value / a.value) := quotient_significant h
    rw [difference_exact hprofit] at hquotient
    exact hquotient
  | freeCashFlow =>
    obtain ⟨a, b, rfl⟩ := List.length_eq_two.mp hlength
    exact difference_exact h
  | freeCashFlowMargin =>
    obtain ⟨a, b, c, rfl⟩ := List.length_eq_three.mp hlength
    obtain ⟨cashFlow, hcash, h⟩ := Option.bind_eq_some_iff.mp h
    have hquotient : d.value = significant 50 (cashFlow.value / c.value) := quotient_significant h
    rw [difference_exact hcash] at hquotient
    exact hquotient

/-- What a metric with a value found of its operands, and computed from them. -/
structure Found (t : Texts) (metric : SourceMetric) (operands : List Operand) (n : Number) : Prop where
  length : operands.length = metric.concepts.length
  issues : issues t operands metric.concepts true = some []
  denominator : ∀ revenue ∈ metric.revenueOf operands, denominatorIssues t revenue = some []
  values : ∀ o ∈ operands, o.value t ≠ none
  result : ∃ d, metric.operation (operands.filterMap (·.value t)) = some d ∧ n = .finite d

/-- A reported margin with a value. -/
theorem found_of_reportedMargin {metric : String} {concept : Concept} {numerator revenue : Operand} {c : Calculation} {n : Number}
    (h : reportedMargin t metric concept numerator revenue = some c) (hvalue : c.value = some n) :
    issues t [numerator, revenue] [concept, .revenue] true = some [] ∧ denominatorIssues t revenue = some [] ∧
      (∀ o ∈ [numerator, revenue], o.value t ≠ none) ∧
      ∃ d, ratioOf ([numerator, revenue].filterMap (·.value t)) = some d ∧ n = .finite d := by
  simp only [reportedMargin, Option.bind_eq_bind, Option.bind_eq_some_iff, Option.some.injEq] at h
  obtain ⟨found, hissues, denominator, hdenominator, rfl⟩ := h
  obtain ⟨hfound, hvalues, hresult⟩ := value_of_calculate hvalue
  obtain ⟨rfl, rfl⟩ := List.append_eq_nil_iff.mp hfound
  exact ⟨hissues, hdenominator, hvalues, hresult⟩

/-- A metric with a value found nothing that keeps its operands from being combined. -/
theorem found_of_calculation {metric : SourceMetric} {c : Calculation} {n : Number} (h : metric.calculation t operands = some c)
    (hvalue : c.value = some n) : Found t metric operands n := by
  unfold SourceMetric.calculation at h
  split at h
  case h_1 | h_2 | h_3 =>
    obtain ⟨hissues, hdenominator, hvalues, hresult⟩ := found_of_reportedMargin h hvalue
    exact ⟨rfl, hissues, by rintro _ ⟨⟩; exact hdenominator, hvalues, hresult⟩
  case h_4 =>
    simp only [derivedGrossMargin, Option.bind_eq_bind, Option.bind_eq_some_iff, Option.some.injEq] at h
    obtain ⟨found, hissues, denominator, hdenominator, rfl⟩ := h
    obtain ⟨hfound, hvalues, hresult⟩ := value_of_calculate hvalue
    obtain ⟨rfl, rfl⟩ := List.append_eq_nil_iff.mp hfound
    exact ⟨rfl, hissues, by rintro _ ⟨⟩; exact hdenominator, hvalues, hresult⟩
  case h_5 =>
    simp only [freeCashFlow, cashIssues, Option.bind_eq_bind, Option.bind_eq_some_iff, Option.some.injEq] at h
    obtain ⟨found, ⟨reported, hissues, negative, -, rfl⟩, unit, -, rfl⟩ := h
    obtain ⟨hfound, hvalues, hresult⟩ := value_of_calculate hvalue
    obtain ⟨rfl, -⟩ := List.append_eq_nil_iff.mp hfound
    exact ⟨rfl, hissues, by rintro _ ⟨⟩, hvalues, hresult⟩
  case h_6 =>
    simp only [freeCashFlowMargin, Option.bind_eq_bind, Option.bind_eq_some_iff, Option.some.injEq] at h
    obtain ⟨cash, -, found, hissues, denominator, hdenominator, rfl⟩ := h
    obtain ⟨hfound, hvalues, hresult⟩ := value_of_calculate hvalue
    obtain ⟨hboth, rfl⟩ := List.append_eq_nil_iff.mp hfound
    obtain ⟨-, rfl⟩ := List.append_eq_nil_iff.mp hboth
    exact ⟨rfl, hissues, by rintro _ ⟨⟩; exact hdenominator, hvalues, hresult⟩
  case h_7 => cases h

/-- A metric of reported or assembled amounts that has a value was calculated from one body of evidence; the revenue that it
divides by is positive within its error, and its value is the exact result of the amounts, which a quotient rounds once. -/
theorem sourceMetric_accounts {metric : SourceMetric} {c : Calculation} {n : Number} (h : metric.calculation t operands = some c)
    (hreturned : ∀ o ∈ operands, o.Returned t) (hvalue : c.value = some n) :
    OneEvidence t operands metric.concepts ∧ (∀ revenue ∈ metric.revenueOf operands, PositiveRevenue t revenue) ∧
      ∃ (values : List Decimal) (result : Decimal), operands.map (·.value t) = values.map (fun d => some (.finite d)) ∧
        n = .finite result ∧
        result.value = if metric = .freeCashFlow then metric.exact (values.map Decimal.value)
          else significant 50 (metric.exact (values.map Decimal.value)) := by
  have hfound := found_of_calculation h hvalue
  obtain ⟨values, hvalues⟩ := values_of_returned hreturned hfound.values
  obtain ⟨result, hresult, rfl⟩ := hfound.result
  have hnumbers : operands.filterMap (·.value t) = values.map .finite := by
    have hall := congrArg (List.filterMap id) hvalues
    rw [List.filterMap_map, List.filterMap_map] at hall
    simpa [Function.comp_def, List.filterMap_eq_map] using hall
  have hlength : values.length = metric.concepts.length := by
    rw [← hfound.length, ← List.length_map (f := fun o => Operand.value t o), hvalues, List.length_map]
  rw [hnumbers] at hresult
  refine ⟨oneEvidence_of_issues hfound.length hfound.issues, fun revenue hrevenue => ?_, values, result, hvalues, rfl,
    operation_exact hlength hresult⟩
  have hmem : revenue ∈ operands := by
    cases metric <;> first | exact List.mem_of_getElem? hrevenue | cases hrevenue
  obtain ⟨n, hn⟩ := Option.ne_none_iff_exists'.mp (hfound.values revenue hmem)
  obtain ⟨d, rfl⟩ := finite_of_returned (hreturned revenue hmem) hn
  exact positiveRevenue_of_denominatorIssues hn (hfound.denominator revenue hrevenue)

/-- The operating income of half a year. -/
def sampleFacts : FinancialInput :=
  { sampleHalf with
    concept := .operatingIncome
    selection :=
      { sampleHalf.selection with
        query := { sampleHalf.selection.query with concepts := [.operatingIncome], pinned := by decide }
        facts := sampleHalf.selection.facts.map fun fact =>
          { fact with concept := .operatingIncome, value := some (.finite ⟨false, 75, 0⟩) } } }

/-- The margin of the samples was calculated from one body of evidence. -/
theorem sourceMetric_accounts_sample :
    OneEvidence sampleTexts [.input sampleFacts, .input sampleHalf] [.operatingIncome, .revenue] := by
  have hvalue : ((SourceMetric.operatingMargin.calculation sampleTexts [.input sampleFacts, .input sampleHalf]).bind (·.value)) =
      some (.finite ⟨false, 3, -1⟩) := by
    decide +kernel
  obtain ⟨c, hc, hvalue⟩ := Option.bind_eq_some_iff.mp hvalue
  exact (sourceMetric_accounts hc (by simp [Operand.Returned]) hvalue).1

end

end EquityEval.Fundamentals
