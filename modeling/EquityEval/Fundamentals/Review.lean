import EquityEval.Fundamentals.Assessment
import EquityEval.Sorting.Keys
import EquityEval.Text.Trees

/-!
# Observations and review items

A summary is made of assessments of one company that agree in their sources and periods, each reproduced in the one
context. Observations state what the usable ones say; review items are at most three topics, the gaps in the data first.
Neither depends on the order of the assessments.
-/

namespace EquityEval.Fundamentals

open Workflow DecimalArithmetic Gregorian PointInTime Sorting
open Discovery (sortedSet)

instance : DecidableEq MetricApplicability := fun a b =>
  decidable_of_iff (a.metricId = b.metricId ∧ a.applicable = b.applicable ∧ a.rationale = b.rationale) (by cases a; cases b; simp)

deriving instance DecidableEq for ProfilePolicy

instance : DecidableEq FreshnessPolicy := fun a b =>
  decidable_of_iff (a.revision = b.revision ∧ a.maxAgeDays = b.maxAgeDays ∧ a.evidenceRefs = b.evidenceRefs ∧
    a.expectedPeriodEnd = b.expectedPeriodEnd ∧ a.expectedBy = b.expectedBy) (by cases a; cases b; simp)

deriving instance DecidableEq for EvaluationContext

namespace MetricAssessment

/-- The assessment may be used. -/
def usable (a : MetricAssessment) : Bool := a.status = .valid && a.applicability = some true

/-- The metric of the calculation. -/
def metricId (a : MetricAssessment) : String := a.calculation.metricId

/-- The assessment equals another one of the same calculation. -/
def sameAs (identical : Number → Number → Bool) (a b : MetricAssessment) : Bool :=
  decide (a.context = b.context ∧ a.applicability = b.applicability ∧ a.status = b.status) &&
    equalNumbers identical a.value b.value && decide (a.reasons = b.reasons ∧ a.evaluationRevision = b.evaluationRevision)

/-- The operand that the assessment is about, where it counts. -/
def target (a : MetricAssessment) : Option Operand := if a.status = .invalid then none else a.calculation.operands.head?

/-- The reported amounts under the operands of an assessment that counts. -/
def sources (a : MetricAssessment) : List FinancialInput :=
  if a.target = none then [] else a.calculation.operands.flatMap (·.leaves)

/-- The window of a flow, with how it was assembled. -/
def flowWindow (a : MetricAssessment) : Option (Date × Date × String) := do
  let target ← a.target
  let start ← target.startDate
  let assembly := match target with
    | .input _ => "reported"
    | .period p => if p.formulaId = "direct_annual" then "reported" else p.formulaId
  return (start, target.endDate, assembly)

/-- The filings of the sources that end with the target. -/
def edition (a : MetricAssessment) : Option (List Uuid) :=
  a.target.map fun target => sortedSet
    ((a.sources.filter fun source => source.period.endDate = target.endDate).flatMap (·.selection.filingVersionIds))

end MetricAssessment

/-- All the items are one. -/
def Agree {α : Type} (items : List α) : Prop := ∀ a ∈ items, ∀ b ∈ items, a = b

instance {α : Type} [DecidableEq α] (items : List α) : Decidable (Agree items) := by
  unfold Agree
  infer_instance

section

variable (t : Texts) (identical : Number → Number → Bool) (localDay : FinancialInput → Day)

/-- The assessment is what its calculation gives in a context. -/
def Reproducible (context : EvaluationContext) (a : MetricAssessment) : Prop :=
  a.context = context ∧ ∃ r ∈ evaluate t identical localDay a.calculation context, r.sameAs identical a = true

instance (context : EvaluationContext) (a : MetricAssessment) : Decidable (Reproducible t identical localDay context a) := by
  unfold Reproducible
  infer_instance

/-- `_checked` raises nothing: the metrics differ, every assessment is reproduced, and their sources and periods agree. -/
structure Checked (assessments : List MetricAssessment) (context : EvaluationContext) : Prop where
  distinct : (assessments.map (·.metricId)).Nodup
  reproducible : ∀ a ∈ assessments, Reproducible t identical localDay context a
  histories : Agree ((assessments.flatMap (·.sources)).map (·.historyKey))
  ends : Agree (assessments.filterMap fun a => a.target.map (·.endDate))
  windows : Agree (assessments.filterMap (·.flowWindow))
  editions : Agree (assessments.filterMap (·.edition))

instance (assessments : List MetricAssessment) (context : EvaluationContext) :
    Decidable (Checked t identical localDay assessments context) :=
  decidable_of_iff ((assessments.map (·.metricId)).Nodup ∧ (∀ a ∈ assessments, Reproducible t identical localDay context a) ∧
      Agree ((assessments.flatMap (·.sources)).map (·.historyKey)) ∧
      Agree (assessments.filterMap fun a => a.target.map (·.endDate)) ∧ Agree (assessments.filterMap (·.flowWindow)) ∧
      Agree (assessments.filterMap (·.edition)))
    ⟨fun h => ⟨h.1, h.2.1, h.2.2.1, h.2.2.2.1, h.2.2.2.2.1, h.2.2.2.2.2⟩, fun h => ⟨h.1, h.2, h.3, h.4, h.5, h.6⟩⟩

end

/-! ### Observations -/

/-- What an observation is about, in the order of its priority. -/
inductive Category where
  | data
  | cash
  | operating
deriving DecidableEq, Repr

/-- `priority`. -/
def Category.priority : Category → ℕ
  | data => 0
  | cash => 1
  | operating => 2

/-- What a rule finds. -/
structure Finding where
  ruleId : String
  topic : String
  category : Category
  text : String
deriving DecidableEq, Repr

/-- A finding with the assessments that it is about. -/
structure Observation extends Finding where
  metrics : List MetricAssessment
  ruleRevision : String := "s5-neutral-observations-v1"

/-- How a number compares with zero; nothing where the comparison raises. -/
def numberSign : Number → Option Ordering
  | .finite d => some (cmp d.value 0)
  | .infinite negative => some (if negative then .lt else .gt)
  | .nan _ _ _ => none

/-- What the growth of revenue says. -/
def growthFinding : Ordering → Finding
  | .gt => ⟨"revenue_grew", "revenue", .operating, "Revenue grew year over year."⟩
  | .lt => ⟨"revenue_declined", "revenue", .operating, "Revenue fell year over year."⟩
  | .eq => ⟨"revenue_unchanged", "revenue", .operating, "Revenue was unchanged year over year."⟩

/-- A finding about a negative amount. -/
def whenNegative (finding : Finding) (sign : Ordering) : Option Finding := if sign = .lt then some finding else none

/-- Cash spending that was not covered. -/
def spendingGap : Finding :=
  ⟨"cash_spending_gap", "cash_generation", .cash, "Operating cash flow did not cover cash PPE spending."⟩

/-- A loss of the operations. -/
def operatingLoss : Finding :=
  ⟨"operating_loss", "earnings", .operating, "Operating income was negative for this period."⟩

/-- A loss of the whole. -/
def consolidatedLoss : Finding :=
  ⟨"consolidated_loss", "earnings", .operating, "Consolidated net income was negative for this period."⟩

/-- The rules of the metrics that have one. -/
def rules : List (String × (Ordering → Option Finding)) :=
  [("revenue_growth_yoy", fun sign => some (growthFinding sign)),
    ("free_cash_flow_ppe", whenNegative spendingGap),
    ("free_cash_flow_margin_ppe", whenNegative spendingGap),
    ("operating_margin", whenNegative operatingLoss),
    ("net_margin_consolidated", whenNegative consolidatedLoss),
    ("return_on_assets", whenNegative consolidatedLoss)]

/-- What an assessment says, if anything; nothing where that raises. -/
def finding (a : MetricAssessment) : Option (Option Finding) :=
  match rules.lookup a.metricId, a.value with
  | some rule, some value => if a.usable then (numberSign value).map rule else some none
  | _, _ => some none

/-- The observations of one assessment. -/
def observationsOf (a : MetricAssessment) : Option (List Observation) :=
  (finding a).map fun found => found.toList.map fun f => ⟨f, [a], "s5-neutral-observations-v1"⟩

section

variable (t : Texts) (identical : Number → Number → Bool) (localDay : FinancialInput → Day)

/-- `observations`; nothing where it raises. -/
def observations (assessments : List MetricAssessment) : Option (List Observation) :=
  match assessments with
  | [] => some []
  | first :: _ =>
    if Checked t identical localDay assessments first.context then
      ((byKey MetricAssessment.metricId assessments).mapM observationsOf).map List.flatten
    else none

/-! ### Review items -/

/-- A gap in the data. -/
def dataReview : Finding :=
  ⟨"data_review", "data_availability", .data, "Review metric availability and its evidence."⟩

/-- A margin that is extreme. -/
def extremeMarginReview : Finding :=
  ⟨"extreme_margin_review", "extreme_margin", .data, "Review the reported amounts and the margin calculation."⟩

/-- What is to be reviewed about the data of an assessment. -/
def dataFinding (a : MetricAssessment) : Option Finding :=
  if a.usable = false then some dataReview
  else if "extreme_margin" ∈ a.reasons then some extremeMarginReview
  else none

/-- What may become a review item: observations that are no good news, and what is to be reviewed about the data. -/
def candidates (facts : List Observation) (assessments : List MetricAssessment) : List Observation :=
  facts.filter (fun fact => fact.ruleId ≠ "revenue_grew" ∧ fact.ruleId ≠ "revenue_unchanged") ++
    assessments.filterMap fun a => (dataFinding a).map fun f => ⟨f, [a], "s5-neutral-observations-v1"⟩

/-- The order of the candidates. -/
def reviewKey (o : Observation) : ℕ ×ₗ String ×ₗ String :=
  toLex (o.category.priority, toLex (o.ruleId, (o.metrics.head?.map (·.metricId)).getD ""))

/-- All assessments of the candidates of a topic. -/
def related (found : List Observation) (topic : String) : List MetricAssessment :=
  byKey MetricAssessment.metricId
    (distinct MetricAssessment.metricId ((found.filter fun o => o.topic = topic).flatMap (·.metrics)))

/-- One item for each topic that was not seen, about everything related to it. -/
def topics (found : List Observation) : List Observation → List String → List Observation
  | [], _ => []
  | candidate :: rest, seen =>
    if candidate.topic ∈ seen then topics found rest seen
    else { candidate with metrics := related found candidate.topic } :: topics found rest (candidate.topic :: seen)

/-- `review_items`; nothing where it raises. -/
def reviewItems (assessments : List MetricAssessment) : Option (List Observation) :=
  (observations t identical localDay assessments).map fun facts =>
    let found := candidates facts assessments
    (topics found (byKey reviewKey found) []).take 3

end

/-! ### The order of the assessments -/

section

variable {t : Texts} {identical : Number → Number → Bool} {localDay : FinancialInput → Day}
variable {assessments assessments' : List MetricAssessment} {context : EvaluationContext} {facts : List Observation}

/-- Items that agree do so in every order. -/
theorem Agree.perm {α : Type} {items items' : List α} (h : Agree items) (hperm : items.Perm items') : Agree items' :=
  fun a ha b hb => h a (hperm.mem_iff.mpr ha) b (hperm.mem_iff.mpr hb)

/-- Assessments that are accepted are so in every order. -/
theorem Checked.perm (h : Checked t identical localDay assessments context) (hperm : assessments.Perm assessments') :
    Checked t identical localDay assessments' context where
  distinct := (hperm.map _).nodup_iff.mp h.distinct
  reproducible a ha := h.reproducible a (hperm.mem_iff.mpr ha)
  histories := h.histories.perm ((hperm.flatMap_right _).map _)
  ends := h.ends.perm (hperm.filterMap _)
  windows := h.windows.perm (hperm.filterMap _)
  editions := h.editions.perm (hperm.filterMap _)

/-- Distinct metrics tell the assessments apart. -/
theorem keyed_of_nodup (h : (assessments.map (·.metricId)).Nodup) : Keyed MetricAssessment.metricId assessments :=
  fun _ ha _ hb => List.inj_on_of_nodup_map h ha hb

/-- Observations are made of assessments that are accepted in their one context. -/
theorem observations_eq_some (hsome : assessments ≠ []) : observations t identical localDay assessments = some facts ↔
    (∃ context, (∀ a ∈ assessments, a.context = context) ∧ Checked t identical localDay assessments context) ∧
      ((byKey MetricAssessment.metricId assessments).mapM observationsOf).map List.flatten = some facts := by
  cases assessments with
  | nil => exact absurd rfl hsome
  | cons first rest =>
    simp only [observations]
    constructor
    · intro h
      split at h
      case isTrue hchecked => exact ⟨⟨_, fun a ha => (hchecked.reproducible a ha).1, hchecked⟩, h⟩
      case isFalse => cases h
    · rintro ⟨⟨context, hcontext, hchecked⟩, h⟩
      rw [if_pos (hcontext first (by simp) ▸ hchecked), h]

/-- Observations do not depend on the order of the assessments. -/
theorem observations_perm (h : observations t identical localDay assessments = some facts)
    (hperm : assessments.Perm assessments') : observations t identical localDay assessments' = some facts := by
  by_cases hsome : assessments = []
  · subst hsome
    rw [List.nil_perm.mp hperm]
    exact h
  · have hsome' : assessments' ≠ [] := fun hnil => hsome (List.perm_nil.mp (hnil ▸ hperm))
    obtain ⟨⟨context, hcontext, hchecked⟩, hfacts⟩ := (observations_eq_some hsome).mp h
    refine (observations_eq_some hsome').mpr ⟨⟨context, fun a ha => ?_, hchecked.perm hperm⟩, ?_⟩
    · exact hcontext a (hperm.mem_iff.mpr ha)
    · rwa [← byKey_congr (keyed_of_nodup hchecked.distinct) hperm]

/-- Accepted assessments have distinct metrics. -/
theorem metricIds_nodup (h : observations t identical localDay assessments = some facts) :
    (assessments.map (·.metricId)).Nodup := by
  by_cases hsome : assessments = []
  · subst hsome
    exact List.nodup_nil
  · obtain ⟨⟨context, -, hchecked⟩, -⟩ := (observations_eq_some hsome).mp h
    exact hchecked.distinct

/-- An observation states what one of the assessments says. -/
theorem exists_of_mem_observations (h : observations t identical localDay assessments = some facts) {o : Observation}
    (ho : o ∈ facts) : ∃ a ∈ assessments, ∃ f, finding a = some (some f) ∧ o = ⟨f, [a], "s5-neutral-observations-v1"⟩ := by
  by_cases hsome : assessments = []
  · subst hsome
    cases h
    cases ho
  · obtain ⟨-, hfacts⟩ := (observations_eq_some hsome).mp h
    obtain ⟨groups, hgroups, rfl⟩ := Option.map_eq_some_iff.mp hfacts
    obtain ⟨group, hgroup, hmem⟩ := List.mem_flatten.mp ho
    obtain ⟨a, ha, hobserve⟩ := Text.Tree.mem_of_mapM hgroups hgroup
    obtain ⟨found, hfound, rfl⟩ := Option.map_eq_some_iff.mp hobserve
    obtain ⟨f, hf, rfl⟩ := List.mem_map.mp hmem
    rw [Option.mem_toList] at hf
    exact ⟨a, mem_byKey.mp ha, f, hf ▸ hfound, rfl⟩

end

/-! ### The candidates -/

section

variable {t : Texts} {identical : Number → Number → Bool} {localDay : FinancialInput → Day}
variable {assessments assessments' : List MetricAssessment} {facts : List Observation} {a b : MetricAssessment}
variable {f g : Finding} {o : Observation}

/-- The rules of the metrics find nothing about the data. -/
theorem category_of_finding (h : finding a = some (some f)) : f.category ≠ .data ∧ f.topic ≠ "data_availability" := by
  have hrules : ∀ p ∈ rules, ∀ sign g, p.2 sign = some g → g.category ≠ .data ∧ g.topic ≠ "data_availability" := by
    intro p hp sign g hg
    simp only [rules, List.mem_cons, List.not_mem_nil, or_false] at hp
    rcases hp with rfl | rfl | rfl | rfl | rfl | rfl <;> cases sign <;>
      simp_all [whenNegative, growthFinding, spendingGap, operatingLoss, consolidatedLoss] <;> subst hg <;> decide
  unfold finding at h
  split at h
  case h_1 rule value hrule hvalue =>
    split at h
    case isTrue =>
      obtain ⟨sign, -, hsign⟩ := Option.map_eq_some_iff.mp h
      obtain ⟨before, after, hsplit, -⟩ := List.lookup_eq_some_iff.mp hrule
      exact hrules (a.metricId, rule) (by rw [hsplit]; simp) sign f hsign
    case isFalse => simp at h
  case h_2 => simp at h

/-- What is to be reviewed about the data is a gap or an extreme margin. -/
theorem dataFinding_eq_some (h : dataFinding a = some f) :
    f = dataReview ∧ a.usable = false ∨ f = extremeMarginReview ∧ a.usable = true := by
  unfold dataFinding at h
  split at h
  case isTrue husable => exact .inl ⟨(Option.some_inj.mp h).symm, husable⟩
  case isFalse husable =>
    split at h
    case isTrue => exact .inr ⟨(Option.some_inj.mp h).symm, by simpa using husable⟩
    case isFalse => cases h

/-- What is to be reviewed about the data is of that category. -/
theorem category_of_dataFinding (h : dataFinding a = some f) : f.category = .data := by
  rcases dataFinding_eq_some h with ⟨rfl, -⟩ | ⟨rfl, -⟩ <;> rfl

/-- Each candidate is about one assessment. -/
theorem exists_of_mem_candidates (h : observations t identical localDay assessments = some facts)
    (ho : o ∈ candidates facts assessments) :
    ∃ a ∈ assessments, ∃ f, (finding a = some (some f) ∨ dataFinding a = some f) ∧
      o = ⟨f, [a], "s5-neutral-observations-v1"⟩ := by
  rcases List.mem_append.mp ho with hfact | hdata
  · obtain ⟨a, ha, f, hf, rfl⟩ := exists_of_mem_observations h (List.mem_filter.mp hfact).1
    exact ⟨a, ha, f, .inl hf, rfl⟩
  · obtain ⟨a, ha, hmap⟩ := List.mem_filterMap.mp hdata
    obtain ⟨f, hf, rfl⟩ := Option.map_eq_some_iff.mp hmap
    exact ⟨a, ha, f, .inr hf, rfl⟩

/-- An assessment that is unusable is a candidate. -/
theorem gap_mem_candidates (ha : a ∈ assessments) (husable : a.usable = false) :
    ⟨dataReview, [a], "s5-neutral-observations-v1"⟩ ∈ candidates facts assessments := by
  refine List.mem_append_right _ (List.mem_filterMap.mpr ⟨a, ha, ?_⟩)
  simp [dataFinding, husable]

/-- The candidates that are about gaps are the unusable assessments. -/
theorem mem_gaps (h : observations t identical localDay assessments = some facts) :
    (∃ o ∈ candidates facts assessments, o.topic = "data_availability" ∧ a ∈ o.metrics) ↔
      a ∈ assessments ∧ a.usable = false := by
  constructor
  · rintro ⟨o, ho, htopic, hmem⟩
    obtain ⟨b, hb, f, hf, rfl⟩ := exists_of_mem_candidates h ho
    obtain rfl := List.mem_singleton.mp hmem
    rcases hf with hf | hf
    · exact absurd htopic (category_of_finding hf).2
    · rcases dataFinding_eq_some hf with ⟨-, husable⟩ | ⟨rfl, -⟩
      · exact ⟨hb, husable⟩
      · simp [extremeMarginReview] at htopic
  · rintro ⟨ha, husable⟩
    exact ⟨_, gap_mem_candidates ha husable, rfl, by simp⟩

/-- The order of the candidates tells them apart. -/
theorem candidates_keyed (h : observations t identical localDay assessments = some facts)
    (hkeyed : Keyed MetricAssessment.metricId assessments) : Keyed reviewKey (candidates facts assessments) := by
  intro o ho o' ho' hkey
  obtain ⟨a, ha, f, hf, rfl⟩ := exists_of_mem_candidates h ho
  obtain ⟨b, hb, g, hg, rfl⟩ := exists_of_mem_candidates h ho'
  simp only [reviewKey, EmbeddingLike.apply_eq_iff_eq, Prod.mk.injEq, List.head?_cons, Option.map_some, Option.getD_some] at hkey
  obtain ⟨hpriority, -, hmetric⟩ := hkey
  obtain rfl := hkeyed a ha b hb hmetric
  have hcategory : f.category = g.category := by
    revert hpriority
    cases f.category <;> cases g.category <;> simp [Category.priority]
  rcases hf with hf | hf <;> rcases hg with hg | hg
  · rw [hf, Option.some_inj, Option.some_inj] at hg
    rw [hg]
  · exact absurd (hcategory.trans (category_of_dataFinding hg)) (category_of_finding hf).1
  · exact absurd (hcategory.symm.trans (category_of_dataFinding hf)) (category_of_finding hg).1
  · rw [hf, Option.some_inj] at hg
    rw [hg]

/-- The assessments under the candidates have their own metrics. -/
theorem metrics_keyed (h : observations t identical localDay assessments = some facts)
    (hkeyed : Keyed MetricAssessment.metricId assessments) (topic : String) :
    Keyed MetricAssessment.metricId
      (((candidates facts assessments).filter fun o => o.topic = topic).flatMap (·.metrics)) := by
  have hmem : ∀ b ∈ ((candidates facts assessments).filter fun o => o.topic = topic).flatMap (·.metrics), b ∈ assessments := by
    intro b hb
    obtain ⟨o, ho, hmetric⟩ := List.mem_flatMap.mp hb
    obtain ⟨a, ha, f, -, rfl⟩ := exists_of_mem_candidates h (List.mem_filter.mp ho).1
    rwa [List.mem_singleton.mp hmetric]
  exact fun b hb c hc => hkeyed b (hmem b hb) c (hmem c hc)

/-- The candidates of rearranged assessments are rearranged. -/
theorem candidates_perm (hperm : assessments.Perm assessments') :
    (candidates facts assessments).Perm (candidates facts assessments') := (hperm.filterMap _).append_left _

/-- The assessments of a topic do not depend on the order. -/
theorem related_perm (h : observations t identical localDay assessments = some facts)
    (hkeyed : Keyed MetricAssessment.metricId assessments) (hperm : assessments.Perm assessments') (topic : String) :
    related (candidates facts assessments) topic = related (candidates facts assessments') topic := by
  have hmetrics : ((candidates facts assessments).filter fun o => o.topic = topic).flatMap (·.metrics) |>.Perm
      (((candidates facts assessments').filter fun o => o.topic = topic).flatMap (·.metrics)) :=
    ((candidates_perm hperm).filter _).flatMap_right _
  have hkeys := metrics_keyed h hkeyed topic
  refine byKey_distinct hkeys (fun b hb c hc => ?_) fun b => hmetrics.mem_iff
  exact hkeys b (hmetrics.mem_iff.mpr hb) c (hmetrics.mem_iff.mpr hc)

/-- The assessments about gaps are the unusable ones. -/
theorem related_gaps (h : observations t identical localDay assessments = some facts)
    (hkeyed : Keyed MetricAssessment.metricId assessments) (hnodup : assessments.Nodup) :
    (related (candidates facts assessments) "data_availability").Perm (assessments.filter fun a => a.usable = false) := by
  have hkeys := metrics_keyed h hkeyed "data_availability"
  refine (byKey_perm _).trans ((List.perm_ext_iff_of_nodup (distinct_nodup _) (hnodup.filter _)).mpr fun a => ?_)
  rw [mem_distinct hkeys, List.mem_filter, decide_eq_true_eq, ← mem_gaps h, List.mem_flatMap]
  simp only [List.mem_filter, decide_eq_true_eq, and_assoc]

end

/-! ### The topics -/

section

variable {found found' l : List Observation} {seen : List String}

/-- Topics use the candidates only for what is related to one. -/
theorem topics_congr (h : ∀ topic, related found topic = related found' topic) :
    topics found l seen = topics found' l seen := by
  induction l generalizing seen with
  | nil => rfl
  | cons candidate rest ih => simp only [topics, ih, h]

/-- Topics state what the candidates found. -/
theorem topics_sublist : ((topics found l seen).map (·.toFinding)).Sublist (l.map (·.toFinding)) := by
  induction l generalizing seen with
  | nil => exact List.Sublist.slnil
  | cons candidate rest ih =>
    rw [topics]
    split
    case isTrue => exact ih.cons _
    case isFalse => exact ih.cons_cons _

/-- Topics were not seen before. -/
theorem not_mem_of_mem_topics {o : Observation} (h : o ∈ topics found l seen) : o.topic ∉ seen := by
  induction l generalizing seen with
  | nil => cases h
  | cons candidate rest ih =>
    rw [topics] at h
    split at h
    case isTrue => exact ih h
    case isFalse hseen =>
      rcases List.mem_cons.mp h with rfl | hrest
      · exact hseen
      · exact fun hmem => ih hrest (List.mem_cons_of_mem _ hmem)

/-- No topic comes twice. -/
theorem topics_nodup : ((topics found l seen).map (·.topic)).Nodup := by
  induction l generalizing seen with
  | nil => exact List.nodup_nil
  | cons candidate rest ih =>
    rw [topics]
    split
    case isTrue => exact ih
    case isFalse =>
      rw [List.map_cons, List.nodup_cons]
      refine ⟨fun hmem => ?_, ih⟩
      obtain ⟨o, ho, htopic⟩ := List.mem_map.mp hmem
      exact not_mem_of_mem_topics ho (htopic ▸ List.mem_cons_self)

/-- Topics are in the order of their priority. -/
theorem topics_priority :
    ((topics found (byKey reviewKey l) seen).map (·.category.priority)).Pairwise (· ≤ ·) := by
  have hsorted : ((byKey reviewKey l).map (·.toFinding)).Pairwise fun f g => f.category.priority ≤ g.category.priority := by
    refine List.pairwise_map.mpr ((byKey_pairwise l).imp fun {o o'} hle => ?_)
    rcases Prod.Lex.toLex_le_toLex.mp hle with hlt | ⟨heq, -⟩
    · exact hlt.le
    · exact heq.le
  have hkept : ((topics found (byKey reviewKey l) seen).map (·.toFinding)).Pairwise
      fun f g => f.category.priority ≤ g.category.priority := hsorted.sublist topics_sublist
  rw [List.pairwise_map] at hkept ⊢
  exact hkept

end

section

variable {t : Texts} {identical : Number → Number → Bool} {localDay : FinancialInput → Day}
variable {assessments assessments' : List MetricAssessment} {facts items : List Observation} {a : MetricAssessment}

/-- Where an assessment is unusable the candidates start with a gap. -/
theorem byKey_candidates_eq_cons (h : observations t identical localDay assessments = some facts) (ha : a ∈ assessments)
    (husable : a.usable = false) : ∃ first rest, byKey reviewKey (candidates facts assessments) = first :: rest ∧
      first.toFinding = dataReview := by
  have hgap : _ ∈ candidates facts assessments := gap_mem_candidates ha husable
  cases hsorted : byKey reviewKey (candidates facts assessments) with
  | nil => exact absurd (hsorted ▸ mem_byKey.mpr hgap) List.not_mem_nil
  | cons first rest =>
    refine ⟨first, rest, rfl, ?_⟩
    have hle := le_of_byKey_eq_cons hsorted hgap
    have hfirst : first ∈ candidates facts assessments := mem_byKey.mp (hsorted ▸ List.mem_cons_self)
    obtain ⟨b, hb, f, hf, rfl⟩ := exists_of_mem_candidates h hfirst
    simp only [reviewKey, Prod.Lex.toLex_le_toLex] at hle
    rcases hf with hf | hf
    · -- what the rules find comes after the gaps
      have hcategory := (category_of_finding hf).1
      cases hc : f.category <;> simp_all [Category.priority, dataReview]
    · rcases dataFinding_eq_some hf with ⟨rfl, -⟩ | ⟨rfl, -⟩
      · rfl
      · have hafter : "data_review" < "extreme_margin_review" := by decide
        rcases hle with hlt | ⟨-, hlt | ⟨heq, -⟩⟩
        · exact absurd hlt (lt_irrefl 0)
        · exact absurd hlt hafter.not_gt
        · exact absurd heq hafter.ne'

/-- A summary does not depend on the order of the assessments, and it hides no gap in the data. -/
theorem review_summary (hfacts : observations t identical localDay assessments = some facts)
    (hitems : reviewItems t identical localDay assessments = some items) :
    (∀ assessments', assessments.Perm assessments' →
      observations t identical localDay assessments' = some facts ∧
      reviewItems t identical localDay assessments' = some items) ∧
    items.length ≤ 3 ∧ (items.map (·.topic)).Nodup ∧ (items.map (·.category.priority)).Pairwise (· ≤ ·) ∧
    ((∃ a ∈ assessments, a.usable = false) → ∃ first rest, items = first :: rest ∧ first.topic = "data_availability" ∧
      first.metrics.Perm (assessments.filter fun a => a.usable = false)) := by
  have hkeyed := keyed_of_nodup (metricIds_nodup hfacts)
  have htake : items = (topics (candidates facts assessments) (byKey reviewKey (candidates facts assessments)) []).take 3 := by
    simpa [reviewItems, hfacts] using hitems.symm
  have hsub : items.Sublist (topics (candidates facts assessments) (byKey reviewKey (candidates facts assessments)) []) :=
    htake ▸ List.take_sublist _ _
  refine ⟨fun assessments' hperm => ?_, ?_, ?_, ?_, ?_⟩
  · have hfacts' := observations_perm hfacts hperm
    have hsorted : byKey reviewKey (candidates facts assessments) = byKey reviewKey (candidates facts assessments') :=
      byKey_congr (candidates_keyed hfacts hkeyed) (candidates_perm hperm)
    refine ⟨hfacts', ?_⟩
    rw [reviewItems, hfacts', Option.map_some, htake, topics_congr (related_perm hfacts hkeyed hperm), hsorted]
  · rw [htake]
    exact List.length_take_le 3 _
  · exact topics_nodup.sublist (hsub.map _)
  · exact topics_priority.sublist (hsub.map _)
  · rintro ⟨a, ha, husable⟩
    obtain ⟨first, rest, hsorted, hfirst⟩ := byKey_candidates_eq_cons hfacts ha husable
    have htopic : first.topic = "data_availability" := congrArg Finding.topic hfirst
    rw [hsorted, topics, if_neg List.not_mem_nil, List.take_succ_cons] at htake
    refine ⟨_, _, htake, htopic, ?_⟩
    simp only [htopic]
    exact related_gaps hfacts hkeyed (List.Nodup.of_map _ (metricIds_nodup hfacts))

/-- The cash flow of the samples, which is not in the roster, beside the revenue. -/
def sampleSummary : List MetricAssessment :=
  [sampleCashFlow, reportedAmount sampleCashTexts (.input sampleFirstQuarter)].filterMap fun c =>
    c.bind fun c => evaluate sampleCashTexts (fun _ _ => false) (fun _ => 20000) c sampleContext

/-- The samples are accepted, and one of them is unusable. -/
theorem sampleSummary_accepted : (observations sampleCashTexts (fun _ _ => false) (fun _ => 20000) sampleSummary).isSome = true ∧
    sampleSummary.map (·.usable) = [false, true] := by
  decide +kernel

theorem review_summary_sample : ∃ facts items,
    observations sampleCashTexts (fun _ _ => false) (fun _ => 20000) sampleSummary = some facts ∧
    reviewItems sampleCashTexts (fun _ _ => false) (fun _ => 20000) sampleSummary.reverse = some items ∧
    ∃ first rest, items = first :: rest ∧ first.topic = "data_availability" ∧
      first.metrics.Perm (sampleSummary.filter fun a => a.usable = false) := by
  obtain ⟨haccepted, husable⟩ := sampleSummary_accepted
  obtain ⟨facts, hfacts⟩ := Option.isSome_iff_exists.mp haccepted
  obtain ⟨items, hitems⟩ :
      ∃ items, reviewItems sampleCashTexts (fun _ _ => false) (fun _ => 20000) sampleSummary = some items := by
    rw [reviewItems, hfacts]
    exact ⟨_, rfl⟩
  have hgap : ∃ a ∈ sampleSummary, a.usable = false := by
    have hmem : false ∈ sampleSummary.map (·.usable) := by simp [husable]
    exact List.mem_map.mp hmem
  obtain ⟨hperm, -, -, -, hfirst⟩ := review_summary hfacts hitems
  exact ⟨facts, items, hfacts, (hperm _ (List.reverse_perm _).symm).2, hfirst hgap⟩

end

end EquityEval.Fundamentals
