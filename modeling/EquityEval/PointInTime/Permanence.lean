import EquityEval.PointInTime.Order
import EquityEval.PointInTime.Sealing

/-!
# Permanent reads

A query of published batches reads the same rows in every later state. Its selection is then the same
in every later state and for every order of the rows, exactly when the rows are uniform.
-/

namespace EquityEval.PointInTime

open Relational Workflow Ingestion TransitionSystem Store

variable {s s' : Store} {q : PitQuery} {o : RowOrder} {digest : SelectionContent → String}

/-- The bundle of a query of sealed evidence is the same later. -/
theorem bundle_later (h : Later s s') (hs : Committed s) (hq : Pinned s q) : bundle o s' q = bundle o s q := by
  simp only [bundle, h.batchRows_eq hq, h.inputRows_eq hs hq, h.eventRows_eq hs hq, h.additionalFlags_eq hq]

/-- The eligible statements of sealed evidence are the same later. -/
theorem eligibleCoverage_later (h : Later s s') (hs : Committed s) (hq : Pinned s q) (captures : List Uuid) :
    eligibleCoverage o s' q captures = eligibleCoverage o s q captures := by
  simp only [eligibleCoverage, h.coverageRows_eq hs hq]

/-- A covered statement that a query asks for is of a pinned batch. -/
theorem pinned_of_mem_coverageRows {row : CoverageRow} (h : row ∈ s.coverageRows q) :
    row.coverage ∈ s.coverage.rows ∧ row.coverage.batchId ∈ q.batchIds := by
  obtain ⟨c, hc, hrow⟩ := List.mem_filterMap.mp h
  obtain ⟨hmem, hbatch, -⟩ := (Table.mem_select _).mp hc
  obtain ⟨version, -, hrest⟩ := Option.bind_eq_some_iff.mp hrow
  obtain ⟨filing, -, hsome⟩ := Option.bind_eq_some_iff.mp hrest
  cases Option.some.inj hsome
  exact ⟨hmem, hbatch⟩

/-- The selection of an edition of sealed evidence is the same later. -/
theorem readEdition_later (h : Later s s') (hs : Committed s) (hq : Pinned s q) {editions : List CoverageRow}
    (heditions : ∀ row ∈ editions, row ∈ s.coverageRows q) (captures : List Uuid) :
    readEdition digest o s' q captures editions = readEdition digest o s q captures editions := by
  have hids : ∀ id ∈ editions.map (·.coverage.id), ∃ c ∈ s.coverage.rows, c.id = id ∧ c.batchId ∈ q.batchIds := by
    intro id hid
    obtain ⟨row, hrow, rfl⟩ := List.mem_map.mp hid
    obtain ⟨hmem, hbatch⟩ := pinned_of_mem_coverageRows (heditions row hrow)
    exact ⟨row.coverage, hmem, rfl, hbatch⟩
  simp only [readEdition, h.resolutionRows_eq hs hq hids, h.qualityRows_eq hs hq, h.affectingEvents_eq hs hq]

/-- A read of sealed evidence is the same later. -/
theorem readStatement_later (h : Later s s') (hs : Committed s) (hq : Pinned s q) :
    readStatement digest o s' q = readStatement digest o s q := by
  unfold readStatement
  rw [bundle_later h hs hq]
  cases bundle o s q with
  | error flag => rfl
  | ok captures =>
    simp only [eligibleCoverage_later h hs hq]
    rw [readEdition_later h hs hq]
    intro row hrow
    exact (mem_eligibleCoverage.mp (mem_of_mem_finalists hrow)).1

/-- The selection of a query of published batches, existing events and existing flags is the same in
every two later states and for every two orders of the rows, exactly when its rows are uniform. -/
theorem permanent_iff_uniform (digest : SelectionContent → String) (hs : evidenceSystem.Reachable s) (hq : Pinned s q) :
    (∀ s' s'' o o', evidenceSystem.Run s s' → evidenceSystem.Run s s'' →
      readStatement digest o s' q = readStatement digest o' s'' q) ↔ Uniform s q := by
  have hcommitted := committed.holds hs
  constructor
  · intro h
    exact uniform_of_order fun o o' => h s s o o' (.refl s) (.refl s)
  · intro huniform s' s'' o o' h h'
    calc readStatement digest o s' q
        = readStatement digest o s q := readStatement_later (.run hcommitted h) hcommitted hq
      _ = readStatement digest .stored s q := readStatement_order huniform
      _ = readStatement digest o' s q := (readStatement_order huniform).symm
      _ = readStatement digest o' s'' q := (readStatement_later (.run hcommitted h') hcommitted hq).symm

/-! ### Two batches with different reasons -/

/-- The store after one transaction that commits. -/
def storeAfter (writes : List Write) (h : (Store.empty.commit (fun _ => true) writes).toOption.isSome) : Store :=
  (Store.empty.commit (fun _ => true) writes).toOption.get h

/-- The store after a transaction is a state of the system. -/
theorem reachable_storeAfter (writes : List Write) (h : (Store.empty.commit (fun _ => true) writes).toOption.isSome) :
    evidenceSystem.Reachable (storeAfter writes h) :=
  .step (a := ⟨fun _ => true, writes⟩) (.initial rfl) (toOption_eq_some.mp (Option.some_get h).symm)

/-- A digest of equal digits. -/
def sampleHash (digit : Char) : String := String.ofList (List.replicate 64 digit)

/-- A capture of the company facts of an issuer. -/
def companyfacts (id : Uuid) : SourceCapture where
  id
  sourceId := 1
  sourceObjectKey := "companyfacts/0001637459"
  requestUrl := "https://data.sec.gov/api/xbrl/companyfacts/CIK0001637459.json"
  requestParamsHash := sampleHash 'a'
  requestedAt := 0
  completedAt := some 2
  fetchedAt := some 1
  httpStatus := some 200
  bodySha256 := some (sampleHash 'b')
  blobKey := some "b"
  byteCount := some 1
  contentType := none
  policyRevisionId := some 1

/-- A batch that is being built. -/
def buildingBatch (id : Uuid) : NormalizationBatch where
  id
  issuerId := 1
  mappingRevisionId := 1
  normalizerRevision := "v1"
  sourceAuthorityPolicyRevision := "v1"
  createdAt := 3

/-- The publication of a batch. -/
def publication (batch : Uuid) : Write :=
  .transition batch .published (some 4) (some (sampleHash 'd')) (some (sampleHash 'e'))

/-- An income statement of a filing version. -/
def incomeStatement (id batch version : Uuid) : StatementCoverage where
  id
  batchId := batch
  filingVersionId := version
  periodId := 1
  statementFamily := .income
  reportingBasis := "us-gaap"
  scopeId := 1
  currencyUnitId := some 1
  authorityClass := .periodicComplete
  assurance := .audited
  coverageState := .covered
  evidenceLocator := "/facts"

/-- A resolution that found no revenue. -/
def missingRevenue (id coverage : Uuid) (reason : String) : FactResolution where
  id
  coverageId := coverage
  conceptStd := .revenue
  semanticScopeId := 1
  instrumentId := none
  unitId := 1
  status := .missing
  selectedObservationId := none
  reason := some reason

/-- The flag of a resolution that found nothing. -/
def missingFlag (id batch resolution : Uuid) : DataQualityFlag where
  id
  batchId := some batch
  resolutionId := some resolution
  issuerId := 1
  securityId := none
  periodId := some 1
  ruleKey := "unresolved"
  severity := .error
  message := "No observation"
  evidenceReferences := ["/facts"]

/-- Two published batches of one filing that found no revenue, for different reasons. -/
def twoReasons : List Write :=
  [.capture (companyfacts 1), .filing ⟨1, 1, "0001637459-18-000015"⟩, .version ⟨1, 1, 1, 10, none, none, sampleHash 'c'⟩,
    .batch (buildingBatch 1), .input ⟨1, 1, "financial"⟩, .coverage (incomeStatement 1 1 1),
    .resolution (missingRevenue 1 1 "no_exact_reviewed_observation"), .flag (missingFlag 1 1 1), publication 1,
    .batch (buildingBatch 2), .input ⟨2, 1, "financial"⟩, .coverage (incomeStatement 2 2 1),
    .resolution (missingRevenue 2 2 "source_missing"), .flag (missingFlag 2 2 2), publication 2]

/-- The store with the two batches. -/
def twoReasonsStore : Store := storeAfter twoReasons (by decide +kernel)

/-- Events and flags that are not given have no duplicates. -/
theorem noFlags_distinct : ([] : List Uuid).Nodup ∧ ([] : List Uuid).Nodup := by decide

/-- The revisions of the queries are given. -/
theorem v1_given : "v1" ≠ "" ∧ "v1" ≠ "" := by decide

/-- The query of the revenue in given batches. -/
def revenueQuery (batchIds : List Uuid) (h : batchIds ≠ [] ∧ batchIds.Nodup) : PitQuery where
  issuerId := 1
  periodId := 1
  scopeId := 1
  unitId := 1
  statementFamily := .income
  concepts := [.revenue]
  batchIds
  captureIds := [1]
  filingEventIds := []
  mappingRevisionId := 1
  normalizerRevision := "v1"
  authorityPolicyRevision := "v1"
  capturedBefore := 5
  mode := .latestReported
  cutoffGiven := nofun
  pinned := ⟨by decide, by decide, h.1, h.2, by decide, by decide⟩
  distinct := noFlags_distinct
  revisions := v1_given

/-- The two batches are published. -/
theorem pinned_twoReasons : Pinned twoReasonsStore (revenueQuery [1, 2] (by decide)) where
  batches := by decide +kernel
  events := nofun
  flags := nofun

/-- The read of the two batches is permanent exactly if its rows are uniform. -/
theorem permanent_iff_uniform_sample :
    (∀ s' s'' o o', evidenceSystem.Run twoReasonsStore s' → evidenceSystem.Run twoReasonsStore s'' →
      readStatement (fun _ => "") o s' (revenueQuery [1, 2] (by decide)) =
        readStatement (fun _ => "") o' s'' (revenueQuery [1, 2] (by decide))) ↔
      Uniform twoReasonsStore (revenueQuery [1, 2] (by decide)) :=
  permanent_iff_uniform (fun _ => "") (reachable_storeAfter twoReasons _) pinned_twoReasons

/-- The read of the two batches depends on which of them the database returns first. -/
theorem reason_depends_on_order :
    ∃ (s : Store) (q : PitQuery) (o o' : RowOrder), evidenceSystem.Reachable s ∧ Pinned s q ∧
      ∀ digest, readStatement digest o s q ≠ readStatement digest o' s q := by
  refine ⟨twoReasonsStore, revenueQuery [1, 2] (by decide), .stored, .rotated 1, reachable_storeAfter twoReasons _,
    pinned_twoReasons, fun digest heq => ?_⟩
  have hreasons := congrArg (fun x => x.toSelectionContent.facts.map (·.reason)) heq
  simp only [toSelectionContent_readStatement digest fun _ => ""] at hreasons
  revert hreasons
  decide +kernel

end EquityEval.PointInTime
