import EquityEval.Market.Selection
import Mathlib.Order.Bounds.Basic

/-!
# The newest response wins

The latest date that an eligible batch has a row of is chosen first, then the newest response that reaches it. What a backward
selection states is the value of the one row that this response has of that date; a response that cannot give one blocks the
selection, and no older value takes its place.
-/

namespace EquityEval.Market

open Relational Workflow Ingestion Sorting
open Discovery (sortedSet)

section

variable {s : State} {q q' result : MarketSelection} {batchId : Option Uuid} {batches : List BatchRow} {flags : List String}
variable {row : DailyRow} {o : MacroObservation}

/-! ### One row -/

/-- What a query keeps while it is filled in. -/
structure MarketSelection.Keeps (q q' : MarketSelection) : Prop where
  batchId : q'.batchId = q.batchId
  referenceDate : q'.referenceDate = q.referenceDate
  field : q'.field = q.field
  coverageState : q'.coverageState = q.coverageState
  value : q'.value = q.value
  usable : q'.usable = q.usable

/-- The metadata of an observation say nothing about its value. -/
theorem macroMetadata_keeps {problem : Option String} (h : s.macroMetadata q o = .ok (q', problem)) : q.Keeps q' := by
  unfold State.macroMetadata at h
  split at h
  case h_1 => cases h
  case h_2 =>
    split at h
    case isTrue => cases h; exact ⟨rfl, rfl, rfl, rfl, rfl, rfl⟩
    case isFalse =>
      split at h <;> cases h <;> exact ⟨rfl, rfl, rfl, rfl, rfl, rfl⟩

/-- A selection states a value. -/
def MarketSelection.Exposes (q : MarketSelection) : Prop := q.usable = true ∨ q.value ≠ none

/-- What a finished selection states is what it was given, and it is usable only where that was observed completely. -/
theorem usable_finish (h : (q.finish flags).usable = true) :
    q.valueState = some .observed ∧ q.coverageState = some .complete := by
  simp only [MarketSelection.finish, Bool.and_eq_true, decide_eq_true_eq, Bool.not_eq_true', Bool.or_eq_false_iff,
    Bool.not_eq_false'] at h
  exact ⟨h.1, by simpa using h.2.2⟩

/-- The selection states the value of a row. -/
structure MarketSelection.States (result q : MarketSelection) (row : DailyRow) : Prop where
  published : ∀ known ∈ q.sourceKnownAt, publicationProblem row known q.sourceAsOfDate = none
  measured : ∃ m, row.measured q.field = some m ∧ result.value = m.value ∧
    (result.usable = true → m.state = .observed ∧ q.coverageState = some .complete)

/-- The selection of a row keeps the batch and the date, and states no other value than that of the row. -/
theorem selectRow_eq_ok (h : s.selectRow q row flags = .ok result) (hnone : ¬ q.Exposes) :
    result.batchId = q.batchId ∧ result.referenceDate = q.referenceDate ∧ (result.Exposes → result.States q row) := by
  unfold State.selectRow at h
  split at h
  case h_1 => cases h
  case h_2 capture hcapture =>
    split at h
    case h_1 => cases h
    case h_2 capturedAt hcaptured =>
      have hkeeps : q.Keeps (q.ofRow s row capturedAt) := ⟨rfl, rfl, rfl, rfl, rfl, rfl⟩
      dsimp only at h
      split at h
      case h_1 => cases h; exact ⟨rfl, rfl, fun hexposes => absurd hexposes hnone⟩
      case h_2 hproblem =>
        have hpublished : ∀ known ∈ q.sourceKnownAt, publicationProblem row known q.sourceAsOfDate = none := by
          intro known hknown
          have hsome : (q.ofRow s row capturedAt).sourceKnownAt = some known := hknown
          rw [hsome] at hproblem
          exact hproblem
        cases row with
        | observation o =>
          dsimp only at h
          cases hmetadata : s.macroMetadata (q.ofRow s (.observation o) capturedAt) o with
          | error e => rw [hmetadata] at h; cases h
          | ok found =>
            obtain ⟨q', problem⟩ := found
            have hkept := macroMetadata_keeps hmetadata
            rw [hmetadata] at h
            cases problem with
            | some problem =>
              cases h
              refine ⟨hkept.batchId, hkept.referenceDate, fun hexposes => absurd ?_ hnone⟩
              exact hexposes.imp (fun husable => hkept.usable ▸ husable) fun hvalue => hkept.value ▸ hvalue
            | none =>
              cases h
              refine ⟨hkept.batchId, hkept.referenceDate, fun _ => ⟨hpublished, o.value, rfl, rfl, fun husable => ?_⟩⟩
              obtain ⟨hstate, hcoverage⟩ := usable_finish husable
              exact ⟨Option.some_inj.mp hstate, hkept.coverageState ▸ hcoverage⟩
        | price p =>
          have hsame : (q.ofRow s (.price p) capturedAt).field = q.field := rfl
          cases hfield : q.field with
          | value => rw [hsame, hfield] at h; cases h
          | price field =>
            rw [hsame, hfield] at h
            cases h
            refine ⟨rfl, rfl, fun _ => ⟨hpublished, p.fields field, ?_, rfl, fun husable => ?_⟩⟩
            · rw [hfield]
              rfl
            · obtain ⟨hstate, hcoverage⟩ := usable_finish husable
              exact ⟨Option.some_inj.mp hstate, hcoverage⟩

/-! ### One response -/

/-- A query that has no value yet and then gets a batch. -/
theorem MarketSelection.ofBatch_exposes {b : BatchRow} (h : ¬ q.Exposes) {ids : List Uuid} :
    ¬ MarketSelection.Exposes { q.ofBatch s b with observationIds := ids } := h

/-- A selection that states a value has it from the only row of the first response, which no other one ties. -/
theorem select_eq_ok (h : s.select q batchId (some batches) = .ok result) (hnone : ¬ q.Exposes) (hexposes : result.Exposes) :
    ∃ newest rest row, batches = newest :: rest ∧
      (∀ b ∈ batches, b.responseAt = newest.responseAt → b.responseIds = newest.responseIds) ∧
      s.rowsOn q.dataKind newest.batch.id q.referenceDate = [row] ∧ result.batchId = some newest.batch.id ∧
      result.referenceDate = q.referenceDate ∧ result.States (q.ofBatch s newest) row := by
  simp only [State.select, Option.getD_some] at h
  cases batches with
  | nil => cases h; exact absurd hexposes hnone
  | cons newest rest =>
    dsimp only at h
    split at h
    case isTrue => cases h; exact absurd hexposes hnone
    case isFalse htie =>
      have halone : ∀ b ∈ newest :: rest, b.responseAt = newest.responseAt → b.responseIds = newest.responseIds := by
        intro b hb hsame
        have hfirst : newest.responseIds ∈ (((newest :: rest).filter fun b => b.responseAt = newest.responseAt).map
            (·.responseIds)).dedup := by simp
        have hother : b.responseIds ∈ (((newest :: rest).filter fun b => b.responseAt = newest.responseAt).map
            (·.responseIds)).dedup := by
          rw [List.mem_dedup]
          exact List.mem_map.mpr ⟨b, List.mem_filter.mpr ⟨hb, by simpa using hsame⟩, rfl⟩
        obtain ⟨ids, hids⟩ := List.length_eq_one_iff.mp (le_antisymm (not_lt.mp htie) (List.length_pos_of_mem hfirst))
        rw [hids, List.mem_singleton] at hfirst hother
        rw [hfirst, hother]
      split at h
      case h_1 row hrows =>
        obtain ⟨hbatch, hdate, hstates⟩ := selectRow_eq_ok h (MarketSelection.ofBatch_exposes hnone)
        obtain ⟨hpublished, hmeasured⟩ := hstates hexposes
        exact ⟨newest, rest, row, rfl, halone, hrows, hbatch, hdate, hpublished, hmeasured⟩
      case h_2 => cases h; exact absurd hexposes hnone
      case h_3 => cases h; exact absurd hexposes hnone

/-- The batches are read from the newest response on. -/
theorem batches_sorted (windowStart : Option Day) :
    (s.batches q batchId windowStart).Pairwise fun a b => b.responseAt ≤ a.responseAt := by
  refine (byKey_pairwise _).imp fun {a b} hle => ?_
  rcases Prod.Lex.toLex_le_toLex.mp hle with hlt | ⟨heq, -⟩
  · exact (Int.neg_lt_neg_iff.mp hlt).le
  · exact (Int.neg_inj.mp heq).ge

/-! ### The latest date -/

/-- A date in a window that a row of some batches has. -/
def State.Recorded (s : State) (batches : List BatchRow) (first last day : Day) : Prop :=
  (first ≤ day ∧ day ≤ last) ∧ ∃ c ∈ s.store.macros.rows, (∃ b ∈ batches, b.batch.id = c.batchId) ∧ c.item.referenceDate = day

variable {first last day : Day}

/-- The dates that are read are those recorded. -/
theorem mem_datesIn : day ∈ s.datesIn batches first last ↔ s.Recorded batches first last day := by
  simp only [State.datesIn, State.Recorded, List.mem_map, List.mem_filter, Bool.and_eq_true, decide_eq_true_eq]
  constructor
  · rintro ⟨c, ⟨hc, hbatch, hwindow⟩, rfl⟩
    exact ⟨hwindow, c, hc, hbatch, rfl⟩
  · rintro ⟨hwindow, c, hc, hbatch, rfl⟩
    exact ⟨c, ⟨hc, hbatch, hwindow⟩, rfl⟩

/-- The date that is selected is the greatest recorded one. -/
theorem max_datesIn : (s.datesIn batches first last).max? = some day ↔ IsGreatest {day | s.Recorded batches first last day} day := by
  rw [List.max?_eq_some_iff, mem_datesIn]
  exact and_congr_right fun _ => forall_congr' fun b => imp_congr_left mem_datesIn

/-- A row of a batch on a date of the window is recorded. -/
theorem recorded_of_mem_rowsOn {b : BatchRow} (hb : b ∈ batches) (hwindow : first ≤ day ∧ day ≤ last)
    (hrow : row ∈ s.rowsOn .macroSeries b.batch.id day) : s.Recorded batches first last day := by
  simp only [State.rowsOn, mem_byKey, List.mem_map, List.mem_filter, childrenOf, decide_eq_true_eq] at hrow
  obtain ⟨c, ⟨⟨hc, hbatch⟩, hdate⟩, -⟩ := hrow
  exact ⟨hwindow, c, hc, ⟨b, hb, hbatch.symm⟩, hdate⟩

/-! ### Backward selections -/

/-- The newest response that reaches a date, where no other one is as late. -/
structure Newest (eligible : List BatchRow) (day : Day) (newest : BatchRow) : Prop where
  mem : newest ∈ eligible
  reaches : day ≤ newest.batch.content.requestedEnd
  latest : ∀ b ∈ eligible, day ≤ b.batch.content.requestedEnd → b.responseAt ≤ newest.responseAt
  alone : ∀ b ∈ eligible, day ≤ b.batch.content.requestedEnd → b.responseAt = newest.responseAt → b.responseIds = newest.responseIds

/-- The observation was published no later than an instant, or on an earlier day than that of the instant. -/
def MacroObservation.PublishedBy (o : MacroObservation) (known : Instant) (sourceAsOf : Option Day) : Prop :=
  (∀ day ∈ sourceAsOf, day < dayOf known) ∧ (∀ interval ∈ o.sourceRealtime, interval.1 < dayOf known) ∧
    match o.publication with
    | .instant _ at' => at' ≤ known
    | .date day => day < dayOf known
    | .unknown => False

/-- There is no problem with what was published by an instant. -/
theorem publicationProblem_eq_none {known : Instant} {sourceAsOf : Option Day} :
    publicationProblem (.observation o) known sourceAsOf = none ↔ o.PublishedBy known sourceAsOf := by
  have hstart : (∃ start ∈ (DailyRow.observation o).realtimeStart, dayOf known ≤ start) ↔
      ∃ interval ∈ o.sourceRealtime, dayOf known ≤ interval.1 := by
    simp [DailyRow.realtimeStart]
  simp only [publicationProblem, hstart, MacroObservation.PublishedBy, ← not_le]
  by_cases hasOf : ∃ day ∈ sourceAsOf, dayOf known ≤ day
  · simp only [if_pos hasOf, reduceCtorEq, false_iff, not_and]
    obtain ⟨day, hday, hle⟩ := hasOf
    exact fun h => absurd hle (h day hday)
  · by_cases hinterval : ∃ interval ∈ o.sourceRealtime, dayOf known ≤ interval.1
    · simp only [if_neg hasOf, if_pos hinterval, reduceCtorEq, false_iff, not_and]
      obtain ⟨interval, hmem, hle⟩ := hinterval
      exact fun _ h => absurd hle (h interval hmem)
    · rw [if_neg hasOf, if_neg hinterval]
      push Not at hasOf hinterval
      simp only [DailyRow.publication]
      cases o.publication <;> simp_all

/-- The first of the responses that reach a date is the newest, where those that are as late are the same. -/
theorem newest_of_filter_eq_cons {eligible rest : List BatchRow} {newest : BatchRow}
    (hsorted : eligible.Pairwise fun a b => b.responseAt ≤ a.responseAt)
    (hhead : eligible.filter (fun b => day ≤ b.batch.content.requestedEnd) = newest :: rest)
    (halone : ∀ b ∈ eligible.filter fun b => day ≤ b.batch.content.requestedEnd,
      b.responseAt = newest.responseAt → b.responseIds = newest.responseIds) : Newest eligible day newest := by
  have hfirst : newest ∈ eligible.filter fun b => day ≤ b.batch.content.requestedEnd := hhead ▸ List.mem_cons_self
  obtain ⟨hmem, hreaches⟩ := List.mem_filter.mp hfirst
  refine ⟨hmem, of_decide_eq_true hreaches, fun b hb hreach => ?_, fun b hb hreach => ?_⟩
  · have hb' : b ∈ newest :: rest := hhead ▸ List.mem_filter.mpr ⟨hb, decide_eq_true hreach⟩
    have hlater := hsorted.filter fun b => day ≤ b.batch.content.requestedEnd
    rw [hhead, List.pairwise_cons] at hlater
    rcases List.mem_cons.mp hb' with rfl | hrest
    · exact le_rfl
    · exact hlater.1 b hrest
  · exact halone b (List.mem_filter.mpr ⟨hb, decide_eq_true hreach⟩)

/-- The age of a selection says nothing about its value. -/
theorem agedAt_keeps (selectionDate : Day) : result.Keeps (result.agedAt selectionDate) := by
  unfold MarketSelection.agedAt
  split <;> exact ⟨rfl, rfl, rfl, rfl, rfl, rfl⟩

/-- A backward selection that states a value has it from the newest response of the latest date. -/
theorem backward_eq_ok {selectionDate : Day} {maxAgeDays : ℤ} {eligible : List BatchRow} (hage : 0 ≤ maxAgeDays)
    (hdate : q.referenceDate = selectionDate) (hkind : q.dataKind = .macroSeries)
    (heligible : s.batches q batchId (some (selectionDate - maxAgeDays)) = eligible)
    (h : s.backward q batchId selectionDate maxAgeDays = .ok result) (hnone : ¬ q.Exposes) (hexposes : result.Exposes) :
    ∃ newest rest row,
      IsGreatest {day | s.Recorded eligible (selectionDate - maxAgeDays) selectionDate day} result.referenceDate ∧
      eligible.filter (fun b => result.referenceDate ≤ b.batch.content.requestedEnd) = newest :: rest ∧
      Newest eligible result.referenceDate newest ∧ result.batchId = some newest.batch.id ∧
      s.rowsOn .macroSeries newest.batch.id result.referenceDate = [row] ∧ result.States (q.ofBatch s newest) row := by
  simp only [State.backward, heligible] at h
  split at h
  case isTrue => cases h; exact absurd hexposes hnone
  obtain ⟨found, hfound, haged⟩ := bind_eq_ok.mp h
  cases haged
  have hkeeps : found.Keeps (found.agedAt selectionDate) := agedAt_keeps selectionDate
  have hfoundExposes : found.Exposes := by
    rwa [MarketSelection.Exposes, ← hkeeps.usable, ← hkeeps.value]
  unfold State.selectLatest at hfound
  split at hfound
  case h_1 day hmax =>
    obtain ⟨newest, rest, row, hhead, halone, hrows, hid, hday, hpublished, m, hmeasured, hm, hstate⟩ :=
      select_eq_ok hfound hnone hfoundExposes
    rw [hkeeps.referenceDate.trans hday]
    refine ⟨newest, rest, row, max_datesIn.mp hmax, hhead, ?_, hkeeps.batchId.trans hid, hkind ▸ hrows, hpublished, m, hmeasured,
      hkeeps.value.trans hm, fun hresult => hstate (hkeeps.usable ▸ hresult)⟩
    exact newest_of_filter_eq_cons (heligible ▸ batches_sorted _) hhead halone
  case h_2 hmax =>
    -- no row has a date in the window, and so none has the date of the selection
    obtain ⟨newest, rest, row, hhead, -, hrows, -⟩ := select_eq_ok hfound hnone hfoundExposes
    rw [hkind, hdate] at hrows
    have hrecorded : s.Recorded eligible (selectionDate - maxAgeDays) selectionDate selectionDate :=
      recorded_of_mem_rowsOn (hhead ▸ List.mem_cons_self) ⟨Int.sub_le_self _ hage, le_rfl⟩ (hrows ▸ List.mem_singleton_self row)
    rw [List.max?_eq_none_iff] at hmax
    exact absurd (hmax ▸ mem_datesIn.mpr hrecorded) List.not_mem_nil

/-- The row of a selection is an observation. -/
theorem rowsOn_observation {batch : Uuid} (h : s.rowsOn .macroSeries batch day = [row]) : ∃ o, row = .observation o := by
  have hmem : row ∈ s.rowsOn .macroSeries batch day := h ▸ List.mem_singleton_self row
  simp only [State.rowsOn, mem_byKey, List.mem_map] at hmem
  obtain ⟨c, -, rfl⟩ := hmem
  exact ⟨c.item, rfl⟩

/-- A question that is answered was a backward selection over an actual window. -/
theorem selectMacroAtOrBefore_eq_ok {sourceId : Uuid} {seriesKey : String} {selectionDate : Day} {maxAgeDays : ℤ}
    {sourceAsOfDate : Option Day} {retrievalCutoff sourceKnownAt : Option Instant}
    (h : s.selectMacroAtOrBefore sourceId seriesKey selectionDate maxAgeDays sourceAsOfDate retrievalCutoff batchId sourceKnownAt =
      .ok result) :
    0 ≤ maxAgeDays ∧ s.backward (backwardQuery sourceId seriesKey selectionDate maxAgeDays sourceAsOfDate retrievalCutoff
      sourceKnownAt) batchId selectionDate maxAgeDays = .ok result := by
  unfold State.selectMacroAtOrBefore at h
  split at h
  case isTrue => cases h
  case isFalse hage =>
    split at h
    case isTrue => cases h
    case isFalse =>
      split at h
      case isTrue => cases h
      case isFalse => exact ⟨not_lt.mp hage, h⟩

/-- A backward selection states only the value that the newest response has of the latest recorded date. Where no date is recorded,
where that response has no one row of the date, or where another response is as late, it states none, and where the response is
incomplete or did not give a value it is not usable. -/
theorem newest_response_wins {sourceId : Uuid} {seriesKey : String} {selectionDate : Day} {maxAgeDays : ℤ}
    {sourceAsOfDate : Option Day} {retrievalCutoff sourceKnownAt : Option Instant} {eligible : List BatchRow}
    (h : s.selectMacroAtOrBefore sourceId seriesKey selectionDate maxAgeDays sourceAsOfDate retrievalCutoff batchId sourceKnownAt =
      .ok result)
    (heligible : s.batches (backwardQuery sourceId seriesKey selectionDate maxAgeDays sourceAsOfDate retrievalCutoff sourceKnownAt)
      batchId (some (selectionDate - maxAgeDays)) = eligible) :
    (result.usable = true ∨ result.value ≠ none → ∃ newest o,
      IsGreatest {day | s.Recorded eligible (selectionDate - maxAgeDays) selectionDate day} result.referenceDate ∧
      result.batchId = some newest.batch.id ∧ Newest eligible result.referenceDate newest ∧
      s.rowsOn .macroSeries newest.batch.id result.referenceDate = [.observation o] ∧ result.value = o.value.value ∧
      (∀ known ∈ sourceKnownAt, o.PublishedBy known sourceAsOfDate) ∧
      (result.usable = true → o.value.state = .observed ∧ newest.batch.content.coverageState = .complete)) ∧
    ((∀ day, ¬ s.Recorded eligible (selectionDate - maxAgeDays) selectionDate day) → result.usable = false ∧ result.value = none) ∧
    ∀ day newest rest, IsGreatest {day | s.Recorded eligible (selectionDate - maxAgeDays) selectionDate day} day →
      eligible.filter (fun b => day ≤ b.batch.content.requestedEnd) = newest :: rest →
      ((s.rowsOn .macroSeries newest.batch.id day).length ≠ 1 ∨
        (∃ b ∈ rest, b.responseAt = newest.responseAt ∧ b.responseIds ≠ newest.responseIds) →
          result.usable = false ∧ result.value = none) ∧
      (newest.batch.content.coverageState ≠ .complete ∨
        (∀ o, s.rowsOn .macroSeries newest.batch.id day = [.observation o] → o.value.state ≠ .observed) → result.usable = false) := by
  obtain ⟨hage, hbackward⟩ := selectMacroAtOrBefore_eq_ok h
  have hstates := backward_eq_ok hage rfl rfl heligible hbackward (by simp [MarketSelection.Exposes, backwardQuery])
  have hblank : ¬ result.Exposes → result.usable = false ∧ result.value = none := by
    simp only [MarketSelection.Exposes, not_or, Bool.not_eq_true, not_not]
    exact id
  refine ⟨fun hexposes => ?_, fun hnone => hblank fun hexposes => ?_, fun day newest rest hday hhead => ⟨fun hblocked => ?_, ?_⟩⟩
  · obtain ⟨newest, rest, row, hgreatest, -, hnewest, hid, hrows, hpublished, m, hmeasured, hvalue, husable⟩ := hstates hexposes
    obtain ⟨o, rfl⟩ := rowsOn_observation hrows
    cases hmeasured
    refine ⟨newest, o, hgreatest, hid, hnewest, hrows, hvalue, fun known hknown => ?_, fun hresult => ?_⟩
    · exact publicationProblem_eq_none.mp (hpublished known hknown)
    · exact (husable hresult).imp_right Option.some_inj.mp
  · obtain ⟨-, -, -, hgreatest, -⟩ := hstates hexposes
    exact hnone _ hgreatest.1
  · refine hblank fun hexposes => ?_
    obtain ⟨newest', rest', row, hgreatest, hhead', hnewest, -, hrows, -⟩ := hstates hexposes
    obtain rfl := hgreatest.unique hday
    obtain ⟨rfl, rfl⟩ := List.cons_eq_cons.mp (hhead.symm.trans hhead')
    rcases hblocked with hlength | ⟨b, hb, hsame, hdiffer⟩
    · exact hlength (by rw [hrows]; rfl)
    · obtain ⟨hmem, hreaches⟩ := List.mem_filter.mp (hhead ▸ List.mem_cons_of_mem _ hb)
      exact hdiffer (hnewest.alone b hmem (of_decide_eq_true hreaches) hsame)
  · intro hblocked
    by_contra husable
    obtain ⟨newest', rest', row, hgreatest, hhead', -, -, hrows, -, m, hmeasured, -, hobserved⟩ :=
      hstates (.inl (by simpa using husable))
    obtain ⟨hstate, hcoverage⟩ := hobserved (by simpa using husable)
    obtain rfl := hgreatest.unique hday
    obtain ⟨rfl, rfl⟩ := List.cons_eq_cons.mp (hhead.symm.trans hhead')
    obtain ⟨o, rfl⟩ := rowsOn_observation hrows
    cases hmeasured
    rcases hblocked with hincomplete | hmissing
    · exact hincomplete (Option.some_inj.mp hcoverage)
    · exact hmissing o hrows hstate

end

/-! ### Two responses about a series -/

/-- A capture of a response. -/
def sampleCapture (id : Uuid) (completedAt : Instant) : SourceCapture where
  id := id
  sourceId := 5
  sourceObjectKey := "fred_observations/BC_10YEAR"
  requestUrl := "https://api.stlouisfed.org/fred/series/observations"
  requestParamsHash := String.ofList (List.replicate 64 '0')
  requestedAt := 0
  completedAt := some completedAt
  fetchedAt := some completedAt
  httpStatus := some 200
  bodySha256 := some (String.ofList (List.replicate 64 '1'))
  blobKey := some "body"
  byteCount := some 1
  contentType := none
  policyRevisionId := some 6

/-- A batch of a response. -/
def sampleBatch (id : Uuid) (digit : Char) (publishedAt : Instant) : MarketBatch where
  id := id
  content :=
    { dataKind := .macroSeries, sourceId := 5, policyRevisionId := 6, quoteIdentifierId := none, securityId := none
      quoteBindingId := none, sourceSeriesKey := some "BC_10YEAR", seriesDefinitionId := none, requestedStart := 0
      requestedEnd := 30, sourceVintageMode := .currentProviderHistory, sourceAsOfDate := none, retrievalCutoff := none
      parserRevision := "parser-v1", normalizerRevision := "normalizer-v1", selectionPolicyRevision := "selection-v1"
      inputManifestHash := String.ofList (List.replicate 64 digit), outputManifestHash := String.ofList (List.replicate 64 '1')
      manifestBlobKey := "manifest", manifestBodySha256 := String.ofList (List.replicate 64 '2'), manifestByteCount := 2
      coverageState := .complete }
  originStageAttemptId := 3
  createdAt := 0
  state := .published publishedAt

/-- The definition of the series. -/
def sampleDefinition : SeriesDefinition where
  id := 40
  sourceId := 5
  sourceSeriesKey := "BC_10YEAR"
  metadataCaptureId := 90
  sourceLocator := "$"
  contentSha256 := String.ofList (List.replicate 64 '3')
  definitionRevision := "d"
  title := "t"
  unitsText := "Percent"
  unitCode := "percent"
  unitMultiplier := 1
  frequency := "daily"
  seasonalAdjustment := "not_adjusted"
  geography := "US"
  referenceDateConvention := "day"
  sourceReleaseKey := none
  upstreamSourceName := "u"
  upstreamRightsReference := "r"
  definitionAsOfDate := none
  definitionAsOfBasis := "capture_only"

/-- An observation that was published at noon of the day after. -/
def sampleObservation (id : Uuid) (day : Day) (capture : Uuid) (value : ℚ) : MacroObservation where
  id := id
  referenceDate := day
  seriesDefinitionId := 40
  sourceCaptureId := capture
  sourceLocator := "$"
  sourceDateText := "day"
  value := ⟨some value, .observed, some "text"⟩
  sourceObservationStatus := none
  transformRevision := "t"
  referenceEndDate := none
  sourceRealtime := none
  sourceVintageBasis := .currentOnly
  requestedSourceAsOf := none
  publication := .instant none (86400000000 * (day + 1) + 43200000000)

/-- Two responses, of which the later one has another date. -/
def sampleResponses : State :=
  { now := 86400000000 * 20
    db := .empty
    capabilities := ⟨[], capabilitiesValid_nil⟩
    attempts := ⟨[], Ingestion.attemptsValid_nil⟩
    captures := ⟨[sampleCapture 90 (86400000000 * 10), sampleCapture 91 (86400000000 * 11)], by decide +kernel⟩
    store :=
      { MarketStore.empty with
        definitions := ⟨[sampleDefinition], by decide +kernel⟩
        batches := ⟨[sampleBatch 50 '0' (86400000000 * 12), sampleBatch 51 '4' (86400000000 * 12)], by decide +kernel⟩
        inputs := ⟨[⟨50, 70, some 90, none, .observations⟩, ⟨51, 71, some 91, none, .observations⟩], by decide +kernel⟩
        macros := ⟨[⟨50, sampleObservation 60 5 90 4⟩, ⟨51, sampleObservation 61 6 91 3⟩], by decide +kernel⟩ } }

/-- Noon of the day on which the later observation was published. -/
def sampleNoon : Instant := 86400000000 * 7 + 43200000000

/-- What the samples answer to one who knows what was published by noon. -/
def sampleSelection : Except SelectionError MarketSelection :=
  sampleResponses.selectMacroAtOrBefore 5 "BC_10YEAR" 8 5 none none none (some sampleNoon)

/-- The later observation is selected, which was published at that instant. -/
theorem sampleSelection_eq :
    sampleSelection.toOption.map (fun result => (result.usable, result.value, result.referenceDate, result.publication)) =
      some (true, some 3, 6, some (.instant none sampleNoon)) := by
  decide +kernel

/-- The selection of the samples has an answer. -/
theorem exists_sampleSelection : ∃ result, sampleSelection = .ok result ∧ result.usable = true ∧ result.value = some 3 ∧
    result.referenceDate = 6 ∧ result.publication = some (.instant none sampleNoon) := by
  have heq := sampleSelection_eq
  cases hresult : sampleSelection with
  | error e => rw [hresult] at heq; cases heq
  | ok result =>
    rw [hresult] at heq
    simp only [Except.toOption, Option.map_some, Option.some_inj, Prod.mk.injEq] at heq
    exact ⟨result, rfl, heq⟩

theorem newest_response_wins_sample : ∃ result newest o, sampleSelection = .ok result ∧ result.batchId = some newest.batch.id ∧
    Newest (sampleResponses.batches (backwardQuery 5 "BC_10YEAR" 8 5 none none (some sampleNoon)) none (some (8 - 5))) 6 newest ∧
    sampleResponses.rowsOn .macroSeries newest.batch.id 6 = [.observation o] ∧ o.value.value = some 3 ∧
    o.PublishedBy sampleNoon none := by
  obtain ⟨result, hresult, husable, hvalue, hdate, -⟩ := exists_sampleSelection
  obtain ⟨newest, o, -, hid, hnewest, hrows, hstated, hpublished, -⟩ := (newest_response_wins hresult rfl).1 (.inl husable)
  rw [hdate] at hnewest hrows
  exact ⟨result, newest, o, hresult, hid, hnewest, hrows, hstated ▸ hvalue, hpublished _ rfl⟩

/-- What was published at the very instant is selected, though not before it. -/
theorem newest_response_at_the_instant : ¬ ∀ result, sampleSelection = .ok result → result.usable = true →
    ∀ day at', result.publication = some (.instant day at') → at' < sampleNoon := by
  intro hbefore
  obtain ⟨result, hresult, husable, -, -, hpublication⟩ := exists_sampleSelection
  exact lt_irrefl _ (hbefore result hresult husable none sampleNoon hpublication)

end EquityEval.Market
