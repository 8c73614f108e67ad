import EquityEval.PointInTime.Effects
import EquityEval.PointInTime.Reader

/-!
# Sealed evidence

Once a batch is completed no row is added to it, and once an event is committed no scope is added to
it. The rows that a query of published batches reads are therefore the same in every later state.
-/

namespace EquityEval.PointInTime

open Relational Workflow Ingestion TransitionSystem Store

/-- The batch is published or failed. -/
def Completed (s : Store) (batch : Uuid) : Prop := ∃ b ∈ s.batches.rows, b.id = batch ∧ b.state ≠ .building

/-- A later state: rows are kept in their order, completed batches are unchanged, and nothing is added to
a completed batch or to an event. -/
structure Later (s s' : Store) : Prop where
  transaction : s.transaction ≤ s'.transaction
  captures : s.captures.Grows s'.captures
  filings : s.filings.Grows s'.filings
  versions : s.versions.Grows s'.versions
  observations : s.observations.Grows s'.observations
  events : s.events.Grows s'.events
  batches : ∃ f added, s'.batches.rows = s.batches.rows.map f ++ added ∧
    ∀ b ∈ s.batches.rows, (f b).id = b.id ∧ (b.state ≠ .building → f b = b)
  inputs : s.inputs.Extends (fun i => Completed s i.batchId) s'.inputs
  coverage : s.coverage.Extends (fun c => Completed s c.batchId) s'.coverage
  resolutions : s.resolutions.Extends
    (fun r => ∃ c ∈ s.coverage.rows, c.id = r.coverageId ∧ Completed s c.batchId) s'.resolutions
  flags : s.flags.Extends (fun f => ∃ batch ∈ f.batchId, Completed s batch) s'.flags
  scopes : s.scopes.Extends (fun x => ∃ e ∈ s.events.rows, e.id = x.eventId) s'.scopes

/-- The batches of a query are published, and its events and its additional flags are there. -/
structure Pinned (s : Store) (q : PitQuery) : Prop where
  batches : ∀ id ∈ q.batchIds, ∃ b ∈ s.batches.rows, b.id = id ∧ b.state = .published
  events : ∀ id ∈ q.filingEventIds, ∃ e ∈ s.events.rows, e.id = id
  flags : ∀ id ∈ q.additionalQualityFlagIds, ∃ f ∈ s.flags.rows, f.id = id

/-- A pinned batch is completed. -/
theorem Pinned.completed {s : Store} {q : PitQuery} (h : Pinned s q) {batch : Uuid} (hbatch : batch ∈ q.batchIds) : Completed s batch := by
  obtain ⟨b, hb, hid, hstate⟩ := h.batches batch hbatch
  exact ⟨b, hb, hid, by simp [hstate]⟩

namespace Later

variable {s s' s'' : Store}

/-- A state is later than itself. -/
theorem refl (s : Store) : Later s s where
  transaction := le_rfl
  captures := .refl _
  filings := .refl _
  versions := .refl _
  observations := .refl _
  events := .refl _
  batches := ⟨id, [], by simp, fun _ _ => ⟨rfl, fun _ => rfl⟩⟩
  inputs := .refl _
  coverage := .refl _
  resolutions := .refl _
  flags := .refl _
  scopes := .refl _

/-- A completed batch is there in a later state. -/
theorem mem_batches (h : Later s s') {b : NormalizationBatch} (hb : b ∈ s.batches.rows) (hstate : b.state ≠ .building) :
    b ∈ s'.batches.rows := by
  obtain ⟨f, added, hrows, hf⟩ := h.batches
  rw [hrows, ← (hf b hb).2 hstate]
  exact List.mem_append_left _ (List.mem_map_of_mem hb)

/-- A completed batch is not building in a later state. -/
theorem not_building (h : Later s s') {batch : Uuid} (hcompleted : Completed s batch) : ¬ Building s' batch := by
  obtain ⟨b, hb, rfl, hstate⟩ := hcompleted
  have hfound : s'.batch? b.id = some b := Table.lookup_of_mem s'.batches.valid.1 (h.mem_batches hb hstate)
  intro hbuilding
  rw [Building, hfound] at hbuilding
  exact hstate (Option.some.inj hbuilding)

/-- A write adds a batch, or changes one that is building. -/
theorem batches_written {w : Write} (hp : Permitted s w) (hw : Written s w s') :
    ∃ f added, s'.batches.rows = s.batches.rows.map f ++ added ∧
      ∀ b ∈ s.batches.rows, (f b).id = b.id ∧ (b.state ≠ .building → f b = b) := by
  have hkept : ∀ rows : List NormalizationBatch, rows = rows.map id ++ [] := by simp
  cases w with
  | transition batch state publishedAt input output =>
    obtain ⟨batches, rfl, hrows⟩ := hw
    refine ⟨_, [], hrows.trans (List.append_nil _).symm, fun b hb => ⟨by split <;> rfl, fun hstate => ?_⟩⟩
    refine if_neg fun hid => ?_
    subst hid
    exact hstate (hp b (Table.lookup_of_mem s.batches.valid.1 hb))
  | batch row =>
    obtain ⟨batches, rfl, hrows⟩ := hw
    exact ⟨id, [row], by simpa using hrows, fun _ _ => ⟨rfl, fun _ => rfl⟩⟩
  | _ =>
    obtain ⟨rows, rfl, -⟩ := hw
    exact ⟨id, [], hkept _, fun _ _ => ⟨rfl, fun _ => rfl⟩⟩

/-- A write leads to a later state: what it adds is not sealed. -/
theorem write {w : Write} (hs : Committed s) (h : Later s s') (hp : Permitted s' w) (hw : Written s' w s'') : Later s s'' where
  transaction := h.transaction.trans hw.transaction.ge
  captures := h.captures.trans hw.captures
  filings := h.filings.trans hw.filings
  versions := h.versions.trans hw.versions.grows
  observations := h.observations.trans hw.observations.grows
  events := h.events.trans hw.events.grows
  batches := by
    obtain ⟨f, added, hrows, hf⟩ := h.batches
    obtain ⟨g, more, hrows', hg⟩ := batches_written hp hw
    refine ⟨g ∘ f, added.map g ++ more, ?_, fun b hb => ?_⟩
    · rw [hrows', hrows, List.map_append, List.map_map, List.append_assoc]
    · have hmem : f b ∈ s'.batches.rows := by
        rw [hrows]
        exact List.mem_append_left _ (List.mem_map_of_mem hb)
      refine ⟨((hg _ hmem).1).trans (hf b hb).1, fun hstate => ?_⟩
      have hkept : f b = b := (hf b hb).2 hstate
      have hsame : g (f b) = f b := (hg _ hmem).2 (hkept.symm ▸ hstate)
      exact hsame.trans hkept
  inputs := by
    refine h.inputs.trans (hw.inputs.weaken fun row hsealed => ?_)
    rintro rfl
    exact h.not_building hsealed hp.1
  coverage := by
    refine h.coverage.trans (hw.coverage.weaken fun row hsealed => ?_)
    rintro rfl
    exact h.not_building hsealed hp.1
  resolutions := by
    refine h.resolutions.trans (hw.resolutions.weaken fun row hsealed => ?_)
    rintro rfl
    obtain ⟨c, hc, hid, hcompleted⟩ := hsealed
    obtain ⟨c', hc', hbuilding, -⟩ := hp
    -- The statement that the resolution refers to is the sealed one.
    have hfound : s'.coverage? c.id = some c := Table.lookup_of_mem s'.coverage.valid.1 (h.coverage.mem hc)
    rw [hid, hc'] at hfound
    cases hfound
    exact h.not_building hcompleted hbuilding
  flags := by
    refine h.flags.trans (hw.flags.weaken fun row hsealed => ?_)
    rintro rfl
    obtain ⟨batch, hbatch, hcompleted⟩ := hsealed
    exact h.not_building hcompleted (hp.2 batch hbatch)
  scopes := by
    refine h.scopes.trans (hw.scopes.weaken fun row hsealed => ?_)
    rintro rfl
    obtain ⟨e, he, hid⟩ := hsealed
    obtain ⟨e', he', hcurrent⟩ := hp
    -- The event was committed by an earlier transaction than the current one.
    have hfound : s'.event? e.id = some e := Table.lookup_of_mem s'.events.valid (h.events.mem he)
    rw [hid, he'] at hfound
    cases hfound
    exact absurd (hs.sealed e he) (by rw [hcurrent]; exact h.transaction.not_gt)

/-- A run leads to a later state. -/
theorem run (hs : Committed s) (h : evidenceSystem.Run s s') : Later s s' := by
  refine h.keeps (P := Later s) ?_ (.refl s)
  intro x t y hx hstep
  obtain ⟨written, hwrites, rfl⟩ := commit_eq_ok hstep
  have hlater : Later s written := foldlM_write_keeps (fun _ _ _ hl hp hw => hl.write hs hp hw) hwrites hx
  exact ⟨hx.transaction.trans (Nat.le_succ _), hlater.captures, hlater.filings, hlater.versions, hlater.observations,
    hlater.events, hlater.batches, hlater.inputs, hlater.coverage, hlater.resolutions, hlater.flags, hlater.scopes⟩

/-! ### The rows of a query -/

variable {q : PitQuery}

section Rows

variable (h : Later s s') (hs : Committed s) (hq : Pinned s q)

include h hq

/-- The pinned batches are the same. -/
theorem batchRows_eq : s'.batchRows q = s.batchRows q := by
  obtain ⟨f, added, hrows, hf⟩ := h.batches
  have hunique : UniqueBy NormalizationBatch.id s'.batches.rows := s'.batches.valid.1
  have hids : (s.batches.rows.map f).map NormalizationBatch.id = s.batches.rows.map NormalizationBatch.id := by
    rw [List.map_map]
    exact List.map_congr_left fun b hb => (hf b hb).1
  have hnone : added.filter (fun b => decide (b.id ∈ q.batchIds)) = [] := by
    rw [List.filter_eq_nil_iff]
    intro b hb hmem
    obtain ⟨old, hold, hid, -⟩ := hq.batches _ (of_decide_eq_true hmem)
    rw [hrows, UniqueBy, List.map_append, hids, List.nodup_append] at hunique
    exact hunique.2.2 _ (List.mem_map_of_mem hold) _ (List.mem_map_of_mem hb) hid
  have hsame : (s.batches.rows.map f).filter (fun b => decide (b.id ∈ q.batchIds)) =
      (s.batches.rows.filter fun b => decide (b.id ∈ q.batchIds)).map f := by
    rw [List.filter_map]
    congr 1
    exact List.filter_congr fun b hb => by simp [(hf b hb).1]
  rw [batchRows, Table.select, hrows, List.filter_append, hnone, List.append_nil, hsame]
  refine (List.map_congr_left fun b hb => ?_).trans (List.map_id _)
  obtain ⟨hmem, hid⟩ := List.mem_filter.mp hb
  obtain ⟨b', hb', heq, hstate⟩ := hq.batches _ (of_decide_eq_true hid)
  cases List.inj_on_of_nodup_map s.batches.valid.1 hb' hmem heq
  exact (hf b hmem).2 (by simp [hstate])

include hs

/-- The inputs of the pinned batches are the same, with their captures. -/
theorem inputRows_eq : s'.inputRows q = s.inputRows q := by
  rw [inputRows, h.inputs.select fun i hi => hq.completed hi]
  refine List.filterMap_congr fun i hi => ?_
  rw [capture?, h.captures.lookup_eq (hs.inputs i ((Table.mem_select _).mp hi).1)]

/-- The pinned events are the same, with the versions of their filings. -/
theorem eventRows_eq : s'.eventRows q = s.eventRows q := by
  rw [eventRows, h.events.select_keys s'.events.valid hq.events]
  refine List.filterMap_congr fun e he => ?_
  rw [version?, h.versions.lookup_eq (hs.events e ((Table.mem_select _).mp he).1)]

omit hs in
/-- The additional flags are the same. -/
theorem additionalFlags_eq : s'.additionalFlags q = s.additionalFlags q :=
  h.flags.select_keys s'.flags.valid.1 hq.flags

/-- The covered statements that a query asks for are the same, with their filings. -/
theorem coverageRows_eq : s'.coverageRows q = s.coverageRows q := by
  rw [coverageRows, h.coverage.select fun c hc => hq.completed hc.1]
  refine List.filterMap_congr fun c hc => ?_
  have hversion := hs.coverage c ((Table.mem_select _).mp hc).1
  obtain ⟨version, hsome⟩ := Option.isSome_iff_exists.mp hversion
  have hfiling := hs.versions version (Table.lookup_eq_some hsome).1
  simp only [version?, filing?, h.versions.lookup_eq hversion, hsome, h.filings.lookup_eq hfiling, Option.bind_eq_bind,
    Option.bind_some]

/-- The resolutions of covered statements of the pinned batches are the same, with their observations. -/
theorem resolutionRows_eq {ids : List Uuid} (hids : ∀ id ∈ ids, ∃ c ∈ s.coverage.rows, c.id = id ∧ c.batchId ∈ q.batchIds) :
    s'.resolutionRows q ids = s.resolutionRows q ids := by
  have hclosed : ∀ r : FactResolution, r.coverageId ∈ ids ∧ r.semanticScopeId = q.scopeId ∧ r.unitId = q.unitId ∧
      r.instrumentId = q.instrumentId → ∃ c ∈ s.coverage.rows, c.id = r.coverageId ∧ Completed s c.batchId := by
    rintro r ⟨hmem, -⟩
    obtain ⟨c, hc, hid, hbatch⟩ := hids _ hmem
    exact ⟨c, hc, hid, hq.completed hbatch⟩
  rw [resolutionRows, h.resolutions.select hclosed]
  refine List.map_congr_left fun r hr => ?_
  obtain ⟨c, -, hselected⟩ := hs.resolutions r ((Table.mem_select _).mp hr).1
  cases hid : r.selectedObservationId with
  | none => rfl
  | some id =>
    obtain ⟨o, ho, -⟩ := hselected id hid
    have hcapture := hs.observations o (Table.lookup_eq_some ho).1
    simp only [Option.bind_some, observation?, capture?, h.observations.lookup (Option.mem_def.mp ho),
      Option.mem_def.mp ho, h.captures.lookup_eq hcapture]

/-- The quality flags of a query are the same. -/
theorem qualityRows_eq (ids : List Uuid) : s'.qualityRows q ids = s.qualityRows q ids := by
  obtain ⟨added, hrows, hopen⟩ := h.flags
  have hunique : UniqueBy DataQualityFlag.id s'.flags.rows := s'.flags.valid.1
  rw [qualityRows, Table.select, hrows, List.filter_append]
  have hnone : ∀ p : DataQualityFlag → Bool, (∀ f, p f → f.id ∈ q.additionalQualityFlagIds ∨ ∃ batch ∈ f.batchId, batch ∈ q.batchIds) →
      added.filter p = [] := by
    intro p hp
    rw [List.filter_eq_nil_iff]
    intro f hf hpf
    rcases hp f hpf with hid | ⟨batch, hbatch, hmem⟩
    · obtain ⟨old, hold, heq⟩ := hq.flags _ hid
      rw [hrows, UniqueBy, List.map_append, List.nodup_append] at hunique
      exact hunique.2.2 _ (List.mem_map_of_mem hold) _ (List.mem_map_of_mem hf) heq
    · exact hopen f hf ⟨batch, hbatch, hq.completed hmem⟩
  rw [hnone _ (by
    intro f hf
    exact (of_decide_eq_true hf).imp_right And.left), List.append_nil, qualityRows, Table.select]
  refine List.filter_congr fun f hf => ?_
  have hresolution : f.resolutionId.bind s'.resolution? = f.resolutionId.bind s.resolution? := by
    cases hid : f.resolutionId with
    | none => rfl
    | some id => exact h.resolutions.lookup_eq (hs.flags f hf id hid)
  simp only [hresolution]

/-- The events that restrict filings are the same. -/
theorem affectingEvents_eq (captures filingIds : List Uuid) :
    s'.affectingEvents q captures filingIds = s.affectingEvents q captures filingIds := by
  rw [affectingEvents, h.eventRows_eq hs hq, affectingEvents]
  congr 1
  refine List.filter_congr fun row hrow => ?_
  have hevent : row.1 ∈ s.events.rows := by
    obtain ⟨e, he, hsome⟩ := List.mem_filterMap.mp hrow
    obtain ⟨version, -, rfl⟩ := Option.map_eq_some_iff.mp hsome
    exact ((Table.mem_select _).mp he).1
  have hscope : ∀ p : FilingEventScope → Prop,
      (∃ scope ∈ s'.scopes.rows, scope.eventId = row.1.id ∧ p scope) ↔
        ∃ scope ∈ s.scopes.rows, scope.eventId = row.1.id ∧ p scope := by
    intro p
    constructor
    · rintro ⟨scope, hmem, hid, hp⟩
      rcases h.scopes.mem_or hmem with hold | hnew
      · exact ⟨scope, hold, hid, hp⟩
      · exact absurd ⟨row.1, hevent, hid.symm⟩ hnew
    · rintro ⟨scope, hmem, hrest⟩
      exact ⟨scope, h.scopes.mem hmem, hrest⟩
  simp only [hscope]

end Rows

end Later

end EquityEval.PointInTime
