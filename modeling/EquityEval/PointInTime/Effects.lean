import EquityEval.PointInTime.Guards
import EquityEval.Relational.Growth

/-!
# What a write does

Each write that succeeds adds one row, after checks that tie it to rows that are there, or updates a
batch that is building. In every committed state the references of all rows resolve, and a resolution
selects an observation of the filing version of its statement.
-/

namespace EquityEval.PointInTime

open Relational Workflow Ingestion TransitionSystem Store

variable {s s' : Store}

/-- The batch is building. -/
def Building (s : Store) (batch : Uuid) : Prop := (s.batch? batch).map (·.state) = some .building

/-- What a write that succeeds has checked. -/
def Permitted (s : Store) (w : Write) : Prop :=
  match w with
  | .version row => (s.filing? row.filingId).isSome ∧ (s.capture? row.metadataCaptureId).isSome
  | .transition batch _ _ _ _ => ∀ old ∈ s.batch? batch, old.state = .building
  | .input row => Building s row.batchId ∧ (s.capture? row.sourceCaptureId).isSome
  | .coverage row => Building s row.batchId ∧ (s.version? row.filingVersionId).isSome
  | .observation row => (s.capture? row.sourceCaptureId).isSome ∧ (s.version? row.filingVersionId).isSome
  | .resolution row => ∃ c, s.coverage? row.coverageId = some c ∧ Building s c.batchId ∧
      ∀ id ∈ row.selectedObservationId, ∃ o ∈ s.observation? id, selectable c row o
  | .flag row => (∀ id ∈ row.resolutionId, (s.resolution? id).isSome) ∧ ∀ batch ∈ row.batchId, Building s batch
  | .event row => row.creationTransactionId = s.transaction ∧ (s.version? row.sourceFilingVersionId).isSome
  | .scope row => ∃ e, s.event? row.eventId = some e ∧ e.creationTransactionId = s.transaction
  | _ => True

/-- A write adds its row to its table, or updates its batch. -/
def Written (s : Store) (w : Write) (s' : Store) : Prop :=
  match w with
  | .capture row => ∃ captures, s' = { s with captures } ∧ captures.rows = s.captures.rows ++ [row]
  | .filing row => ∃ filings, s' = { s with filings } ∧ filings.rows = s.filings.rows ++ [row]
  | .version row => ∃ versions, s' = { s with versions } ∧ versions.rows = s.versions.rows ++ [row]
  | .batch row => ∃ batches, s' = { s with batches } ∧ batches.rows = s.batches.rows ++ [row]
  | .transition batch state publishedAt inputManifestHash outputManifestHash =>
      ∃ batches, s' = { s with batches } ∧ batches.rows = s.batches.rows.map fun b =>
        if b.id = batch then { b with state, publishedAt, inputManifestHash, outputManifestHash } else b
  | .input row => ∃ inputs, s' = { s with inputs } ∧ inputs.rows = s.inputs.rows ++ [row]
  | .coverage row => ∃ coverage, s' = { s with coverage } ∧ coverage.rows = s.coverage.rows ++ [row]
  | .observation row => ∃ observations, s' = { s with observations } ∧ observations.rows = s.observations.rows ++ [row]
  | .resolution row => ∃ resolutions, s' = { s with resolutions } ∧ resolutions.rows = s.resolutions.rows ++ [row]
  | .flag row => ∃ flags, s' = { s with flags } ∧ flags.rows = s.flags.rows ++ [row]
  | .event row => ∃ events, s' = { s with events } ∧ events.rows = s.events.rows ++ [row]
  | .scope row => ∃ scopes, s' = { s with scopes } ∧ scopes.rows = s.scopes.rows ++ [row]

/-- A batch that is locked is building. -/
theorem lockBuilding_eq_ok {batch : Option Uuid} {u : Unit} :
    s.lockBuilding batch = .ok u ↔ ∃ id, batch = some id ∧ Building s id := by
  unfold lockBuilding Building
  cases batch <;> simp

/-- A reference that is checked resolves. -/
theorem refers_eq_ok {ρ : Type} {found : Option ρ} {table : String} {u : Unit} :
    refers found table = .ok u ↔ found.isSome := by
  cases found <;> simp [refers]

/-- An insertion puts a row at the end of its table, and changes nothing else. -/
theorem insert_effect {ρ : Type} {constraint : List ρ → Prop} [DecidablePred constraint] {t : Table ρ constraint} {row : ρ}
    {violation : SqlError} {put : Table ρ constraint → Store}
    (h : (do let rows ← t.insert row violation; return put rows) = Except.ok s') :
    ∃ rows, s' = put rows ∧ rows.rows = t.rows ++ [row] := by
  obtain ⟨rows, hrows, hput⟩ := bind_eq_ok.mp h
  exact ⟨rows, (pure_eq_ok.mp hput).symm, Table.insert_eq_ok hrows⟩

/-- The issuer of a version is known only if the version is there. -/
theorem isSome_version_of_issuer {id : Uuid} {issuer : Uuid} (h : s.versionIssuer id = some issuer) :
    (s.version? id).isSome := by
  obtain ⟨version, hversion, -⟩ := Option.bind_eq_some_iff.mp h
  rw [hversion]
  rfl

/-- A write that succeeds was permitted and is done. -/
theorem write_eq_ok {admits : Write → Bool} {w : Write} (h : s.write admits w = .ok s') :
    Permitted s w ∧ Written s w s' := by
  unfold Store.write at h
  obtain ⟨-, -, h⟩ := bind_eq_ok.mp h
  cases w with
  | capture row => exact ⟨trivial, insert_effect h⟩
  | filing row => exact ⟨trivial, insert_effect h⟩
  | version row =>
    obtain ⟨_, hfiling, h⟩ := bind_eq_ok.mp h
    obtain ⟨_, hcapture, h⟩ := bind_eq_ok.mp h
    exact ⟨⟨refers_eq_ok.mp hfiling, refers_eq_ok.mp hcapture⟩, insert_effect h⟩
  | batch row =>
    obtain ⟨-, -, h⟩ := bind_eq_ok.mp h
    exact ⟨trivial, insert_effect h⟩
  | transition batch state publishedAt input output =>
    obtain ⟨_, hold, h⟩ := bind_eq_ok.mp h
    obtain ⟨-, -, h⟩ := bind_eq_ok.mp h
    obtain ⟨batches, hbatches, hput⟩ := bind_eq_ok.mp h
    refine ⟨?_, batches, (pure_eq_ok.mp hput).symm, Table.update_eq_ok hbatches⟩
    intro old hfound
    by_contra hstate
    exact raiseIf_eq_ok.mp hold ⟨old, hfound, hstate⟩
  | input row =>
    obtain ⟨_, hbatch, h⟩ := bind_eq_ok.mp h
    obtain ⟨_, hcapture, h⟩ := bind_eq_ok.mp h
    obtain ⟨id, hid, hbuilding⟩ := lockBuilding_eq_ok.mp hbatch
    cases hid
    exact ⟨⟨hbuilding, refers_eq_ok.mp hcapture⟩, insert_effect h⟩
  | coverage row =>
    obtain ⟨_, hbatch, h⟩ := bind_eq_ok.mp h
    obtain ⟨-, -, h⟩ := bind_eq_ok.mp h
    obtain ⟨_, hversion, h⟩ := bind_eq_ok.mp h
    obtain ⟨id, hid, hbuilding⟩ := lockBuilding_eq_ok.mp hbatch
    cases hid
    exact ⟨⟨hbuilding, refers_eq_ok.mp hversion⟩, insert_effect h⟩
  | observation row =>
    obtain ⟨_, hcapture, h⟩ := bind_eq_ok.mp h
    obtain ⟨_, hversion, h⟩ := bind_eq_ok.mp h
    exact ⟨⟨refers_eq_ok.mp hcapture, refers_eq_ok.mp hversion⟩, insert_effect h⟩
  | resolution row =>
    obtain ⟨_, hbatch, h⟩ := bind_eq_ok.mp h
    obtain ⟨c, hcoverage, h⟩ := bind_eq_ok.mp h
    obtain ⟨-, -, h⟩ := bind_eq_ok.mp h
    obtain ⟨_, hselected, h⟩ := bind_eq_ok.mp h
    rw [orRaise_eq_ok] at hcoverage
    obtain ⟨id, hid, hbuilding⟩ := lockBuilding_eq_ok.mp hbatch
    rw [hcoverage] at hid
    cases hid
    refine ⟨⟨c, hcoverage, hbuilding, ?_⟩, insert_effect h⟩
    intro id hid
    by_contra hnone
    exact raiseIf_eq_ok.mp hselected ⟨id, hid, hnone⟩
  | flag row =>
    obtain ⟨_, hresolution, h⟩ := bind_eq_ok.mp h
    obtain ⟨_, hbatch, h⟩ := bind_eq_ok.mp h
    obtain ⟨-, -, h⟩ := bind_eq_ok.mp h
    refine ⟨⟨?_, ?_⟩, insert_effect h⟩
    · intro id hid
      rw [raiseIf_eq_ok] at hresolution
      by_contra hnone
      refine hresolution ⟨id, hid, ?_⟩
      rintro ⟨r, hr, -⟩
      rw [Option.mem_def.mp hr] at hnone
      exact hnone rfl
    · intro batch hid
      rw [Option.mem_def.mp hid] at hbatch
      obtain ⟨id, hsome, hbuilding⟩ := lockBuilding_eq_ok.mp hbatch
      cases hsome
      exact hbuilding
  | event row =>
    obtain ⟨_, hcurrent, h⟩ := bind_eq_ok.mp h
    obtain ⟨_, hissuer, h⟩ := bind_eq_ok.mp h
    rw [raiseIf_eq_ok, not_not] at hcurrent hissuer
    exact ⟨⟨hcurrent, isSome_version_of_issuer hissuer⟩, insert_effect h⟩
  | scope row =>
    obtain ⟨e, hevent, h⟩ := bind_eq_ok.mp h
    obtain ⟨_, hcurrent, h⟩ := bind_eq_ok.mp h
    obtain ⟨-, -, h⟩ := bind_eq_ok.mp h
    obtain ⟨-, -, h⟩ := bind_eq_ok.mp h
    rw [raiseIf_eq_ok, not_not] at hcurrent
    exact ⟨⟨e, orRaise_eq_ok.mp hevent, hcurrent⟩, insert_effect h⟩

/-! ### What every write keeps -/

section Written

variable {w : Write} (h : Written s w s')

include h

/-- The transaction stays the same. -/
theorem Written.transaction : s'.transaction = s.transaction := by
  cases w <;> obtain ⟨rows, rfl, -⟩ := h <;> rfl

/-- The captures are kept. -/
theorem Written.captures : s.captures.Grows s'.captures := by
  cases w <;> obtain ⟨rows, rfl, hrows⟩ := h <;> first | exact .refl _ | exact .concat hrows id

/-- The filings are kept. -/
theorem Written.filings : s.filings.Grows s'.filings := by
  cases w <;> obtain ⟨rows, rfl, hrows⟩ := h <;> first | exact .refl _ | exact .concat hrows id

/-- The filing versions are kept, and only a version is added. -/
theorem Written.versions : s.versions.Extends (fun row => w ≠ .version row) s'.versions := by
  cases w <;> obtain ⟨rows, rfl, hrows⟩ := h <;> first | exact .refl _ | exact .concat hrows (not_not.mpr rfl)

/-- The inputs are kept, and only an input is added. -/
theorem Written.inputs : s.inputs.Extends (fun row => w ≠ .input row) s'.inputs := by
  cases w <;> obtain ⟨rows, rfl, hrows⟩ := h <;> first | exact .refl _ | exact .concat hrows (not_not.mpr rfl)

/-- The covered statements are kept, and only a covered statement is added. -/
theorem Written.coverage : s.coverage.Extends (fun row => w ≠ .coverage row) s'.coverage := by
  cases w <;> obtain ⟨rows, rfl, hrows⟩ := h <;> first | exact .refl _ | exact .concat hrows (not_not.mpr rfl)

/-- The observations are kept, and only an observation is added. -/
theorem Written.observations : s.observations.Extends (fun row => w ≠ .observation row) s'.observations := by
  cases w <;> obtain ⟨rows, rfl, hrows⟩ := h <;> first | exact .refl _ | exact .concat hrows (not_not.mpr rfl)

/-- The resolutions are kept, and only a resolution is added. -/
theorem Written.resolutions : s.resolutions.Extends (fun row => w ≠ .resolution row) s'.resolutions := by
  cases w <;> obtain ⟨rows, rfl, hrows⟩ := h <;> first | exact .refl _ | exact .concat hrows (not_not.mpr rfl)

/-- The flags are kept, and only a flag is added. -/
theorem Written.flags : s.flags.Extends (fun row => w ≠ .flag row) s'.flags := by
  cases w <;> obtain ⟨rows, rfl, hrows⟩ := h <;> first | exact .refl _ | exact .concat hrows (not_not.mpr rfl)

/-- The events are kept, and only an event is added. -/
theorem Written.events : s.events.Extends (fun row => w ≠ .event row) s'.events := by
  cases w <;> obtain ⟨rows, rfl, hrows⟩ := h <;> first | exact .refl _ | exact .concat hrows (not_not.mpr rfl)

/-- The scopes are kept, and only a scope is added. -/
theorem Written.scopes : s.scopes.Extends (fun row => w ≠ .scope row) s'.scopes := by
  cases w <;> obtain ⟨rows, rfl, hrows⟩ := h <;> first | exact .refl _ | exact .concat hrows (not_not.mpr rfl)

end Written

/-! ### References -/

/-- The references of the rows resolve; a resolution selects an observation that its statement allows;
and no event was created by a later transaction. -/
structure Referenced (s : Store) : Prop where
  versions : ∀ v ∈ s.versions.rows, (s.filing? v.filingId).isSome
  inputs : ∀ i ∈ s.inputs.rows, (s.capture? i.sourceCaptureId).isSome
  coverage : ∀ c ∈ s.coverage.rows, (s.version? c.filingVersionId).isSome
  observations : ∀ o ∈ s.observations.rows, (s.capture? o.sourceCaptureId).isSome
  resolutions : ∀ r ∈ s.resolutions.rows, ∃ c, s.coverage? r.coverageId = some c ∧
    ∀ id ∈ r.selectedObservationId, ∃ o ∈ s.observation? id, selectable c r o
  flags : ∀ f ∈ s.flags.rows, ∀ id ∈ f.resolutionId, (s.resolution? id).isSome
  events : ∀ e ∈ s.events.rows, (s.version? e.sourceFilingVersionId).isSome
  created : ∀ e ∈ s.events.rows, e.creationTransactionId ≤ s.transaction

/-- A write keeps the references. -/
theorem Referenced.write {w : Write} (hs : Referenced s) (hp : Permitted s w) (hw : Written s w s') : Referenced s' where
  versions v hv := by
    rcases hw.versions.mem_or hv with hold | hnew
    · exact hw.filings.isSome_lookup (hs.versions v hold)
    · cases not_not.mp hnew
      exact hw.filings.isSome_lookup hp.1
  inputs i hi := by
    rcases hw.inputs.mem_or hi with hold | hnew
    · exact hw.captures.isSome_lookup (hs.inputs i hold)
    · cases not_not.mp hnew
      exact hw.captures.isSome_lookup hp.2
  coverage c hc := by
    rcases hw.coverage.mem_or hc with hold | hnew
    · exact hw.versions.isSome_lookup (hs.coverage c hold)
    · cases not_not.mp hnew
      exact hw.versions.isSome_lookup hp.2
  observations o ho := by
    rcases hw.observations.mem_or ho with hold | hnew
    · exact hw.captures.isSome_lookup (hs.observations o hold)
    · cases not_not.mp hnew
      exact hw.captures.isSome_lookup hp.1
  resolutions r hr := by
    rcases hw.resolutions.mem_or hr with hold | hnew
    · obtain ⟨c, hc, hselected⟩ := hs.resolutions r hold
      refine ⟨c, hw.coverage.lookup hc, fun id hid => ?_⟩
      obtain ⟨o, ho, hallowed⟩ := hselected id hid
      exact ⟨o, hw.observations.lookup ho, hallowed⟩
    · cases not_not.mp hnew
      obtain ⟨c, hc, -, hselected⟩ := hp
      refine ⟨c, hw.coverage.lookup hc, fun id hid => ?_⟩
      obtain ⟨o, ho, hallowed⟩ := hselected id hid
      exact ⟨o, hw.observations.lookup ho, hallowed⟩
  flags f hf id hid := by
    rcases hw.flags.mem_or hf with hold | hnew
    · exact hw.resolutions.isSome_lookup (hs.flags f hold id hid)
    · cases not_not.mp hnew
      exact hw.resolutions.isSome_lookup (hp.1 id hid)
  events e he := by
    rcases hw.events.mem_or he with hold | hnew
    · exact hw.versions.isSome_lookup (hs.events e hold)
    · cases not_not.mp hnew
      exact hw.versions.isSome_lookup hp.2
  created e he := by
    rw [hw.transaction]
    rcases hw.events.mem_or he with hold | hnew
    · exact hs.created e hold
    · cases not_not.mp hnew
      exact hp.1.le

/-- What every write keeps, the writes of a transaction keep. -/
theorem foldlM_write_keeps {P : Store → Prop} {admits : Write → Bool}
    (hP : ∀ (s s' : Store) (w : Write), P s → Permitted s w → Written s w s' → P s') {writes : List Write}
    (h : writes.foldlM (fun s w => s.write admits w) s = .ok s') (hs : P s) : P s' := by
  induction writes generalizing s with
  | nil =>
    cases pure_eq_ok.mp h
    exact hs
  | cons w rest ih =>
    rw [List.foldlM_cons] at h
    obtain ⟨next, hnext, hrest⟩ := bind_eq_ok.mp h
    obtain ⟨hp, hw⟩ := write_eq_ok hnext
    exact ih hrest (hP s next w hs hp hw)

/-- A transaction that commits has run its writes, and the next one begins. -/
theorem commit_eq_ok {admits : Write → Bool} {writes : List Write} (h : s.commit admits writes = .ok s') :
    ∃ written, writes.foldlM (fun s w => s.write admits w) s = .ok written ∧
      s' = { written with transaction := s.transaction + 1 } := by
  obtain ⟨written, hwritten, hrest⟩ := bind_eq_ok.mp h
  obtain ⟨_, -, hput⟩ := bind_eq_ok.mp hrest
  exact ⟨written, hwritten, (pure_eq_ok.mp hput).symm⟩

/-- A committed state: the references resolve, and every event was created by an earlier transaction. -/
structure Committed (s : Store) : Prop extends Referenced s where
  sealed : ∀ e ∈ s.events.rows, e.creationTransactionId < s.transaction

/-- Every state of the system is a committed one. -/
theorem committed : evidenceSystem.Invariant Committed where
  initial s hs := by
    cases hs
    constructor
    · constructor <;> simp [Store.empty]
    · simp [Store.empty]
  step s t s' hs hstep := by
    obtain ⟨written, hwrites, rfl⟩ := commit_eq_ok hstep
    have hwritten : Referenced written :=
      foldlM_write_keeps (fun _ _ _ href hp hw => href.write hp hw) hwrites hs.toReferenced
    have htransaction : written.transaction = s.transaction :=
      foldlM_write_keeps (P := fun x => x.transaction = s.transaction)
        (fun _ _ _ hx _ hw => hw.transaction.trans hx) hwrites rfl
    have hsealed : ∀ e ∈ written.events.rows, e.creationTransactionId < s.transaction + 1 :=
      fun e he => Nat.lt_succ_of_le (htransaction ▸ hwritten.created e he)
    exact ⟨⟨hwritten.versions, hwritten.inputs, hwritten.coverage, hwritten.observations, hwritten.resolutions,
      hwritten.flags, hwritten.events, fun e he => (hsealed e he).le⟩, hsealed⟩

end EquityEval.PointInTime
