import EquityEval.Publication.Invariant

/-!
# The last step of a publication

A reviewed result is published when its payload can be stored and read and the outcome derived from it
fits the stages of the execution. Fundamentals derive the outcome from the stages too, so it fits. A
valuation derives it from its payload alone: one without a gap of its own is refused after another
stage of the execution was not completed.
-/

namespace EquityEval.Publication

open Relational TransitionSystem Text
open Fundamentals (Jsonb jsonbIn fundamentalsCanonical)
open Workflow (Uuid Instant Lease Outcome SqlError Execution AnalysisRequest StageAttempt Coherent violates workflowLockedLease
  workflowFinishStage workflowFinish)

variable {env : Environment} {kind : Kind} {db : Database} {now : Instant} {lease : Lease} {stage input fresh : Uuid}
  {payload : List CodePoint} {e : Execution} {r : AnalysisRequest} {i : InputSnapshot} {v : Review} {p manifest : Jsonb}

/-- What a reviewed result has at its last step: a live lease, a frozen input with an eligible membership, the only running
stage, and a canonical payload with the hash, the dependency and the subject that were reviewed. -/
structure Reviewed (env : Environment) (kind : Kind) (db : Database) (now : Instant) (lease : Lease) (stage input fresh : Uuid)
    (payload : List CodePoint) (e : Execution) (r : AnalysisRequest) (i : InputSnapshot) (v : Review) (p manifest : Jsonb) : Prop where
  leased : workflowLockedLease db.workflow now lease = .ok e
  requested : r ∈ db.workflow.requests.rows ∧ r.id = e.requestId
  frozen : i ∈ (db.store kind).inputs.rows ∧ i.id = input ∧ i.requestId = r.id
  reviewed : v ∈ (db.store kind).reviews.rows ∧ v.id = i.reviewId
  eligible : ∀ id ∈ i.membershipId, ∀ m ∈ db.workflow.membership? id, m.removedAt = none ∧ some m.generation = i.membershipGeneration
  running : ∃ s ∈ db.workflow.stages.rows, s.id = stage ∧ s.executionId = e.id ∧ s.stageKey = kind.stageKey ∧ s.Running
  exclusive : ∀ s ∈ db.workflow.stages.rows, s.executionId = e.id → s.Running → s.id = stage
  parsed : jsonbIn env.limits payload = some p
  recorded : jsonbIn env.limits v.manifestText = some manifest
  canonical : fundamentalsCanonical p = some payload
  hash : env.digest payload = v.expectedPayloadHash
  dependency : text "dependency_hash" p = some (named v.manifestHash)
  subject : matchesReview env kind v p manifest
  unused : ∀ s ∈ (db.store kind).results.rows, s.id ≠ fresh

/-- A payload is stored already, or neither its dependency nor its hash is. -/
def Store.Admits (store : Store) (row : PayloadRow) : Prop :=
  (∃ other ∈ store.payloads.rows, other.workspaceId = row.workspaceId ∧ other.dependencyHash = row.dependencyHash ∧
    other.payloadText = row.payloadText) ∨
    ∀ other ∈ store.payloads.rows, other.workspaceId = row.workspaceId →
      other.dependencyHash ≠ row.dependencyHash ∧ other.payloadHash ≠ row.payloadHash

/-- The row of a payload. -/
def payloadRow (env : Environment) (kind : Kind) (r : AnalysisRequest) (v : Review) (payload : List CodePoint) : PayloadRow :=
  ⟨kind.payloadWorkspace r.workspaceId, env.digest payload, v.manifestHash, payload⟩

/-- The lists of a payload can be read, and those of a valuation stored. -/
def Readable (kind : Kind) (p manifest : Jsonb) : Prop :=
  match kind with
  | .fundamentals => FundamentalsReadable p manifest
  | .valuation => ChildrenFit p ∧
      ((member "scenario_dispersion" p).any isNull = true ∨ scenarioGap p = true ∨ GridsReadable (entries (member "sensitivities" p)))

/-- The outcome of a valuation fits the other stages of its execution. -/
def OutcomeFits (kind : Kind) (workflow : Workflow.Database) (e : Execution) (stage : Uuid) (p : Jsonb) : Prop :=
  match kind with
  | .fundamentals => True
  | .valuation => ownGap p = true ∨ ∀ s ∈ workflow.stagesOf e.id, s.id ≠ stage → s.Completed

/-! ### Accepted writes -/

section Accepted

variable {store store' : Store} {workflow : Workflow.Database} {context : Context} {sequence : ℕ} {result : Uuid}

/-- A projection of rows that refer to what is there is accepted. -/
theorem Store.projectResult_ok (hrefers : ∀ row ∈ store.latest.rows, store.Refers workflow row)
    (hresulted : store.Resulted workflow context result sequence) :
    ∃ store', store.projectResult workflow context sequence result = .ok store' := by
  unfold Store.projectResult
  split
  next => exact ⟨store, rfl⟩
  next old hfound =>
    have hmeets := List.find?_some hfound
    rw [decide_eq_true_eq] at hmeets
    have hold := List.mem_of_find?_eq_some hfound
    have hguard : store.latestGuard workflow (some old) { old with snapshot := some (result, sequence) } = .ok () := by
      refine bind_eq_ok.mpr ⟨(), raiseIf_eq_ok.mpr (not_not.mpr (hrefers old hold).1), bind_eq_ok.mpr ⟨(), raiseIf_eq_ok.mpr ?_,
        raiseIf_eq_ok.mpr ?_⟩⟩
      · rintro ⟨snapshot, hsnapshot, hnot⟩
        cases hsnapshot
        rw [hmeets.1] at hnot
        exact hnot hresulted
      · rintro ⟨before, hbefore, hregresses⟩
        cases hbefore
        rcases hregresses with hlt | ⟨snapshot, hsnapshot, hlater⟩ | hne
        · exact lt_irrefl _ hlt
        · have hle := store.latest.valid.2 old hold snapshot hsnapshot
          rw [hmeets.2] at hle
          exact absurd (hlater _ rfl) (not_lt.mpr hle)
        · exact hne rfl
    have hvalid : LatestValid (store.latest.rows.map fun row =>
        if row.context = context ∧ row.latestRequestSequence = sequence then { old with snapshot := some (result, sequence) } else row) := by
      constructor
      · unfold UniqueBy
        rw [List.map_map]
        have hsame : store.latest.rows.map (LatestRow.context ∘ fun row =>
            if row.context = context ∧ row.latestRequestSequence = sequence then { old with snapshot := some (result, sequence) } else row) =
              store.latest.rows.map LatestRow.context := by
          refine List.map_congr_left fun row _ => ?_
          rw [Function.comp_apply]
          split
          next h => exact hmeets.1.trans h.1.symm
          next => rfl
        rw [hsame]
        exact store.latest.valid.1
      · intro row hrow snapshot hsnapshot
        obtain ⟨row', hrow', rfl⟩ := List.mem_map.mp hrow
        split at hsnapshot
        next h =>
          cases hsnapshot
          rw [if_pos h]
          exact hmeets.2.ge
        next h =>
          rw [if_neg h]
          exact store.latest.valid.2 row' hrow' snapshot hsnapshot
    obtain ⟨latest, hwrite, -⟩ := Workflow.write_ok hvalid (violates "latest")
    exact ⟨{ store with latest }, bind_eq_ok.mpr ⟨(), hguard, bind_eq_ok.mpr ⟨latest, hwrite, rfl⟩⟩⟩

/-- A payload is stored when it passes its checks and no other is in its place. -/
theorem Store.savePayload_iff {row : PayloadRow} :
    (∃ store', store.savePayload kind row p = .ok store' ∧ ¬ ∀ other ∈ store'.payloads.rows, ¬ (other.workspaceId = row.workspaceId ∧
      other.dependencyHash = row.dependencyHash ∧ other.payloadText = row.payloadText)) ↔ payloadChecked kind p ∧ store.Admits row := by
  unfold Store.savePayload Store.Admits
  simp only [bind_eq_ok, raiseIf_eq_ok, not_not]
  constructor
  · rintro ⟨store', ⟨_, hchecked, h⟩, hfound⟩
    push Not at hfound
    refine ⟨hchecked, ?_⟩
    split at h
    next => exact Or.inl ((pure_eq_ok.mp h).symm ▸ hfound)
    next hnone =>
      right
      obtain ⟨payloads, hinsert, -⟩ := bind_eq_ok.mp h
      have hunique := payloads.valid.1
      rw [Table.insert_eq_ok hinsert, UniqueBy, List.map_append, List.nodup_append] at hunique
      refine fun other hother hworkspace => ⟨fun hdependency => hnone ⟨other, hother, hworkspace, hdependency⟩, fun hhash => ?_⟩
      exact hunique.2.2 _ (List.mem_map_of_mem hother) _ (List.mem_map_of_mem (List.mem_singleton_self row))
        (Prod.ext hworkspace hhash)
  · rintro ⟨hchecked, hstored | hnone⟩
    · obtain ⟨other, hother, hworkspace, hdependency, htext⟩ := hstored
      refine ⟨store, ⟨(), hchecked, if_pos ⟨other, hother, hworkspace, hdependency⟩⟩, ?_⟩
      push Not
      exact ⟨other, hother, hworkspace, hdependency, htext⟩
    · have hnot : ¬ ∃ other ∈ store.payloads.rows, other.workspaceId = row.workspaceId ∧ other.dependencyHash = row.dependencyHash := by
        rintro ⟨other, hother, hworkspace, hdependency⟩
        exact (hnone other hother hworkspace).1 hdependency
      have hvalid : PayloadsValid (store.payloads.rows ++ [row]) := by
        constructor
        · rw [uniqueBy_append store.payloads.valid.1]
          · exact List.nodup_singleton _
          · intro other hother new hnew heq
            rw [List.mem_singleton.mp hnew, Prod.mk.injEq] at heq
            exact (hnone other hother heq.1).2 heq.2
        · rw [uniqueBy_append store.payloads.valid.2]
          · exact List.nodup_singleton _
          · intro other hother new hnew heq
            rw [List.mem_singleton.mp hnew, Prod.mk.injEq] at heq
            exact (hnone other hother heq.1).1 heq.2
      obtain ⟨payloads, hwrite, hrows⟩ := Workflow.write_ok hvalid (violates "payloads")
      refine ⟨{ store with payloads }, ⟨(), hchecked, ?_⟩, ?_⟩
      · rw [if_neg hnot]
        exact bind_eq_ok.mpr ⟨payloads, hwrite, rfl⟩
      · push Not
        refine ⟨row, ?_, rfl, rfl, rfl⟩
        rw [hrows]
        exact List.mem_append_right _ (List.mem_singleton_self row)

/-- The outcome of a result can be derived when its lists can be read. -/
theorem gaps_iff (stages : List StageAttempt) : ((∃ gapped, gaps kind p manifest stages = .ok gapped) ∧ (kind = .valuation → ChildrenFit p)) ↔
    Readable kind p manifest := by
  cases kind with
  | fundamentals =>
    simp only [gaps, Readable, fundamentalsGaps_eq_ok, exists_and_left, exists_eq, and_true, reduceCtorEq, false_implies]
  | valuation =>
    simp only [gaps, Readable, forall_true_left]
    constructor
    · rintro ⟨⟨gapped, hgaps⟩, hfit⟩
      exact ⟨hfit, ((valuationGaps_eq_ok hfit.scenarios hfit.sensitivities).mp hgaps).1⟩
    · rintro ⟨hfit, hread⟩
      exact ⟨⟨_, (valuationGaps_eq_ok hfit.scenarios hfit.sensitivities).mpr ⟨hread, rfl⟩⟩, hfit⟩

/-- The children of a result are saved when its lists fit. -/
theorem Store.saveEntries_iff (hp : (fundamentalsCanonical p).isSome) (hnone : store.Childless result) :
    (∃ store', store.saveEntries kind p result = .ok store') ↔ (kind = .valuation → ChildrenFit p) := by
  cases kind with
  | fundamentals => simp [saveEntries]
  | valuation =>
    simp only [saveEntries, forall_true_left]
    constructor
    · rintro ⟨store', h⟩
      exact ((Store.saveChildren_eq_ok hp hnone).mp h).1
    · exact Store.exists_saveChildren hp hnone

/-- Children that were saved are complete, whatever the projection is. -/
theorem Store.entriesComplete_of_saveEntries (hp : (fundamentalsCanonical p).isSome) (hnone : store.Childless result)
    (h : store.saveEntries kind p result = .ok store') (latest : Table LatestRow LatestValid) :
    ({ store' with latest } : Store).entriesComplete kind p result = .ok () := by
  cases kind with
  | fundamentals => rfl
  | valuation =>
    obtain ⟨hfit, hchildren, -⟩ := (Store.saveChildren_eq_ok hp hnone).mp h
    exact hchildren.complete hnone hfit

/-- No result belongs to the request or the execution of a lease that passes. -/
theorem Store.Sound.unpublished (hsound : store.Sound env workflow) (hc : Coherent workflow)
    (hlease : workflowLockedLease workflow now lease = .ok e) :
    ∀ s ∈ store.results.rows, s.requestId ≠ lease.requestId ∧ s.executionId ≠ e.id := by
  intro s hs
  obtain ⟨⟨a, ⟨r, hr, ha⟩, hterminal, hlast⟩, -⟩ := hsound.results s hs
  obtain ⟨r', a', expires, hheld, rfl⟩ := hc.held hlease
  have hrequest : s.requestId ≠ lease.requestId := by
    intro heq
    rw [heq, ← hheld.request, Workflow.request?_of_mem hheld.mem] at hr
    cases hr
    cases ha.unique hheld.represents
    rw [hheld.unsettled] at hterminal
    cases hterminal
  refine ⟨hrequest, fun heq => hrequest ?_⟩
  have hsame : a.last = a'.last := List.inj_on_of_nodup_map workflow.executions.valid.1 ha.mem_last.1 hheld.represents.mem_last.1
    (hlast.trans heq)
  rw [← hheld.request, ← hheld.represents.mem_last.2, ← hsame, ha.mem_last.2]
  exact (Table.lookup_eq_some hr).2.symm

end Accepted

/-! ### Saving a result -/

/-- The outcome of a result is that of a success. -/
theorem outcomeOf_mem (gapped : Bool) : outcomeOf gapped ∈ [Outcome.completed, .completedWithGaps] := by
  cases gapped <;> decide

/-- A result has gaps when its outcome says so. -/
theorem outcomeOf_eq {gapped : Bool} : outcomeOf gapped = .completedWithGaps ↔ gapped = true := by
  cases gapped <;> decide

section Saving

variable {outcome : Outcome}

/-- A result is saved when its payload is admitted and its lists can be read. -/
theorem Reviewed.saveResult_iff (h : Reviewed env kind db now lease stage input fresh payload e r i v p manifest) (hs : db.Sound env) :
    (∃ store outcome, saveResult env kind db lease stage payload fresh e r i v p manifest = .ok (store, outcome)) ↔
      payloadChecked kind p ∧ (db.store kind).Admits (payloadRow env kind r v payload) ∧ Readable kind p manifest := by
  have hsound := hs.stores kind
  have hcanonical : (fundamentalsCanonical p).isSome := by rw [h.canonical]; rfl
  have hunpublished := hsound.unpublished hs.coherent h.leased
  have hnone := hsound.childless h.unused
  have hnone' : ∀ payloads results, ({ db.store kind with payloads, results } : Store).Childless fresh := fun _ _ =>
    ⟨hnone.scenarios, hnone.sensitivities, hnone.conclusions⟩
  rw [← gaps_iff (db.workflow.stagesOf e.id), ← and_assoc, ← Store.savePayload_iff]
  unfold saveResult
  simp only [bind_eq_ok, raiseIf_eq_ok]
  constructor
  · rintro ⟨store, outcome, paid, hsave, _, hfound, gapped, hgaps, results, hinsert, full, hentries, -⟩
    obtain ⟨-, payloads, rfl, -⟩ := Store.savePayload_eq_ok hsave
    refine ⟨⟨_, hsave, hfound⟩, ⟨gapped, hgaps⟩, ?_⟩
    exact (Store.saveEntries_iff hcanonical (hnone' payloads results)).mp ⟨full, hentries⟩
  · rintro ⟨⟨paid, hsave, hfound⟩, ⟨gapped, hgaps⟩, hfit⟩
    obtain ⟨-, payloads, rfl, -⟩ := Store.savePayload_eq_ok hsave
    have hvalid : ∀ parent, ResultsValid ((db.store kind).results.rows ++ [{
        id := fresh, requestId := r.id, executionId := e.id, inputSnapshotId := i.id, payloadHash := env.digest payload,
        leaseIdentity := lease, stageId := stage, outcome := outcomeOf gapped, parentRunId := parent }]) := by
      intro parent
      obtain ⟨hid, hrequest, hexecution, hinput, houtcome⟩ := (db.store kind).results.valid
      have hrid : r.id = lease.requestId := h.requested.2.trans (hs.coherent.leased h.leased).2
      refine ⟨(uniqueBy_append hid ?_).mpr (List.nodup_singleton _), (uniqueBy_append hrequest ?_).mpr (List.nodup_singleton _),
        (uniqueBy_append hexecution ?_).mpr (List.nodup_singleton _), (uniqueBy_append hinput ?_).mpr (List.nodup_singleton _), ?_⟩
      · intro x hx y hy
        rw [List.mem_singleton.mp hy]
        exact h.unused x hx
      · intro x hx y hy
        rw [List.mem_singleton.mp hy]
        exact fun heq => (hunpublished x hx).1 (heq.trans hrid)
      · intro x hx y hy
        rw [List.mem_singleton.mp hy]
        exact (hunpublished x hx).2
      · intro x hx y hy heq
        rw [List.mem_singleton.mp hy] at heq
        obtain ⟨-, j, hj, hjid, hjrequest⟩ := hsound.results x hx
        have hsame : j = i := List.inj_on_of_nodup_map (db.store kind).inputs.valid.1 hj h.frozen.1 (hjid.trans heq)
        rw [hsame, h.frozen.2.2] at hjrequest
        exact (hunpublished x hx).1 (hjrequest.symm.trans hrid)
      · rw [List.forall_mem_append]
        refine ⟨houtcome, fun x hx => ?_⟩
        rw [List.mem_singleton.mp hx]
        exact outcomeOf_mem gapped
    obtain ⟨results, hwrite, -⟩ := Workflow.write_ok (hvalid _) (violates "results")
    obtain ⟨full, hentries⟩ := (Store.saveEntries_iff hcanonical (hnone' payloads results)).mpr hfit
    exact ⟨full, outcomeOf gapped, _, hsave, (), hfound, gapped, hgaps, results, hwrite, full, hentries, rfl⟩

/-- A result that was saved has all its children, whatever is projected. -/
theorem Reviewed.saveResult_complete (h : Reviewed env kind db now lease stage input fresh payload e r i v p manifest) (hs : db.Sound env)
    {store : Store} (hsave : saveResult env kind db lease stage payload fresh e r i v p manifest = .ok (store, outcome))
    (latest : Table LatestRow LatestValid) : ({ store with latest } : Store).entriesComplete kind p fresh = .ok () := by
  have hnone := (hs.stores kind).childless h.unused
  simp only [saveResult, bind_eq_ok, pure_eq_ok] at hsave
  obtain ⟨paid, hpaid, _, -, gapped, -, results, -, full, hentries, hreturn⟩ := hsave
  cases hreturn
  obtain ⟨-, payloads, rfl, -⟩ := Store.savePayload_eq_ok hpaid
  have hnone' : ({ db.store kind with payloads, results } : Store).Childless fresh :=
    ⟨hnone.scenarios, hnone.sensitivities, hnone.conclusions⟩
  exact Store.entriesComplete_of_saveEntries (by rw [h.canonical]; rfl) hnone' hentries latest

/-- The outcome of a result that is saved is one that its execution can end with exactly when it fits the other stages. -/
theorem Reviewed.outcome_iff (h : Reviewed env kind db now lease stage input fresh payload e r i v p manifest)
    (hread : Readable kind p manifest) {gapped : Bool} (hgaps : gaps kind p manifest (db.workflow.stagesOf e.id) = .ok gapped) :
    (outcomeOf gapped = .completedWithGaps ∨ ∀ s ∈ db.workflow.stagesOf e.id, s.id ≠ stage → s.Completed) ↔
      OutcomeFits kind db.workflow e stage p := by
  rw [outcomeOf_eq]
  cases kind with
  | fundamentals =>
    obtain ⟨-, hgapped⟩ := fundamentalsGaps_eq_ok.mp hgaps
    refine iff_of_true ?_ trivial
    by_cases hstages : (db.workflow.stagesOf e.id).any fun s => decide (¬ s.Running ∧ ¬ s.Completed)
    · rw [hstages, Bool.or_true] at hgapped
      exact Or.inl hgapped
    · refine Or.inr fun s hs hid => ?_
      obtain ⟨hmem, hexecution⟩ := (Table.mem_select _).mp hs
      by_contra hcompleted
      refine hstages (List.any_eq_true.mpr ⟨s, hs, decide_eq_true ⟨fun hrunning => ?_, hcompleted⟩⟩)
      exact hid (h.exclusive s hmem hexecution hrunning)
  | valuation =>
    have hfit := hread.1
    obtain ⟨-, hgapped⟩ := (valuationGaps_eq_ok hfit.scenarios hfit.sensitivities).mp hgaps
    rw [hgapped]
    exact Iff.rfl

/-- The stages of publications are no results of monitors. -/
theorem Kind.stageKey_ne (kind : Kind) : kind.stageKey ≠ "sec_monitor_result" := by
  cases kind <;> decide

/-- The execution of a frozen input is not one of a monitor. -/
theorem Reviewed.not_monitor (h : Reviewed env kind db now lease stage input fresh payload e r i v p manifest) (hs : db.Sound env) :
    ¬ Workflow.ofMonitor db.workflow e.id := by
  rintro ⟨e', he', r', hr', htrigger⟩
  have hexecution : e' = e := by
    obtain ⟨c, -, -, -, hcurrent, -, hfound, -⟩ := Workflow.workflowLockedLease_eq_ok.mp h.leased
    rw [hcurrent, ← (hs.coherent.leased h.leased).1] at hfound
    exact Option.some.inj (he'.symm.trans hfound)
  rw [hexecution, ← h.requested.2, Workflow.request?_of_mem h.requested.1] at hr'
  cases hr'
  obtain ⟨⟨r', hr', hid, hlisted⟩, -⟩ := (hs.stores kind).inputs i h.frozen.1
  have hsame : r' = r := List.inj_on_of_nodup_map db.workflow.requests.valid.1 hr' h.requested.1 (hid.trans h.frozen.2.2)
  rw [hsame, htrigger] at hlisted
  exact absurd hlisted (by decide)

end Saving

/-! ### Publishing -/

/-- A result that was saved is in the tables with its request, its input and its review. -/
theorem Saved.resulted {store store' : Store} {s : ResultRow} {workflow : Workflow.Database} (h : Saved store store' s)
    (hr : r ∈ workflow.requests.rows) (hrequest : r.id = s.requestId) (hi : i ∈ store.inputs.rows) (hinput : i.id = s.inputSnapshotId)
    (hv : v ∈ store.reviews.rows) (hreview : v.id = i.reviewId) :
    store'.Resulted workflow (contextOf r v i.scopeId) s.id r.requestSequence := by
  refine ⟨s, ?_, r, hr, i, ?_, v, ?_, hrequest, hinput, hreview, rfl, rfl, rfl⟩
  · rw [h.results]
    exact List.mem_append_right _ (List.mem_singleton_self s)
  · rw [h.rest]
    exact hi
  · rw [h.rest]
    exact hv

/-- What projected rows refer to is there after a result was saved. -/
theorem Saved.refers {store store' : Store} {s : ResultRow} {workflow workflow' : Workflow.Database} (h : Saved store store' s)
    (hrequests : ∀ r ∈ workflow.requests.rows, r ∈ workflow'.requests.rows) (hrefers : ∀ row ∈ store.latest.rows, store.Refers workflow row) :
    ∀ row ∈ store'.latest.rows, store'.Refers workflow' row := by
  rw [h.rest]
  refine fun row hrow => (hrefers row hrow).mono (fun s' hs' => ?_) hrequests (fun _ hi => hi) (fun _ hi => hi) fun _ hv => hv
  change s' ∈ store'.results.rows
  rw [h.results]
  exact List.mem_append_left _ hs'

/-- A reviewed result is published exactly when its payload is admitted, its lists can be read, and its outcome fits the
other stages of the execution. -/
theorem publish_iff {s : State} (hs : (system env).Reachable s)
    (h : Reviewed env kind s.db s.now lease stage input fresh payload e r i v p manifest) :
    (∃ db, publish env kind s.db s.now lease stage input payload fresh = .ok (db, fresh)) ↔
      payloadChecked kind p ∧ (s.db.store kind).Admits (payloadRow env kind r v payload) ∧ Readable kind p manifest ∧
        OutcomeFits kind s.db.workflow e stage p := by
  have hsound : s.db.Sound env := sound_invariant.holds hs
  have hc := hsound.coherent
  have hcanonical : (fundamentalsCanonical p).isSome := by rw [h.canonical]; rfl
  have hfresh : (s.db.store kind).resultOf? lease.requestId = none := by
    rw [Store.resultOf?, Table.lookup_eq_none]
    exact fun x hx => ((hsound.stores kind).unpublished hc h.leased x hx).1
  have hrequest : s.db.workflow.request? e.requestId = some r := h.requested.2 ▸ Workflow.request?_of_mem h.requested.1
  have hinput : ((s.db.store kind).inputs.rows.find? fun i => decide (i.id = input ∧ i.requestId = r.id)) = some i :=
    find_of_mem (s.db.store kind).inputs.valid.1 h.frozen.1 h.frozen.2 fun x hx => hx.1.trans h.frozen.2.1.symm
  have hreview : (s.db.store kind).review? i.reviewId = some v := h.reviewed.2 ▸ Table.lookup_of_mem (s.db.store kind).reviews.valid.1 h.reviewed.1
  obtain ⟨t, ht, htid, htexecution, htkey, htrunning⟩ := h.running
  obtain ⟨db₁, hstage, hcompleted⟩ := Workflow.workflowFinishStage_completed h.leased ht ⟨htexecution, htrunning⟩
    (htkey ▸ kind.stageKey_ne) (h.not_monitor hsound)
  rw [htid] at hstage
  have hother : ∀ x ∈ s.db.workflow.stages.rows, x.executionId = e.id → x.Running → x.id = t.id :=
    fun x hx hxe hxr => (h.exclusive x hx hxe hxr).trans htid.symm
  have hfinish := fun gapped => hcompleted.finish_iff h.leased hother (h.not_monitor hsound) (outcomeOf_mem gapped)
  rw [htid] at hfinish
  constructor
  · rintro ⟨db, hpublish⟩
    unfold publish at hpublish
    simp only [bind_eq_ok, orRaise_eq_ok, h.parsed] at hpublish
    obtain ⟨p', hp', hpublish⟩ := hpublish
    cases hp'
    simp only [hfresh, bind_eq_ok, orRaise_eq_ok] at hpublish
    obtain ⟨e', he', r', hr', i', hi', v', hv', _, -, _, -, manifest', hmanifest', _, -, ⟨store, outcome⟩, hsave, ⟨db₁', _⟩, hstage',
      ⟨db₂, _⟩, hended, -⟩ := hpublish
    cases h.leased.symm.trans he'
    cases hrequest.symm.trans hr'
    cases hinput.symm.trans hi'
    cases hreview.symm.trans hv'
    cases h.recorded.symm.trans hmanifest'
    cases hstage.symm.trans hstage'
    obtain ⟨hchecked, hadmits, hread⟩ := (h.saveResult_iff hsound).mp ⟨store, outcome, hsave⟩
    obtain ⟨-, -, -, -, -, -, -, -, -, -, gapped, hgaps, rfl⟩ := saveResult_eq_ok (hsound.stores kind) hcanonical hsave
    refine ⟨hchecked, hadmits, hread, (h.outcome_iff hread hgaps).mp ((hfinish gapped).mp ⟨db₂, ?_⟩)⟩
    rw [hended, Workflow.workflowFinish_answer hended]
  · rintro ⟨hchecked, hadmits, hread, hfits⟩
    obtain ⟨store, outcome, hsave⟩ := (h.saveResult_iff hsound).mpr ⟨hchecked, hadmits, hread⟩
    obtain ⟨x, hsaved, hxid, hxrequest, -, hxinput, -, -, -, -, gapped, hgaps, rfl⟩ := saveResult_eq_ok (hsound.stores kind) hcanonical hsave
    obtain ⟨db₂, hended⟩ := (hfinish gapped).mpr ((h.outcome_iff hread hgaps).mpr hfits)
    have hrequests : ∀ r ∈ s.db.workflow.requests.rows, r ∈ db₂.requests.rows := by
      rw [(Workflow.SameIntent.workflowFinish hended).requests, hcompleted.requests]
      exact fun _ hr => hr
    have hresulted := hsaved.resulted (hrequests r h.requested.1) hxrequest.symm h.frozen.1 hxinput.symm h.reviewed.1 h.reviewed.2
    rw [hxid] at hresulted
    obtain ⟨store', hproject⟩ := Store.projectResult_ok (hsaved.refers hrequests (hsound.stores kind).latest) hresulted
    obtain ⟨latest, rfl, -⟩ := Store.projectResult_eq_ok hproject
    refine ⟨({ s.db with workflow := db₂ }.withStore kind { store with latest }), ?_⟩
    refine bind_eq_ok.mpr ⟨p, orRaise_eq_ok.mpr h.parsed, ?_⟩
    simp only [hfresh]
    refine bind_eq_ok.mpr ⟨e, h.leased, bind_eq_ok.mpr ⟨r, orRaise_eq_ok.mpr hrequest, bind_eq_ok.mpr ⟨i, orRaise_eq_ok.mpr hinput,
      bind_eq_ok.mpr ⟨v, orRaise_eq_ok.mpr hreview, bind_eq_ok.mpr ⟨(), raiseIf_eq_ok.mpr ?_, bind_eq_ok.mpr ⟨(), raiseIf_eq_ok.mpr ?_,
      bind_eq_ok.mpr ⟨manifest, orRaise_eq_ok.mpr h.recorded, bind_eq_ok.mpr ⟨(), raiseIf_eq_ok.mpr ?_, bind_eq_ok.mpr ⟨_, hsave,
      bind_eq_ok.mpr ⟨_, hstage, bind_eq_ok.mpr ⟨_, hended, bind_eq_ok.mpr ⟨_, hproject,
      bind_eq_ok.mpr ⟨(), h.saveResult_complete hsound hsave latest, rfl⟩⟩⟩⟩⟩⟩⟩⟩⟩⟩⟩⟩⟩
    · rintro ⟨id, hid, m, hm, hremoved | hgeneration⟩
      · exact hremoved (h.eligible id hid m hm).1
      · exact hgeneration (h.eligible id hid m hm).2
    · rintro (hnone | ⟨x, hx, hxe, hxr, hne⟩)
      · exact hnone h.running
      · exact hne (h.exclusive x hx hxe hxr)
    · rintro (hcanonical | hhash | hdependency | hsubject)
      · exact hcanonical h.canonical
      · exact hhash h.hash
      · exact hdependency h.dependency
      · exact hsubject h.subject

/-! ### A sample -/

/-- A text as a value. -/
def sampleText (text : String) : Jsonb := .scalar (.str (named text))

/-- An identifier as a text. -/
def sampleUuid (id : Uuid) : List CodePoint :=
  let digits := hexText 32 id
  ascii (digits.take 8 ++ '-' :: (digits.drop 8).take 4 ++ '-' :: (digits.drop 12).take 4 ++ '-' :: (digits.drop 16).take 4 ++
    '-' :: digits.drop 20)

/-- An object with the given members. -/
def sampleObject (members : List (String × Jsonb)) : Jsonb := .object (members.map fun m => (named m.1, m.2))

/-- The canonical text of a value. -/
def sampleCanonical (p : Jsonb) : List CodePoint := (fundamentalsCanonical p).getD []

/-- What both reviews select. -/
def sampleSelector : Jsonb := sampleObject [("history_mode", sampleText "latest_reported"), ("period_basis", sampleText "instant"),
  ("period_end", sampleText "2024-12-31")]

/-- The manifest of the fundamentals. -/
def fundamentalsManifest : Jsonb := sampleObject [("selector", sampleSelector), ("version", sampleText "s6-input-v1")]

/-- Fundamentals that depend on their manifest. -/
def fundamentalsPayload : Jsonb := sampleObject [("dependency_hash", sampleText "122"), ("evidence_mode", sampleText "synthetic"),
  ("selector", sampleSelector), ("version", sampleText "s6-fundamentals-v1")]

/-- The manifest of the valuation. -/
def valuationManifest : Jsonb := sampleObject [("selector", sampleSelector), ("source_snapshot_id", .scalar (.str (sampleUuid 32))),
  ("version", sampleText "s7-input-v1")]

/-- A valuation with one scenario, which was solved. -/
def valuationPayload : Jsonb := sampleObject [("dependency_hash", sampleText "182"), ("evidence_mode", sampleText "synthetic"),
  ("scenarios", .array [sampleObject [("name", sampleText "base"), ("solve", sampleObject [("state", sampleText "converged")])]]),
  ("source_snapshot_id", .scalar (.str (sampleUuid 32))), ("version", sampleText "s7-result-v1")]

/-- A hash that only tells lengths, and the selection of the sample. -/
def sampleEnvironment : Environment where
  digest text := toString text.length
  limits := ⟨131072, 16383, 6400⟩
  parametersHash := Workflow.sampleDigest
  uuidText := sampleUuid
  issuedBy security issuer := security = 4 ∧ issuer = 3
  selection _ attempts :=
    { historyMode := some .latestReported, requestedPeriods := some [⟨.instant, none, some 20088⟩], maxAttempts := attempts }
  selected r _ := r.options.historyMode = .latestReported ∧ r.options.requestedPeriods = [⟨.instant, none, some 20088⟩]

/-- The review of the fundamentals. -/
def fundamentalsReview : Review where
  id := 20
  workspaceId := 1
  issuerId := 3
  securityId := 4
  quoteIdentifierId := 5
  manifestText := sampleCanonical fundamentalsManifest
  manifestHash := "122"
  compatibilityHash := "85"
  expectedPayloadHash := "181"

/-- The review of the valuation. -/
def valuationReview : Review where
  id := 21
  workspaceId := 1
  issuerId := 3
  securityId := 4
  quoteIdentifierId := 5
  sourceSnapshotId := some 32
  manifestText := sampleCanonical valuationManifest
  manifestHash := "182"
  compatibilityHash := "182"
  expectedPayloadHash := "198"

/-- The lease of the request for fundamentals. -/
def fundamentalsLease : Lease := ⟨11, 12, 1, 1, "worker"⟩

/-- The lease of the request for a valuation. -/
def valuationLease : Lease := ⟨14, 15, 1, 1, "worker"⟩

/-- Fundamentals were published, and a valuation was frozen after the stage before it was blocked. -/
def sampleBlocked : State :=
  State.afterAll sampleEnvironment { now := 0, registry := Workflow.sampleStart.registry, db := .empty } [
    .workflow (.createWorkspace 1 2), .review .fundamentals fundamentalsReview true,
    .enqueue .fundamentals ⟨some 1, some 2, 20, "first", none, some 3⟩ ⟨10, 11, 12⟩,
    .workflow (.claim (fun _ => false) "worker" 60 13), .workflow (.startStage fundamentalsLease "fundamentals" 30),
    .freeze .fundamentals fundamentalsLease 30 20 31,
    .publish .fundamentals fundamentalsLease 30 31 (sampleCanonical fundamentalsPayload) 32,
    .review .valuation valuationReview true, .enqueue .valuation ⟨some 1, none, 21, "second", some 11, some 3⟩ ⟨13, 14, 15⟩,
    .workflow (.claim (fun _ => false) "worker" 60 16), .workflow (.startStage valuationLease "market" 40),
    .workflow (.finishStage valuationLease 40 (some .blocked) (some "no_price") [] fun _ => true),
    .workflow (.startStage valuationLease "valuation" 41), .freeze .valuation valuationLease 41 21 42]

/-- The sample is reachable. -/
theorem sampleBlocked_reachable : (system sampleEnvironment).Reachable sampleBlocked :=
  (run_afterAll _ _ _).reachable (.initial rfl)

/-- What can be computed of a reviewed result. -/
theorem exists_reviewed (h : ∃ e ∈ (workflowLockedLease db.workflow now lease).toOption, ∃ r ∈ db.workflow.requests.rows,
    ∃ i ∈ (db.store kind).inputs.rows, ∃ v ∈ (db.store kind).reviews.rows, ∃ p ∈ jsonbIn env.limits payload,
      ∃ manifest ∈ jsonbIn env.limits v.manifestText, r.id = e.requestId ∧ (i.id = input ∧ i.requestId = r.id) ∧ v.id = i.reviewId ∧
        (∀ id ∈ i.membershipId, ∀ m ∈ db.workflow.membership? id, m.removedAt = none ∧ some m.generation = i.membershipGeneration) ∧
        (∃ s ∈ db.workflow.stages.rows, s.id = stage ∧ s.executionId = e.id ∧ s.stageKey = kind.stageKey ∧ s.Running) ∧
        (∀ s ∈ db.workflow.stages.rows, s.executionId = e.id → s.Running → s.id = stage) ∧ fundamentalsCanonical p = some payload ∧
        env.digest payload = v.expectedPayloadHash ∧ text "dependency_hash" p = some (named v.manifestHash) ∧
        matchesReview env kind v p manifest) (hunused : ∀ s ∈ (db.store kind).results.rows, s.id ≠ fresh) :
    ∃ e r i v p manifest, Reviewed env kind db now lease stage input fresh payload e r i v p manifest := by
  obtain ⟨e, he, r, hr, i, hi, v, hv, p, hp, manifest, hmanifest, hrequest, hinput, hreview, heligible, hrunning, hexclusive, hcanonical,
    hhash, hdependency, hsubject⟩ := h
  exact ⟨e, r, i, v, p, manifest, toOption_eq_some.mp he, ⟨hr, hrequest⟩, ⟨hi, hinput⟩, ⟨hv, hreview⟩, heligible, hrunning, hexclusive, hp,
    hmanifest, hcanonical, hhash, hdependency, hsubject, hunused⟩

set_option synthInstance.maxSize 1024 in
/-- The valuation of the sample is reviewed. -/
theorem sampleBlocked_reviewed : ∃ e r i v p manifest, Reviewed sampleEnvironment .valuation sampleBlocked.db sampleBlocked.now
    valuationLease 41 42 50 (sampleCanonical valuationPayload) e r i v p manifest :=
  exists_reviewed (by decide +kernel) (by decide +kernel)

/-- The law of publications at the valuation of the sample. -/
theorem publish_iff_sample : ∃ e r v p manifest,
    ((∃ db, publish sampleEnvironment .valuation sampleBlocked.db sampleBlocked.now valuationLease 41 42 (sampleCanonical valuationPayload)
      50 = .ok (db, 50)) ↔
      payloadChecked .valuation p ∧ (sampleBlocked.db.store .valuation).Admits (payloadRow sampleEnvironment .valuation r v
        (sampleCanonical valuationPayload)) ∧ Readable .valuation p manifest ∧
        OutcomeFits .valuation sampleBlocked.db.workflow e 41 p) := by
  obtain ⟨e, r, i, v, p, manifest, h⟩ := sampleBlocked_reviewed
  exact ⟨e, r, v, p, manifest, publish_iff sampleBlocked_reachable h⟩

/-- A reviewed valuation without a gap of its own is refused after another stage was blocked. -/
theorem blocked_valuation_refused : (system sampleEnvironment).Reachable sampleBlocked ∧
    (∃ e r i v p manifest, Reviewed sampleEnvironment .valuation sampleBlocked.db sampleBlocked.now valuationLease 41 42 50
      (sampleCanonical valuationPayload) e r i v p manifest) ∧
    ¬ ∃ db id, publish sampleEnvironment .valuation sampleBlocked.db sampleBlocked.now valuationLease 41 42
      (sampleCanonical valuationPayload) 50 = .ok (db, id) := by
  have hrefused : (publish sampleEnvironment .valuation sampleBlocked.db sampleBlocked.now valuationLease 41 42
      (sampleCanonical valuationPayload) 50).toOption.isNone := by decide +kernel
  refine ⟨sampleBlocked_reachable, sampleBlocked_reviewed, ?_⟩
  rintro ⟨db, id, hpublish⟩
  rw [hpublish] at hrefused
  cases hrefused

end EquityEval.Publication
