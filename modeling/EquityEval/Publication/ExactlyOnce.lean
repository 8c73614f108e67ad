import EquityEval.Publication.LastStep

/-!
# Publications are made once

A result that was published is returned to whoever repeats the publication, and nobody else. What is
projected for a context is the latest request that intends it, and the result of a request that was no
longer the latest is never projected.
-/

namespace EquityEval.Publication

open Relational TransitionSystem Text
open Fundamentals (jsonbIn)
open Workflow (Uuid Instant Lease SqlError AnalysisRequest)

section Replays

variable {env : Environment} {kind : Kind} {db db' : Database} {now : Instant} {lease : Lease} {stage input fresh id : Uuid}
  {payload : List CodePoint}

/-- The row of a publication. -/
structure PublishedAs (env : Environment) (lease : Lease) (stage input : Uuid) (payload : List CodePoint) (id : Uuid) (s : ResultRow) :
    Prop where
  id : s.id = id
  requestId : s.requestId = lease.requestId
  leaseIdentity : s.leaseIdentity = lease
  stageId : s.stageId = stage
  inputSnapshotId : s.inputSnapshotId = input
  payloadHash : s.payloadHash = env.digest payload

/-- A publication that returns is in the tables. -/
theorem exists_publishedAs (hs : db.Sound env) (h : publish env kind db now lease stage input payload fresh = .ok (db', id)) :
    ∃ s ∈ (db'.store kind).results.rows, PublishedAs env lease stage input payload id s := by
  obtain ⟨-, ⟨old, hold, rfl, hreplay⟩ | ⟨-, r, i, v, s, saved, latest, rfl, hnew⟩⟩ := publish_eq_ok hs.coherent (hs.stores kind) h
  · obtain ⟨hmem, hrequest⟩ := Table.lookup_eq_some hold
    unfold replay at hreplay
    obtain ⟨_, hsame, hid⟩ := bind_eq_ok.mp hreplay
    simp only [raiseIf_eq_ok, not_or, not_not] at hsame
    exact ⟨old, hmem, pure_eq_ok.mp hid, hrequest, hsame.1, hsame.2.1, hsame.2.2.1, hsame.2.2.2⟩
  · obtain ⟨hrequest, hinput, hhash, hidentity, hstage⟩ := hnew.identity
    refine ⟨s, ?_, rfl, hrequest.trans hnew.requested.2, hidentity, hstage, hinput.trans hnew.frozen.2.1, hhash⟩
    rw [hnew.store_eq]
    change s ∈ saved.results.rows
    rw [hnew.rows.results]
    exact List.mem_append_right _ (List.mem_singleton_self s)

/-- Once a request has a result, a publication returns it or raises, and changes nothing. -/
theorem publish_of_publishedAs {s : ResultRow} (hmem : s ∈ (db.store kind).results.rows) (h : PublishedAs env lease stage input payload id s)
    (hp : ∃ p, jsonbIn env.limits payload = some p) (lease' : Lease) (stage' input' : Uuid) (payload' : List CodePoint)
    (hrequest : lease'.requestId = lease.requestId) :
    (lease' = lease ∧ stage' = stage ∧ input' = input ∧ payload' = payload →
      publish env kind db now lease' stage' input' payload' fresh = .ok (db, id)) ∧
    ((lease' ≠ lease ∨ stage' ≠ stage ∨ input' ≠ input ∨ env.digest payload' ≠ env.digest payload) →
      ∀ answer, publish env kind db now lease' stage' input' payload' fresh ≠ .ok answer) := by
  have hfound : (db.store kind).resultOf? lease'.requestId = some s := by
    rw [hrequest, ← h.requestId]
    exact Table.lookup_of_mem (db.store kind).results.valid.2.1 hmem
  constructor
  · rintro ⟨rfl, rfl, rfl, rfl⟩
    obtain ⟨p, hp⟩ := hp
    refine bind_eq_ok.mpr ⟨p, orRaise_eq_ok.mpr hp, ?_⟩
    simp only [hfound]
    refine bind_eq_ok.mpr ⟨id, bind_eq_ok.mpr ⟨(), raiseIf_eq_ok.mpr ?_, ?_⟩, rfl⟩
    · simp [h.leaseIdentity, h.stageId, h.inputSnapshotId, h.payloadHash]
    · exact congrArg Except.ok h.id
  · intro hdiffers answer hpublish
    obtain ⟨_, -, hrest⟩ := bind_eq_ok.mp hpublish
    simp only [hfound] at hrest
    obtain ⟨_, hreplay, -⟩ := bind_eq_ok.mp hrest
    obtain ⟨_, hsame, -⟩ := bind_eq_ok.mp hreplay
    simp only [raiseIf_eq_ok, not_or, not_not, h.leaseIdentity, h.stageId, h.inputSnapshotId, h.payloadHash] at hsame
    obtain ⟨hlease, hstage, hinput, hhash⟩ := hsame
    rcases hdiffers with hne | hne | hne | hne
    · exact hne hlease.symm
    · exact hne hstage.symm
    · exact hne hinput.symm
    · exact hne hhash.symm

end Replays

/-! ### Late results -/

section Late

variable {env : Environment} {kind : Kind}

/-- A result is there and is not projected. -/
def Store.Unprojected (id : Uuid) (store : Store) : Prop :=
  (∃ s ∈ store.results.rows, s.id = id) ∧ ∀ row ∈ store.latest.rows, ∀ snapshot ∈ row.snapshot, snapshot.1 ≠ id

/-- Projecting a request projects no result. -/
theorem Advanced.unprojected {latest latest' : Table LatestRow LatestValid} {r : AnalysisRequest} {v : Review} {scope id : Uuid}
    (h : Advanced (requestRow r v scope) latest latest') (hold : ∀ row ∈ latest.rows, ∀ snapshot ∈ row.snapshot, snapshot.1 ≠ id) :
    ∀ row ∈ latest'.rows, ∀ snapshot ∈ row.snapshot, snapshot.1 ≠ id := by
  intro row hrow
  rcases h.mem hrow with hmem | ⟨-, rfl | ⟨old, hmem, -, rfl⟩⟩
  · exact hold row hmem
  · exact nofun
  · simp only [LatestRow.advance]
    split
    next => exact hold old hmem
    next => exact hold old hmem

/-- A result that is not projected stays so. -/
theorem Store.Unprojected.change {workflow : Workflow.Database} {store store' : Store} {id : Uuid} (h : store.Unprojected id)
    (hchange : store.Change env workflow store') : store'.Unprojected id := by
  obtain ⟨⟨s₀, hs₀, hid⟩, hold⟩ := h
  refine ⟨⟨s₀, hchange.keeps.results s₀ hs₀, hid⟩, ?_⟩
  cases hchange with
  | keep => exact hold
  | review v manifest hmanifest hreviews => exact hold
  | intend i r v hr hv hrequest hreview hintents hlatest => exact hlatest.unprojected hold
  | freeze i r v hr hv htrigger hrequest hreview hinputs hintends hlatest => exact hlatest.unprojected hold
  | @publish s r i v payloads results scenarios sensitivities conclusions latest hr hi hv hrequest hinput hown hreview hsettled hresults
      hpayloads hscenarios hsensitivities hconclusions hlatest =>
    intro row hrow snapshot hsnapshot
    obtain ⟨old, hmem, rfl⟩ := hlatest.mem hrow
    unfold LatestRow.publish at hsnapshot
    split at hsnapshot
    next =>
      cases hsnapshot
      have hunique := results.valid.1
      rw [hresults, UniqueBy, List.map_append, List.nodup_append] at hunique
      rw [← hid]
      exact fun heq => hunique.2.2 _ (List.mem_map_of_mem hs₀) _ (List.mem_map_of_mem (List.mem_singleton_self s)) heq.symm
    next => exact hold old hmem snapshot hsnapshot

/-- The result of a request that is not the latest of its context is not projected. -/
theorem NewResult.unprojected {db db' : Database} {now : Instant} {lease : Lease} {stage input : Uuid} {payload : List CodePoint}
    {r : AnalysisRequest} {i : InputSnapshot} {v : Review} {s : ResultRow} {saved : Store} {latest : Table LatestRow LatestValid}
    (h : NewResult env kind db db' now lease stage input payload r i v s saved latest) (hs : db.Sound env)
    (hlate : ∀ row ∈ (db.store kind).latest.rows, row.context = contextOf r v i.scopeId → row.latestRequestSequence ≠ r.requestSequence) :
    (db'.store kind).Unprojected s.id := by
  rw [h.store_eq]
  have hrows := h.rows.results
  refine ⟨⟨s, ?_, rfl⟩, fun row hrow snapshot hsnapshot => ?_⟩
  · change s ∈ saved.results.rows
    rw [hrows]
    exact List.mem_append_right _ (List.mem_singleton_self s)
  · obtain ⟨old, hmem, rfl⟩ := h.projected.mem hrow
    unfold LatestRow.publish at hsnapshot
    split at hsnapshot
    next hmatch => exact absurd hmatch.2 (hlate old hmem hmatch.1)
    next =>
      obtain ⟨s', hs', -, -, -, -, -, -, -, -, -, hid, -⟩ := ((hs.stores kind).latest old hmem).2 snapshot hsnapshot
      have hunique := saved.results.valid.1
      rw [hrows, UniqueBy, List.map_append, List.nodup_append] at hunique
      rw [← hid]
      exact hunique.2.2 _ (List.mem_map_of_mem hs') _ (List.mem_map_of_mem (List.mem_singleton_self s))

end Late

/-! ### Every run -/

variable {env : Environment}

/-- In every run, a request has one frozen input and one result, a publication that is repeated returns its result and one
that differs raises, the projection of a context answers with the latest request that intends it and never goes back, and
the result of a request that is not the latest is never projected. -/
theorem published_once {s : State} (hs : (system env).Reachable s) (kind : Kind) :
    (UniqueBy InputSnapshot.requestId (s.db.store kind).inputs.rows ∧ UniqueBy ResultRow.requestId (s.db.store kind).results.rows) ∧
    (∀ {lease : Lease} {stage input fresh id : Uuid} {payload : List CodePoint} {db : Database},
      publish env kind s.db s.now lease stage input payload fresh = .ok (db, id) → ∀ s', (system env).Run { s with db } s' →
        (∀ again, publish env kind s'.db s'.now lease stage input payload again = .ok (s'.db, id)) ∧
        ∀ (lease' : Lease) (stage' input' again : Uuid) (payload' : List CodePoint), lease'.requestId = lease.requestId →
          (env.digest payload' = env.digest payload → payload' = payload) →
          ¬ (lease' = lease ∧ stage' = stage ∧ input' = input ∧ payload' = payload) →
          (∀ answer, publish env kind s'.db s'.now lease' stage' input' payload' again ≠ .ok answer) ∧
            s'.after env (.publish kind lease' stage' input' payload' again) = s') ∧
    (∀ i ∈ (s.db.store kind).intents.rows, ∀ r ∈ s.db.workflow.requests.rows, ∀ v ∈ (s.db.store kind).reviews.rows, r.id = i.requestId →
      v.id = i.reviewId → ∃ row ∈ (s.db.store kind).latest.rows, row.context = contextOf r v i.scopeId ∧
        (s.db.store kind).Intends s.db.workflow row.context row.latestRequestId row.latestRequestSequence ∧
        r.requestSequence ≤ row.latestRequestSequence ∧ ∀ snapshot ∈ row.snapshot, snapshot.2 ≤ row.latestRequestSequence) ∧
    (∀ s', (system env).Run s s' → ∀ row ∈ (s.db.store kind).latest.rows, ∃ row' ∈ (s'.db.store kind).latest.rows, row.Before row') ∧
    ∀ {lease : Lease} {stage input fresh id : Uuid} {payload : List CodePoint} {db : Database},
      publish env kind s.db s.now lease stage input payload fresh = .ok (db, id) → (s.db.store kind).resultOf? lease.requestId = none →
      (∀ r ∈ s.db.workflow.requests.rows, ∀ i ∈ (s.db.store kind).inputs.rows, ∀ v ∈ (s.db.store kind).reviews.rows,
        r.id = lease.requestId → i.id = input → v.id = i.reviewId →
        ∀ row ∈ (s.db.store kind).latest.rows, row.context = contextOf r v i.scopeId → row.latestRequestSequence ≠ r.requestSequence) →
      ∀ s', (system env).Run { s with db } s' → ∀ row ∈ (s'.db.store kind).latest.rows, ∀ snapshot ∈ row.snapshot, snapshot.1 ≠ id := by
  have hsound : s.db.Sound env := sound_invariant.holds hs
  have hafter : ∀ {lease : Lease} {stage input fresh id : Uuid} {payload : List CodePoint} {db : Database},
      publish env kind s.db s.now lease stage input payload fresh = .ok (db, id) → (system env).Reachable { s with db } := by
    intro lease stage input fresh id payload db hpublish
    have hperform : perform env s.registry s.db s.now (.publish kind lease stage input payload fresh) = .ok db :=
      bind_eq_ok.mpr ⟨_, hpublish, rfl⟩
    exact .step (a := Action.call (.publish kind lease stage input payload fresh)) hs (State.after_of_ok hperform).symm
  refine ⟨⟨(s.db.store kind).inputs.valid.2, (s.db.store kind).results.valid.2.1⟩, ?_, ?_, fun s' hrun => (keeps_of_run hs hrun kind).latest, ?_⟩
  · intro lease stage input fresh id payload db hpublish s' hrun
    obtain ⟨hp, -⟩ := publish_eq_ok hsound.coherent (hsound.stores kind) hpublish
    obtain ⟨x, hx, hpublished⟩ := exists_publishedAs hsound hpublish
    have hx' := (keeps_of_run (hafter hpublish) hrun kind).results x hx
    refine ⟨fun again => (publish_of_publishedAs hx' hpublished hp lease stage input payload rfl).1 ⟨rfl, rfl, rfl, rfl⟩, ?_⟩
    intro lease' stage' input' again payload' hrequest hcollision hdiffers
    have hother : lease' ≠ lease ∨ stage' ≠ stage ∨ input' ≠ input ∨ env.digest payload' ≠ env.digest payload := by
      by_contra hsame
      push Not at hsame
      exact hdiffers ⟨hsame.1, hsame.2.1, hsame.2.2.1, hcollision hsame.2.2.2⟩
    have hrefused : ∀ answer, publish env kind s'.db s'.now lease' stage' input' payload' again ≠ .ok answer :=
      (publish_of_publishedAs hx' hpublished hp lease' stage' input' payload' hrequest).2 hother
    refine ⟨hrefused, State.after_of_not_ok fun db' hperform => ?_⟩
    obtain ⟨answer, hanswer, -⟩ := bind_eq_ok.mp hperform
    exact hrefused answer hanswer
  · intro i hi r hr v hv hrequest hreview
    obtain ⟨r', hr', v', hv', hrequest', hreview', row, hrow, hcontext, hle⟩ := (hsound.stores kind).intents i hi
    cases List.inj_on_of_nodup_map s.db.workflow.requests.valid.1 hr' hr (hrequest'.trans hrequest.symm)
    cases List.inj_on_of_nodup_map (s.db.store kind).reviews.valid.1 hv' hv (hreview'.trans hreview.symm)
    exact ⟨row, hrow, hcontext, ((hsound.stores kind).latest row hrow).1, hle, (s.db.store kind).latest.valid.2 row hrow⟩
  · intro lease stage input fresh id payload db hpublish hfresh hlate s' hrun
    obtain ⟨-, ⟨old, hold, -⟩ | ⟨-, r, i, v, x, saved, latest, rfl, hnew⟩⟩ := publish_eq_ok hsound.coherent (hsound.stores kind) hpublish
    · rw [hfresh] at hold
      cases hold
    · have hunprojected := hnew.unprojected hsound
        (hlate r hnew.requested.1 i hnew.frozen.1 v hnew.reviewed.1 hnew.requested.2 hnew.frozen.2.1 hnew.reviewed.2)
      exact (run_keeps (P := Store.Unprojected x.id) (hafter hpublish) hrun hunprojected fun _ hchange h => h.change hchange).2

/-- The fundamentals of the sample are returned again in every later state. -/
theorem published_once_sample : ∃ db, publish sampleEnvironment .fundamentals sampleBlocked.db sampleBlocked.now fundamentalsLease 30 31
    (sampleCanonical fundamentalsPayload) 60 = .ok (db, 32) ∧ ∀ s', (system sampleEnvironment).Run { sampleBlocked with db } s' → ∀ again,
      publish sampleEnvironment .fundamentals s'.db s'.now fundamentalsLease 30 31 (sampleCanonical fundamentalsPayload) again =
        .ok (s'.db, 32) := by
  have hreturned : ((publish sampleEnvironment .fundamentals sampleBlocked.db sampleBlocked.now fundamentalsLease 30 31
      (sampleCanonical fundamentalsPayload) 60).toOption.map (·.2)) = some 32 := by decide +kernel
  obtain ⟨⟨db, id⟩, hpublish, rfl⟩ := Option.map_eq_some_iff.mp hreturned
  have hpublish' := toOption_eq_some.mp hpublish
  exact ⟨db, hpublish', fun s' hrun => ((published_once sampleBlocked_reachable .fundamentals).2.1 hpublish' s' hrun).1⟩

end EquityEval.Publication
