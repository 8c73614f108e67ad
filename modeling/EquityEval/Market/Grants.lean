import EquityEval.Market.Exactness

/-!
# Granted requests

An attempt for a market resource is dispatched in a state in which its own capability is in force and covers
the object. A capture that is linked to a policy, and an input of observations, keep a capability that
retains and covers them.
-/

namespace EquityEval.Market

open Relational Workflow Ingestion TransitionSystem

/-- The attempt is for a resource of the SEC. -/
abbrev Resources.OfSec (resources : Resources) (a : FetchAttempt) : Prop :=
  resources.secResource a.sourceId a.policyRevisionId a.requestUrl a.sourceObjectKey = true

section Grants

variable (resources : Resources) (resultText : ResultText)

/-- Before a state the attempt was dispatched, in a state in which a capability of its policy was in force and covered its object. -/
def DispatchedUnder (s : State) (a : FetchAttempt) : Prop :=
  ∃ s₀ s₁ action, (system resources resultText).Reachable s₀ ∧ (system resources resultText).step s₀ action s₁ ∧
    (system resources resultText).Run s₁ s ∧
    (∃ a₀ ∈ s₀.attempts.rows, a₀.identity = a.identity ∧ a₀.state = .prepared) ∧
    (∃ a₁ ∈ s₁.attempts.rows, a₁.identity = a.identity ∧ a₁.state = .inProgress) ∧
    ∃ c ∈ s₀.capabilities.rows, c.Grants a.policyRevisionId a.sourceId a.sourceObjectKey none false ∧ c.InForce s₀.now

/-- A capture that is linked to a policy has a capability of it, unless it is of the SEC. -/
def LinkGranted (s : State) (c : SourceCapture) : Prop :=
  ∀ policy, c.policyRevisionId = some policy → resources.secResource c.sourceId policy c.requestUrl c.sourceObjectKey = false →
    ∃ cap ∈ s.capabilities.rows, cap.Grants policy c.sourceId c.sourceObjectKey none false

/-- An input of observations is a capture of its batch's source and policy, with a capability that covers its normalized content. -/
def InputGranted (s : State) (i : Child BatchInput) : Prop :=
  i.item.role = .observations → ∃ b ∈ s.store.batches.rows, b.id = i.batchId ∧
    ∃ c ∈ s.captures.rows, i.item.captureId = some c.id ∧ c.policyRevisionId = some b.content.policyRevisionId ∧
      c.sourceId = b.content.sourceId ∧ ∃ cap ∈ s.capabilities.rows,
        cap.Grants b.content.policyRevisionId b.content.sourceId c.sourceObjectKey b.content.sourceSeriesKey true

variable {resources resultText}

/-- The guard of attempts lets a dispatch pass under a capability in force. -/
theorem granted_of_trigger {s : State} {guard : RowTrigger} {a new : FetchAttempt} (ha : a.state = .prepared)
    (hnew : new.state = .inProgress) (hsec : ¬ resources.OfSec new) (h : s.trigger resources guard (some a) new = .ok ()) :
    ∃ c ∈ s.capabilities.rows, c.Grants new.policyRevisionId new.sourceId new.sourceObjectKey none false ∧ c.InForce s.now := by
  obtain ⟨_, hpolicy, -⟩ := bind_eq_ok.mp h
  rw [marketAttemptPolicyGuard, if_neg hsec] at hpolicy
  obtain ⟨_, -, hpermission⟩ := bind_eq_ok.mp hpolicy
  rw [if_pos (by simp [ha, hnew])] at hpermission
  obtain ⟨c, hc, hgrants, hinForce⟩ := marketValidatePolicy_eq_ok hpermission
  exact ⟨c, hc, hgrants, hinForce rfl⟩

/-- The guard of links lets a capture pass under a capability. -/
theorem granted_of_guard {s : State} {c : SourceCapture} {policy : Uuid}
    (hsec : resources.secResource c.sourceId policy c.requestUrl c.sourceObjectKey = false)
    (h : marketCapturePolicyGuard resources s.capabilities s.now c policy = .ok ()) :
    ∃ cap ∈ s.capabilities.rows, cap.Grants policy c.sourceId c.sourceObjectKey none false := by
  rw [marketCapturePolicyGuard, if_neg (by rw [hsec]; exact Bool.false_ne_true)] at h
  obtain ⟨_, -, hpermission⟩ := bind_eq_ok.mp h
  obtain ⟨cap, hcap, hgrants, -⟩ := marketValidatePolicy_eq_ok hpermission
  exact ⟨cap, hcap, hgrants⟩

/-- A publication leaves the clock, the capabilities, the captures and the attempts as they are. -/
theorem frame_of_publish {s s' : State} {lease : Lease} {stage : Uuid} {bundle : MarketBundle} {references : References}
    {result : PublishResult} (h : s.publish resources resultText lease stage bundle references = .ok (s', result)) :
    ∃ db store, marketPublish resultText (s.world resources references) s.store lease stage bundle = .ok (db, store, result) ∧
      s' = { s with db, store } := by
  simp only [State.publish, bind_eq_ok, pure_eq_ok, Prod.mk.injEq] at h
  obtain ⟨⟨db, store, published⟩, hpublish, rfl, rfl⟩ := h
  exact ⟨db, store, hpublish, rfl⟩

/-! ### Attempts -/

section Attempts

variable {s s' : State} {a a' : FetchAttempt}

/-- What was dispatched before a state was dispatched before the next one. -/
theorem DispatchedUnder.later (h : DispatchedUnder resources resultText s a) {action : Action}
    (hstep : (system resources resultText).step s action s') : DispatchedUnder resources resultText s' a := by
  obtain ⟨s₀, s₁, dispatch, hreachable, hdispatch, hrun, hgranted⟩ := h
  exact ⟨s₀, s₁, dispatch, hreachable, hdispatch, .step hrun hstep, hgranted⟩

/-- An attempt with the same identity has the same source, policy and resource. -/
theorem resource_of_identity (h : a'.identity = a.identity) :
    a'.sourceId = a.sourceId ∧ a'.policyRevisionId = a.policyRevisionId ∧ a'.requestUrl = a.requestUrl ∧
      a'.sourceObjectKey = a.sourceObjectKey := by
  have hsource := congrArg FetchAttempt.sourceId h
  have hpolicy := congrArg FetchAttempt.policyRevisionId h
  have hurl := congrArg FetchAttempt.requestUrl h
  have hobject := congrArg FetchAttempt.sourceObjectKey h
  exact ⟨hsource, hpolicy, hurl, hobject⟩

/-- Whether an attempt was dispatched under a grant depends on its identity. -/
theorem DispatchedUnder.congr (h : DispatchedUnder resources resultText s a) (hidentity : a'.identity = a.identity) :
    DispatchedUnder resources resultText s a' := by
  obtain ⟨hsource, hpolicy, -, hobject⟩ := resource_of_identity hidentity
  unfold DispatchedUnder
  rw [hidentity, hsource, hpolicy, hobject]
  exact h

/-- Whether an attempt is for a resource of the SEC depends on its identity. -/
theorem ofSec_congr (hidentity : a'.identity = a.identity) : resources.OfSec a' ↔ resources.OfSec a := by
  obtain ⟨hsource, hpolicy, hurl, hobject⟩ := resource_of_identity hidentity
  rw [Resources.OfSec, Resources.OfSec, hsource, hpolicy, hurl, hobject]

/-- A row after a rewriting is the new row or was there before. -/
theorem mem_of_rewrites {attempts attempts' : Attempts} {old new : FetchAttempt} (h : Rewrites attempts attempts' old new)
    (ha : a ∈ attempts'.rows) : a = new ∨ a ∈ attempts.rows := by
  rw [h.2.2] at ha
  obtain ⟨b, hb, rfl⟩ := List.mem_map.mp ha
  split
  · exact .inl rfl
  · exact .inr hb

/-- The new row is there after a rewriting. -/
theorem new_mem_of_rewrites {attempts attempts' : Attempts} {old new : FetchAttempt} (h : Rewrites attempts attempts' old new) :
    new ∈ attempts'.rows := by
  rw [h.2.2]
  exact List.mem_map.mpr ⟨old, h.1, if_pos rfl⟩

/-- Every attempt for a market resource was dispatched under a capability in force. -/
theorem dispatched_of_reachable (hs : (system resources resultText).Reachable s) :
    ∀ a ∈ s.attempts.rows, a.requestedAt ≠ none → ¬ resources.OfSec a → DispatchedUnder resources resultText s a := by
  induction hs with
  | initial h =>
    intro a ha
    rw [h.2.2.1] at ha
    exact absurd ha List.not_mem_nil
  | @step s s' action hs hstep ih =>
    intro a ha hrequested hsec
    have hbefore : a ∈ s.attempts.rows → DispatchedUnder resources resultText s' a := fun hold =>
      (ih a hold hrequested hsec).later hstep
    rcases effect_of_step hstep with hsame | heffect
    · exact hbefore (hsame ▸ ha)
    cases heffect with
    | elapsed now db h => exact hbefore (by rw [h] at ha; exact ha)
    | granted capabilities _ h => exact hbefore (by rw [h] at ha; exact ha)
    | published lease stage bundle references result h =>
      obtain ⟨db, store, -, hs'⟩ := frame_of_publish h
      exact hbefore (by rw [hs'] at ha; exact ha)
    | fetched captures attempts guard _ hattempts h =>
      have hrow : a ∈ attempts.rows := by rw [h] at ha; exact ha
      cases hattempts with
      | same hsame => exact hbefore (hsame ▸ hrow)
      | inserted row hnone hrows =>
        rw [hrows] at hrow
        rcases List.mem_append.mp hrow with hold | hnew
        · exact hbefore hold
        · rw [List.mem_singleton.mp hnew] at hrequested
          exact absurd hnone hrequested
      | rewritten old new hsame hrewrites =>
        rcases mem_of_rewrites hrewrites hrow with rfl | hold
        · have holdSec : ¬ resources.OfSec old := (not_congr (ofSec_congr hrewrites.2.1)).mp hsec
          exact ((ih old hrewrites.1 (hsame ▸ hrequested) holdSec).later hstep).congr hrewrites.2.1
        · exact hbefore hold
      | dispatched old new hprepared hinProgress hrewrites htrigger =>
        rcases mem_of_rewrites hrewrites hrow with rfl | hold
        · refine ⟨s, s', action, hs, hstep, .refl s', ⟨old, hrewrites.1, hrewrites.2.1.symm, hprepared⟩, ⟨a, ha, rfl, hinProgress⟩, ?_⟩
          exact granted_of_trigger hprepared hinProgress hsec htrigger
        · exact hbefore hold

end Attempts

/-! ### Captures and inputs -/

section Evidence

variable {s s' : State}

/-- A capability that grants is there later. -/
theorem Kept.grants {capabilities capabilities' : Capabilities} (h : Kept capabilities capabilities') {policy source : Uuid}
    {objectKey : String} {seriesKey : Option String} {normalized : Bool}
    (hgrants : ∃ c ∈ capabilities.rows, c.Grants policy source objectKey seriesKey normalized) :
    ∃ c ∈ capabilities'.rows, c.Grants policy source objectKey seriesKey normalized := by
  obtain ⟨c, hc, hgrants⟩ := hgrants
  obtain ⟨c', hc', hlater⟩ := h c hc
  exact ⟨c', hc', hlater.grants hgrants⟩

/-- A step keeps all capabilities. -/
theorem kept_of_effect (h : Effect resources resultText s s') : Kept s.capabilities s'.capabilities := by
  cases h with
  | elapsed now db h => exact h ▸ Kept.refl _
  | granted capabilities hkept h => exact h ▸ hkept
  | fetched captures attempts guard _ _ h => exact h ▸ Kept.refl _
  | published lease stage bundle references result h =>
    obtain ⟨db, store, -, hs'⟩ := frame_of_publish h
    exact hs' ▸ Kept.refl _

/-- A capture after a step was there before, or the guard of links let it pass. -/
theorem capture_cases (h : Effect resources resultText s s') {c : SourceCapture} (hc : c ∈ s'.captures.rows) :
    c ∈ s.captures.rows ∨ ∃ policy, c.policyRevisionId = some policy ∧
      marketCapturePolicyGuard resources s.capabilities s.now c policy = .ok () := by
  cases h with
  | elapsed now db h => exact .inl (by rw [h] at hc; exact hc)
  | granted capabilities hkept h => exact .inl (by rw [h] at hc; exact hc)
  | published lease stage bundle references result h =>
    obtain ⟨db, store, -, hs'⟩ := frame_of_publish h
    exact .inl (by rw [hs'] at hc; exact hc)
  | fetched captures attempts guard hcaptures _ h =>
    have hrow : c ∈ captures.rows := by rw [h] at hc; exact hc
    cases hcaptures with
    | same hsame => exact .inl (hsame ▸ hrow)
    | archived row policy hpolicy hguard hrows =>
      rw [hrows] at hrow
      rcases List.mem_append.mp hrow with hold | hnew
      · exact .inl hold
      · obtain rfl := List.mem_singleton.mp hnew
        exact .inr ⟨policy, hpolicy, hguard⟩
    | linked row policy hmem hnone hguard hrows =>
      rw [hrows] at hrow
      obtain ⟨old, hold, rfl⟩ := List.mem_map.mp hrow
      split
      next hid =>
        obtain rfl := List.inj_on_of_nodup_map s.captures.valid.1 hold hmem hid
        exact .inr ⟨policy, rfl, hguard⟩
      next => exact .inl hold

/-- A capture that is linked to a policy stays as it is. -/
theorem linked_stays (h : Effect resources resultText s s') {c : SourceCapture} (hc : c ∈ s.captures.rows)
    (hlinked : c.policyRevisionId ≠ none) : c ∈ s'.captures.rows := by
  cases h with
  | elapsed now db h => exact h ▸ hc
  | granted capabilities hkept h => exact h ▸ hc
  | published lease stage bundle references result h =>
    obtain ⟨db, store, -, hs'⟩ := frame_of_publish h
    exact hs' ▸ hc
  | fetched captures attempts guard hcaptures _ h =>
    have hstays : c ∈ captures.rows := by
      cases hcaptures with
      | same hsame => exact hsame ▸ hc
      | archived row policy hpolicy hguard hrows =>
        rw [hrows]
        exact List.mem_append_left _ hc
      | linked row policy hmem hnone hguard hrows =>
        rw [hrows]
        refine List.mem_map.mpr ⟨c, hc, if_neg fun hid => ?_⟩
        obtain rfl := List.inj_on_of_nodup_map s.captures.valid.1 hc hmem hid
        exact hlinked hnone
    exact h ▸ hstays

/-- Every link of a capture is granted. -/
theorem links_invariant : (system resources resultText).Invariant fun s => ∀ c ∈ s.captures.rows, LinkGranted resources s c where
  initial := by
    intro s h c hc
    rw [h.2.1] at hc
    exact absurd hc List.not_mem_nil
  step := by
    intro s action s' hs hstep
    rcases effect_of_step hstep with rfl | heffect
    · exact hs
    intro c hc policy hpolicy hsec
    refine (kept_of_effect heffect).grants ?_
    rcases capture_cases heffect hc with hold | ⟨guarded, hguarded, hguard⟩
    · exact hs c hold policy hpolicy hsec
    · obtain rfl : policy = guarded := Option.some.inj (hpolicy.symm.trans hguarded)
      exact granted_of_guard hsec hguard

/-- Every item of a loop that returns has passed. -/
theorem passed_of_forM {ε α : Type} {f : α → Except ε Unit} {items : List α} (h : items.forM f = .ok ()) : ∀ x ∈ items, f x = .ok () := by
  induction items with
  | nil => exact fun x hx => absurd hx List.not_mem_nil
  | cons y items ih =>
    obtain ⟨_, hfirst, hrest⟩ := bind_eq_ok.mp h
    intro x hx
    rcases List.mem_cons.mp hx with rfl | hx
    · exact hfirst
    · exact ih hrest x hx

/-- The inputs of a publication that returns have passed their checks. -/
theorem inputs_of_publish {w : World} {store store' : MarketStore} {lease : Lease} {stage : Uuid} {bundle : MarketBundle} {db : Database}
    {result : PublishResult} (h : marketPublish resultText w store lease stage bundle = .ok (db, store', result)) :
    ∃ binding, ∀ i ∈ bundle.inputs, checkInput w bundle.batch binding i = .ok () := by
  simp only [marketPublish, bind_eq_ok] at h
  obtain ⟨_, -, _, -, _, -, _, -, _, -, _, -, binding, -, _, -, _, -, _, -, _, hinputs, -⟩ := h
  exact ⟨binding, passed_of_forM hinputs⟩

/-- An input of observations that has passed is a capture of the batch's source and policy. -/
theorem granted_of_checkInput {w : World} {batch : BatchContent} {binding : Option QuoteBinding} {i : BatchInput}
    (hchecked : i.Checked) (hrole : i.role = .observations) (h : checkInput w batch binding i = .ok ()) :
    ∃ c ∈ w.captures.rows, i.captureId = some c.id ∧ c.policyRevisionId = some batch.policyRevisionId ∧ c.sourceId = batch.sourceId ∧
      ∃ cap ∈ w.capabilities.rows, cap.Grants batch.policyRevisionId batch.sourceId c.sourceObjectKey batch.sourceSeriesKey true := by
  unfold checkInput at h
  split at h
  next _ _ id hcapture =>
    obtain ⟨⟨c, policy⟩, hrequire, hobserved⟩ := bind_eq_ok.mp h
    simp only [marketRequireCapture, bind_eq_ok, orRaise_eq_ok] at hrequire
    obtain ⟨found, hlookup, linked, hlinked, _, -, _, -, hrequire⟩ := hrequire
    have hpair : (found, linked) = (c, policy) := by
      split at hrequire
      · obtain ⟨_, -, hreturn⟩ := bind_eq_ok.mp hrequire
        exact pure_eq_ok.mp hreturn
      · exact pure_eq_ok.mp hrequire
    cases hpair
    obtain ⟨hmem, hid⟩ := Table.lookup_eq_some hlookup
    simp only [if_pos hrole] at hobserved
    obtain ⟨_, hmatches, hpermission⟩ := bind_eq_ok.mp hobserved
    simp only [raiseIf_eq_ok, not_or, not_not] at hmatches
    obtain ⟨hsource, rfl⟩ := hmatches
    obtain ⟨cap, hcap, hgrants, -⟩ := marketValidatePolicy_eq_ok hpermission
    exact ⟨c, hmem, by rw [hcapture, hid], hlinked, hsource, cap, hcap, hgrants⟩
  next attempt hcapture hattempt =>
    have hfetch := hchecked.2 (by rw [hattempt]; exact Option.some_ne_none attempt)
    exact absurd (hrole.symm.trans hfetch) InputRole.noConfusion
  next hcapture hattempt => exact absurd hattempt (hchecked.1.mp hcapture)

/-- An input after a publication was there before, or is one of its bundle. -/
theorem input_cases {store store' : MarketStore} {bundle : MarketBundle} {result : PublishResult}
    (h : Publishes store store' bundle result) {i : Child BatchInput} (hi : i ∈ store'.inputs.rows) :
    i ∈ store.inputs.rows ∨ (i.batchId = result.batchId ∧ i.item ∈ bundle.inputs) := by
  obtain ⟨new, hrows, hsub, -⟩ := h.inputs.stores.added
  rw [hrows] at hi
  rcases List.mem_append.mp hi with hold | hnew
  · exact .inl hold
  · obtain ⟨item, hitem, rfl⟩ := List.mem_map.mp (hsub hnew)
    exact .inr ⟨rfl, hitem⟩

/-- What is granted of an input stays granted. -/
theorem InputGranted.later {i : Child BatchInput} (h : InputGranted s i) (heffect : Effect resources resultText s s')
    (hbatches : ∀ b ∈ s.store.batches.rows, b ∈ s'.store.batches.rows) : InputGranted s' i := by
  intro hrole
  obtain ⟨b, hb, hid, c, hc, hcapture, hpolicy, hsource, hgrants⟩ := h hrole
  have hstays := linked_stays heffect hc (by rw [hpolicy]; exact Option.some_ne_none _)
  exact ⟨b, hbatches b hb, hid, c, hstays, hcapture, hpolicy, hsource, (kept_of_effect heffect).grants hgrants⟩

/-- Every input of observations is granted. -/
theorem inputs_invariant :
    (system resources resultText).Invariant fun s => s.store.Sound ∧ ∀ i ∈ s.store.inputs.rows, InputGranted s i where
  initial := by
    intro s h
    refine ⟨sound_invariant.initial s h, ?_⟩
    intro i hi
    rw [h.2.2.2] at hi
    exact absurd hi List.not_mem_nil
  step := by
    rintro s action s' ⟨hsound, hs⟩ hstep
    refine ⟨sound_invariant.step s action s' hsound hstep, ?_⟩
    rcases effect_of_step hstep with rfl | heffect
    · exact hs
    intro i hi
    have hsame : s'.store = s.store → InputGranted s' i := by
      intro hstore
      rw [hstore] at hi
      exact (hs i hi).later heffect (by rw [hstore]; exact fun _ hb => hb)
    have hkeeps := heffect
    cases heffect with
    | elapsed now db h => exact hsame (by rw [h])
    | granted capabilities hkept h => exact hsame (by rw [h])
    | fetched captures attempts guard hcaptures hattempts h => exact hsame (by rw [h])
    | published lease stage bundle references result h =>
      have hpublishes := publish_eq_ok hsound h
      obtain ⟨⟨b, hb, hid, -, hcontent⟩, hbatches, -⟩ := hpublishes.batch hsound
      rcases input_cases hpublishes hi with hold | ⟨hbatch, hitem⟩
      · exact (hs i hold).later hkeeps hbatches
      intro hrole
      obtain ⟨db, store, hpublish, rfl⟩ := frame_of_publish h
      obtain ⟨binding, hpassed⟩ := inputs_of_publish hpublish
      have hgranted := granted_of_checkInput (store.inputs.valid.2.2.2 i hi) hrole (hpassed i.item hitem)
      rw [← hcontent] at hgranted
      exact ⟨b, hb, hid.trans hbatch.symm, hgranted⟩

end Evidence

/-- **No request leaves under a policy that does not grant it.** A source has at most one active capability; a capability goes on from
inactive to active to disabled and changes in no other way; every attempt for a market resource was dispatched while its own capability
was in force and covered its object; and every linked capture and every input of observations has a capability that retains and covers
it. -/
theorem requests_granted {s : State} (hs : (system resources resultText).Reachable s) :
    (∀ c ∈ s.capabilities.rows, ∀ c' ∈ s.capabilities.rows, c.Active → c'.Active → c.sourceId = c'.sourceId → c = c') ∧
      (∀ s', (system resources resultText).Run s s' → Kept s.capabilities s'.capabilities) ∧
      (∀ a ∈ s.attempts.rows, a.requestedAt ≠ none → ¬ resources.OfSec a → DispatchedUnder resources resultText s a) ∧
      (∀ c ∈ s.captures.rows, LinkGranted resources s c) ∧ ∀ i ∈ s.store.inputs.rows, InputGranted s i := by
  refine ⟨?_, ?_, dispatched_of_reachable hs, links_invariant.holds hs, (inputs_invariant.holds hs).2⟩
  · intro c hc c' hc' hactive hactive' hsource
    exact active_unique hc hc' hactive hactive' hsource
  · intro s' hrun
    induction hrun with
    | refl => exact .refl _
    | step _ hstep ih =>
      rcases effect_of_step hstep with rfl | heffect
      · exact ih
      · exact ih.trans (kept_of_effect heffect)

end Grants

/-! ### A dispatched attempt -/

/-- A request for the observations of the series. -/
def sampleFetch : AttemptRequest where
  logicalFetchId := 80
  sequence := 1
  sourceId := 5
  policyRevisionId := 6
  sourceObjectKey := "fred_observations/BC_10YEAR"
  requestUrl := "https://api.stlouisfed.org/fred/series/observations"
  requestParamsHash := String.ofList (List.replicate 64 '0')
  validatorCaptureId := none
  ifNoneMatch := none
  ifModifiedSince := none

/-- The stage of the samples runs. -/
def sampleStageAnswer : StageAnswer := ⟨true, 1, "worker"⟩

/-- The capability is activated. -/
def sampleActive : State := sampleReady.after sampleResources sampleText (.activate 6 "operator" "reviewed")

/-- An attempt is prepared. -/
def samplePrepared : State :=
  sampleActive.after sampleResources sampleText (.attempt (.prepare 1 70 sampleLease 3 sampleStageAnswer sampleFetch) fun _ _ => .ok ())

/-- The attempt is dispatched. -/
def sampleDispatched : State :=
  samplePrepared.after sampleResources sampleText (.attempt (.dispatch 2 sampleLease sampleStageAnswer 70 0) fun _ _ => .ok ())

theorem requests_granted_sample :
    sampleDispatched.attempts.rows.map (·.requestedAt) = [some 0] ∧
      ∀ a ∈ sampleDispatched.attempts.rows, a.requestedAt ≠ none → ¬ sampleResources.OfSec a →
        DispatchedUnder sampleResources sampleText sampleDispatched a := by
  have hactive : (system sampleResources sampleText).Reachable sampleActive := reachable_after sampleReady_reachable _ trivial
  have hprepared : (system sampleResources sampleText).Reachable samplePrepared := reachable_after hactive _ trivial
  have hdispatched : (system sampleResources sampleText).Reachable sampleDispatched := reachable_after hprepared _ trivial
  exact ⟨by decide +kernel, (requests_granted hdispatched).2.2.1⟩

end EquityEval.Market
