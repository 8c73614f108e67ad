import EquityEval.Market.System

/-!
# What a call does to the tables

A capability goes one way: inactive, active, disabled. A call of an attempt inserts an attempt or rewrites
one, with its capture before it; a capture is inserted with its link or linked once; and only a publication
touches the tables of market data.
-/

namespace EquityEval.Market

open Relational Workflow Ingestion TransitionSystem

/-- The rows of a table with unique keys are different. -/
theorem nodup_of_unique {ρ κ : Type} {key : ρ → κ} {rows : List ρ} (h : UniqueBy key rows) : rows.Nodup := h.of_map

/-! ### The life of a capability -/

/-- What becomes of a capability: its grant stays, an activation stays, and a disabled one stays as it is. -/
structure Capability.Later (c c' : Capability) : Prop where
  grant : { c' with activated := none, disabled := none } = { c with activated := none, disabled := none }
  activated : c.activated ≠ none → c'.activated = c.activated
  disabled : c.disabled ≠ none → c' = c

/-- Every capability of a table is there later. -/
def Kept (capabilities capabilities' : Capabilities) : Prop := ∀ c ∈ capabilities.rows, ∃ c' ∈ capabilities'.rows, c.Later c'

section Capabilities

variable {capabilities capabilities' capabilities'' : Capabilities} {c c' c'' : Capability}

/-- A capability is its own later state. -/
theorem Capability.Later.refl (c : Capability) : c.Later c := ⟨rfl, fun _ => rfl, fun _ => rfl⟩

/-- Later states follow one another. -/
theorem Capability.Later.trans (h : c.Later c') (h' : c'.Later c'') : c.Later c'' := by
  constructor
  case grant => exact h'.grant.trans h.grant
  case activated =>
    intro hactivated
    have hsame := h.activated hactivated
    exact (h'.activated (hsame ▸ hactivated)).trans hsame
  case disabled =>
    intro hdisabled
    obtain rfl := h.disabled hdisabled
    exact h'.disabled hdisabled

/-- A later state has the same identity and the same grant. -/
theorem Capability.Later.same (h : c.Later c') :
    c'.policyRevisionId = c.policyRevisionId ∧ c'.sourceId = c.sourceId ∧ c'.rawScope = c.rawScope ∧
      c'.normalizedScope = c.normalizedScope ∧ c'.rawRetention = c.rawRetention ∧ c'.normalizedRetention = c.normalizedRetention ∧
      c'.internalAnalysisAllowed = c.internalAnalysisAllowed := by
  have hgrant := h.grant
  simp only [Capability.mk.injEq] at hgrant
  obtain ⟨hpolicy, hsource, hraw, hnormalized, hrawRetention, hnormalizedRetention, hanalysis, -⟩ := hgrant
  exact ⟨hpolicy, hsource, hraw, hnormalized, hrawRetention, hnormalizedRetention, hanalysis⟩

/-- A grant stays. -/
theorem Capability.Later.grants (h : c.Later c') {policy source : Uuid} {objectKey : String} {seriesKey : Option String}
    {normalized : Bool} (hgrants : c.Grants policy source objectKey seriesKey normalized) :
    c'.Grants policy source objectKey seriesKey normalized := by
  obtain ⟨hpolicy, hsource, hraw, hnormalized, hrawRetention, hnormalizedRetention, hanalysis⟩ := h.same
  constructor
  case policy_eq => exact hpolicy.trans hgrants.policy_eq
  case source_eq => exact hsource.trans hgrants.source_eq
  case retains =>
    unfold Capability.Retains
    rw [hrawRetention, hnormalizedRetention, hanalysis]
    exact hgrants.retains
  case covers =>
    have hscope : c'.scope normalized = c.scope normalized := by rw [Capability.scope, Capability.scope, hraw, hnormalized]
    rw [hscope]
    exact hgrants.covers

/-- Nothing happens to the capabilities. -/
theorem Kept.refl (capabilities : Capabilities) : Kept capabilities capabilities := fun c hc => ⟨c, hc, .refl c⟩

/-- What is kept twice is kept. -/
theorem Kept.trans (h : Kept capabilities capabilities') (h' : Kept capabilities' capabilities'') : Kept capabilities capabilities'' := by
  intro c hc
  obtain ⟨c', hc', hlater⟩ := h c hc
  obtain ⟨c'', hc'', hlater'⟩ := h' c' hc'
  exact ⟨c'', hc'', hlater.trans hlater'⟩

/-- The guard of updates lets a capability go on only. -/
theorem later_of_guard (h : capabilityUpdateGuard c c' = .ok ()) : c.Later c' := by
  rw [capabilityUpdateGuard, raiseIf_eq_ok] at h
  simp only [not_or, not_not, not_and, ne_eq] at h
  obtain ⟨hgrant, hactivated, hdisabled, -, -⟩ := h
  exact ⟨hgrant, hactivated, fun hdone => absurd hdisabled hdone⟩

/-- An update of a row keeps all capabilities. -/
theorem kept_of_update (hc : c ∈ capabilities.rows) (h : updateCapability capabilities c c' = .ok capabilities') :
    Kept capabilities capabilities' ∧ ∀ d ∈ capabilities.rows, d.policyRevisionId ≠ c.policyRevisionId → d ∈ capabilities'.rows := by
  obtain ⟨hguard, hrows⟩ := updateCapability_eq_ok h
  constructor
  · intro d hd
    refine ⟨if d.policyRevisionId = c.policyRevisionId then c' else d, ?_, ?_⟩
    · rw [hrows]
      exact List.mem_map_of_mem hd
    · split
      next hid =>
        obtain rfl := List.inj_on_of_nodup_map capabilities.valid.1 hd hc hid
        exact later_of_guard hguard
      next => exact .refl d
  · intro d hd hid
    rw [hrows]
    exact List.mem_map.mpr ⟨d, hd, if_neg hid⟩

/-- An insertion keeps all capabilities. -/
theorem kept_of_insert (h : insertCapability capabilities c = .ok capabilities') : Kept capabilities capabilities' := by
  obtain ⟨_, -, hinsert⟩ := bind_eq_ok.mp h
  intro d hd
  refine ⟨d, ?_, .refl d⟩
  rw [Table.insert_eq_ok hinsert]
  exact List.mem_append_left _ hd

/-- A source has at most one active capability. -/
theorem active_unique (hc : c ∈ capabilities.rows) (hc' : c' ∈ capabilities.rows) (hactive : c.Active) (hactive' : c'.Active)
    (hsource : c.sourceId = c'.sourceId) : c = c' :=
  List.inj_on_of_nodup_map capabilities.valid.2.1 (List.mem_filter.mpr ⟨hc, decide_eq_true hactive⟩)
    (List.mem_filter.mpr ⟨hc', decide_eq_true hactive'⟩) hsource

/-- The active capabilities of a source are none or one. -/
theorem active_cases (capabilities : Capabilities) (source : Uuid) :
    (capabilities.rows.filter fun c => decide (c.sourceId = source ∧ c.Active)) = [] ∨
      ∃ c ∈ capabilities.rows, c.Active ∧ (capabilities.rows.filter fun c => decide (c.sourceId = source ∧ c.Active)) = [c] := by
  have hmem : ∀ c ∈ capabilities.rows.filter fun c => decide (c.sourceId = source ∧ c.Active),
      c ∈ capabilities.rows ∧ c.sourceId = source ∧ c.Active := by
    intro c hc
    obtain ⟨hrow, hactive⟩ := List.mem_filter.mp hc
    exact ⟨hrow, of_decide_eq_true hactive⟩
  have hnodup : (capabilities.rows.filter fun c => decide (c.sourceId = source ∧ c.Active)).Nodup :=
    (nodup_of_unique capabilities.valid.1).filter _
  match hlist : capabilities.rows.filter fun c => decide (c.sourceId = source ∧ c.Active) with
  | [] => exact .inl hlist
  | [c] =>
    obtain ⟨hrow, -, hactive⟩ := hmem c (by rw [hlist]; exact List.mem_singleton_self c)
    exact .inr ⟨c, hrow, hactive, hlist⟩
  | c :: d :: rest =>
    obtain ⟨hc, hcsource, hcactive⟩ := hmem c (by rw [hlist]; exact List.mem_cons_self)
    obtain ⟨hd, hdsource, hdactive⟩ := hmem d (by rw [hlist]; exact List.mem_cons_of_mem c List.mem_cons_self)
    rw [hlist, active_unique hc hd hcactive hdactive (hcsource.trans hdsource.symm)] at hnodup
    exact absurd List.mem_cons_self (List.nodup_cons.mp hnodup).1

/-- Disabling the active capabilities of a source keeps all capabilities, and the inactive ones as they are. -/
theorem kept_of_disableActive {source : Uuid} {occasion : Occasion}
    (h : disableActive capabilities source occasion = .ok capabilities') :
    Kept capabilities capabilities' ∧ ∀ d ∈ capabilities.rows, ¬ d.Active → d ∈ capabilities'.rows := by
  unfold disableActive at h
  rcases active_cases capabilities source with hnone | ⟨c, hc, hactive, hone⟩
  · rw [hnone] at h
    cases h
    exact ⟨.refl _, fun d hd _ => hd⟩
  · rw [hone, List.foldlM_cons] at h
    obtain ⟨updated, hupdate, hrest⟩ := bind_eq_ok.mp h
    cases hrest
    obtain ⟨hkept, hothers⟩ := kept_of_update hc hupdate
    refine ⟨hkept, fun d hd hinactive => hothers d hd fun hid => ?_⟩
    obtain rfl := List.inj_on_of_nodup_map capabilities.valid.1 hd hc hid
    exact hinactive hactive

/-- An activation keeps all capabilities. -/
theorem kept_of_activate {now : Instant} {policy : Uuid} {actor reason : String}
    (h : marketActivatePolicy capabilities now policy actor reason = .ok capabilities') : Kept capabilities capabilities' := by
  simp only [marketActivatePolicy, bind_eq_ok, orRaise_eq_ok, raiseIf_eq_ok] at h
  obtain ⟨c, hlookup, _, hinactive, _, -, disabled, hdisable, hupdate⟩ := h
  obtain ⟨hkept, hothers⟩ := kept_of_disableActive hdisable
  have hc := hothers c (Table.lookup_eq_some hlookup).1 fun hactive => hinactive (.inl hactive.1)
  exact hkept.trans (kept_of_update hc hupdate).1

/-- Disabling a policy keeps all capabilities. -/
theorem kept_of_disable {now : Instant} {policy : Uuid} {actor reason : String}
    (h : marketDisablePolicy capabilities now policy actor reason = .ok capabilities') : Kept capabilities capabilities' := by
  simp only [marketDisablePolicy, bind_eq_ok, orRaise_eq_ok] at h
  obtain ⟨c, hlookup, _, -, _, -, hupdate⟩ := h
  exact (kept_of_update (Table.lookup_eq_some hlookup).1 hupdate).1

end Capabilities

/-! ### Captures and attempts -/

/-- What a call does to the attempts: it inserts one that is not dispatched, dispatches one that was prepared, or rewrites one. -/
inductive AttemptChange (trigger : RowTrigger) (attempts attempts' : Attempts) : Prop where
  | same (h : attempts' = attempts)
  | inserted (row : FetchAttempt) (hrow : row.requestedAt = none) (hrows : attempts'.rows = attempts.rows ++ [row])
  | dispatched (a new : FetchAttempt) (ha : a.state = .prepared) (hnew : new.state = .inProgress)
      (hrewrites : Rewrites attempts attempts' a new) (htrigger : trigger (some a) new = .ok ())
  | rewritten (a new : FetchAttempt) (hrequested : new.requestedAt = a.requestedAt) (hrewrites : Rewrites attempts attempts' a new)

/-- What a call does to the captures: it inserts one with its link to a policy that permits it, or links one that has none. -/
inductive CaptureChange (resources : Resources) (capabilities : Capabilities) (now : Instant) (captures captures' : Captures) : Prop where
  | same (h : captures' = captures)
  | archived (row : SourceCapture) (policy : Uuid) (hpolicy : row.policyRevisionId = some policy)
      (hguard : marketCapturePolicyGuard resources capabilities now row policy = .ok ()) (hrows : captures'.rows = captures.rows ++ [row])
  | linked (row : SourceCapture) (policy : Uuid) (hrow : row ∈ captures.rows) (hnone : row.policyRevisionId = none)
      (hguard : marketCapturePolicyGuard resources capabilities now row policy = .ok ())
      (hrows : captures'.rows =
        captures.rows.map fun c => if c.id = row.id then { c with policyRevisionId := some policy } else c)

/-- What a call does. -/
inductive Effect (resources : Resources) (resultText : ResultText) (s s' : State) : Prop where
  | elapsed (now : Instant) (db : Database) (h : s' = { s with now, db })
  | granted (capabilities : Capabilities) (hkept : Kept s.capabilities capabilities) (h : s' = { s with capabilities })
  | fetched (captures : Captures) (attempts : Attempts) (guard : RowTrigger)
      (hcaptures : CaptureChange resources s.capabilities s.now s.captures captures)
      (hattempts : AttemptChange (s.trigger resources guard) s.attempts attempts) (h : s' = { s with captures, attempts })
  | published (lease : Lease) (stage : Uuid) (bundle : MarketBundle) (references : References) (result : PublishResult)
      (h : s.publish resources resultText lease stage bundle references = .ok (s', result))

section Calls

variable {resources : Resources} {resultText : ResultText} {s s' : State}

/-- An archived capture is inserted with its link. -/
theorem archive_eq_ok {row : SourceCapture} (h : s.archive resources row = .ok s') :
    ∃ captures, CaptureChange resources s.capabilities s.now s.captures captures ∧ s' = { s with captures } := by
  simp only [State.archive, bind_eq_ok, pure_eq_ok, orRaise_eq_ok] at h
  obtain ⟨policy, hpolicy, _, hguard, captures, hinsert, rfl⟩ := h
  exact ⟨captures, .archived row policy hpolicy hguard (Table.insert_eq_ok hinsert), rfl⟩

/-- A body that is archived at the end of an attempt is a capture. -/
theorem archiveBody_eq_ok {id : Uuid} {finishedAt : Instant} {body : Option ArchivedBody}
    (h : s.archiveBody resources id finishedAt body = .ok s') :
    ∃ captures, CaptureChange resources s.capabilities s.now s.captures captures ∧ s' = { s with captures } := by
  cases body with
  | none =>
    cases h
    exact ⟨s.captures, .same rfl, rfl⟩
  | some body =>
    simp only [State.archiveBody, bind_eq_ok] at h
    obtain ⟨_, -, _, -, harchive⟩ := h
    exact archive_eq_ok harchive

/-- A link is made once. -/
theorem link_eq_ok {capture policy : Uuid} (h : s.link resources capture policy = .ok s') :
    ∃ captures, CaptureChange resources s.capabilities s.now s.captures captures ∧ s' = { s with captures } := by
  simp only [State.link, bind_eq_ok, pure_eq_ok, orRaise_eq_ok, raiseIf_eq_ok, not_not] at h
  obtain ⟨row, hlookup, _, hnone, _, hguard, captures, hupdate, rfl⟩ := h
  obtain ⟨hrow, rfl⟩ := Table.lookup_eq_some hlookup
  exact ⟨captures, .linked row policy hrow hnone hguard (Table.update_eq_ok hupdate), rfl⟩

/-- A call of an attempt changes the captures and then the attempts. -/
theorem performAttempt_eq_ok {guard : RowTrigger} {call : AttemptCall} (h : s.performAttempt resources guard call = .ok s') :
    ∃ captures attempts, CaptureChange resources s.capabilities s.now s.captures captures ∧
      AttemptChange (s.trigger resources guard) s.attempts attempts ∧ s' = { s with captures, attempts } := by
  cases call with
  | prepare transaction id lease stage answer request =>
    simp only [State.performAttempt, bind_eq_ok, pure_eq_ok] at h
    obtain ⟨⟨attempts, prepared⟩, hprepare, rfl⟩ := h
    refine ⟨s.captures, attempts, .same rfl, ?_, rfl⟩
    rcases ingestionPrepare_eq_ok hprepare with ⟨-, hsame⟩ | ⟨-, hrows, -⟩
    · exact .same hsame
    · exact .inserted _ rfl hrows
  | dispatch transaction lease answer id requestedAt =>
    simp only [State.performAttempt, bind_eq_ok, pure_eq_ok] at h
    obtain ⟨attempts, hdispatch, rfl⟩ := h
    obtain ⟨a, -, ha, hrewrites, htrigger⟩ := ingestionDispatch_eq_ok hdispatch
    exact ⟨s.captures, attempts, .same rfl, .dispatched a _ ha rfl hrewrites htrigger, rfl⟩
  | headers lease answer id receivedAt status evidence =>
    simp only [State.performAttempt, bind_eq_ok, pure_eq_ok] at h
    obtain ⟨attempts, hheaders, rfl⟩ := h
    obtain ⟨a, new, hrequested, -, hrewrites, -⟩ := ingestionHeaders_eq_ok hheaders
    exact ⟨s.captures, attempts, .same rfl, .rewritten a new hrequested hrewrites, rfl⟩
  | finalize lease answer id ending body =>
    simp only [State.performAttempt, bind_eq_ok, pure_eq_ok] at h
    obtain ⟨_, -, s₁, harchive, attempts, hfinalize, rfl⟩ := h
    obtain ⟨captures, hcaptures, rfl⟩ := archiveBody_eq_ok harchive
    obtain ⟨a, -, hrewrites, -⟩ := ingestionFinalize_eq_ok hfinalize
    exact ⟨captures, attempts, hcaptures, .rewritten a (a.ended ending) rfl hrewrites, rfl⟩
  | recover owned id =>
    simp only [State.performAttempt, bind_eq_ok, pure_eq_ok] at h
    obtain ⟨⟨attempts, recovered⟩, hrecover, rfl⟩ := h
    refine ⟨s.captures, attempts, .same rfl, ?_, rfl⟩
    rcases ingestionRecover_eq_ok hrecover with hsame | ⟨a, hrewrites, -⟩
    · exact .same hsame
    · exact .rewritten a (a.ended (a.interruption s.now)) rfl hrewrites

/-- What a call does that returns. -/
theorem perform_eq_ok {action : Action} (h : s.perform resources resultText action = .ok s') : Effect resources resultText s s' := by
  cases action with
  | advance later =>
    cases h
    exact .elapsed later s.db rfl
  | workflow db =>
    cases h
    exact .elapsed s.now db rfl
  | insertCapability new =>
    simp only [State.perform, bind_eq_ok, pure_eq_ok] at h
    obtain ⟨capabilities, hinsert, rfl⟩ := h
    exact .granted capabilities (kept_of_insert hinsert) rfl
  | updateCapability old new =>
    simp only [State.perform, bind_eq_ok, pure_eq_ok, raiseIf_eq_ok, not_not] at h
    obtain ⟨_, hmem, capabilities, hupdate, rfl⟩ := h
    exact .granted capabilities (kept_of_update hmem hupdate).1 rfl
  | activate policy actor reason =>
    simp only [State.perform, bind_eq_ok, pure_eq_ok] at h
    obtain ⟨capabilities, hactivate, rfl⟩ := h
    exact .granted capabilities (kept_of_activate hactivate) rfl
  | disable policy actor reason =>
    simp only [State.perform, bind_eq_ok, pure_eq_ok] at h
    obtain ⟨capabilities, hdisable, rfl⟩ := h
    exact .granted capabilities (kept_of_disable hdisable) rfl
  | attempt call guard =>
    obtain ⟨captures, attempts, hcaptures, hattempts, hs'⟩ := performAttempt_eq_ok h
    exact .fetched captures attempts guard hcaptures hattempts hs'
  | capture row =>
    obtain ⟨captures, hcaptures, hs'⟩ := archive_eq_ok h
    exact .fetched captures s.attempts (fun _ _ => .ok ()) hcaptures (.same rfl) hs'
  | link capture policy =>
    obtain ⟨captures, hcaptures, hs'⟩ := link_eq_ok h
    exact .fetched captures s.attempts (fun _ _ => .ok ()) hcaptures (.same rfl) hs'
  | publish lease stage bundle references =>
    simp only [State.perform, bind_eq_ok, pure_eq_ok] at h
    obtain ⟨⟨s₁, result⟩, hpublish, rfl⟩ := h
    exact .published lease stage bundle references result hpublish

/-- A step does nothing, or what its call does. -/
theorem effect_of_step {action : Action} (h : (system resources resultText).step s action s') :
    s' = s ∨ Effect resources resultText s s' := by
  obtain ⟨-, rfl⟩ := h
  unfold State.after
  split
  next s₁ hperform => exact .inr (perform_eq_ok hperform)
  next => exact .inl rfl

end Calls

end EquityEval.Market
