import EquityEval.Provider.Quotas

/-!
# What the provider receives

A quota is counted when an attempt is prepared, and the provider receives the attempt when it is
dispatched. Between the two the worker waits for a permit, so an attempt can be counted in one window
and received in a later one.
-/

namespace EquityEval.Provider

open Relational Workflow Ingestion TransitionSystem Throttle

/-- The dispatches of a source. -/
def State.dispatchesOf (s : State) (source : Uuid) : List Dispatch := s.dispatches.filter fun d => d.sourceId = source

/-- At every dispatch of a source, the dispatches of the preceding periods and it are within a quota. -/
def State.ReceivesWithin (s : State) (source : Uuid) (quota : ProviderQuota) : Prop :=
  Admitted Dispatch.at' hour List.length quota.hourlyRequests (s.dispatchesOf source) ∧
    Admitted Dispatch.at' day List.length quota.dailyRequests (s.dispatchesOf source) ∧
    Admitted Dispatch.at' month List.length quota.monthlyRequests (s.dispatchesOf source)

/-- No attempt that is received in a period was prepared before it: neither the one that is dispatched nor those
that were dispatched in the preceding hour, day or 31 days. -/
def State.Timely (s : State) : Action → Prop
  | .dispatch source _ id _ _ _ => ∀ width ∈ [hour, day, month], ∀ a ∈ s.attempts.rows, a.sourceId = source →
      (a.id = id ∨ ∃ d ∈ s.dispatches, d.attemptId = a.id ∧ s.now - width ≤ d.at') → s.now - width ≤ a.preparedAt
  | _ => True

instance (s : State) : (action : Action) → Decidable (s.Timely action)
  | .dispatch source _ id _ _ _ =>
    inferInstanceAs (Decidable (∀ width ∈ [hour, day, month], ∀ a ∈ s.attempts.rows, a.sourceId = source →
      (a.id = id ∨ ∃ d ∈ s.dispatches, d.attemptId = a.id ∧ s.now - width ≤ d.at') → s.now - width ≤ a.preparedAt))
  | .advance .. | .begin .. | .abandon .. | .prepare .. | .headers .. | .finish .. | .recover .. => .isTrue trivial

section Logs

variable (descriptorOf : Uuid → ProviderDescriptor) (requestOf : Uuid → Option Uuid)

/-- The runs of the store all of whose dispatches are timely. -/
def timelySystem : System State Action where
  initial := (system descriptorOf requestOf).initial
  step s action s' := (system descriptorOf requestOf).step s action s' ∧ s.Timely action

variable {descriptorOf requestOf}

/-- The log of dispatches names attempts that are no longer prepared, each once. -/
structure Logged (s : State) : Prop where
  stamped : ∀ a ∈ s.attempts.rows, a.preparedAt ≤ s.now
  distinct : (s.dispatches.map Dispatch.attemptId).Nodup
  named : ∀ d ∈ s.dispatches, ∃ a ∈ s.attempts.rows, a.id = d.attemptId ∧ a.sourceId = d.sourceId ∧ a.state ≠ .prepared

/-- The clock does not go back. -/
theorem now_le_of_step {s s' : State} {action : Action} (h : (system descriptorOf requestOf).step s action s') : s.now ≤ s'.now := by
  obtain ⟨hallows, rfl⟩ := h
  cases action with
  | advance later => exact hallows
  | begin | abandon => exact le_rfl
  | prepare | dispatch | headers | finish | recover =>
    simp only [State.after]
    split <;> exact le_rfl

/-- An attempt keeps what its identity holds. -/
theorem kept_of_identity {a a' : FetchAttempt} (h : a'.identity = a.identity) :
    a'.id = a.id ∧ a'.sourceId = a.sourceId ∧ a'.preparedAt = a.preparedAt := by
  have hid := congrArg FetchAttempt.id h
  have hsource := congrArg FetchAttempt.sourceId h
  have hprepared := congrArg FetchAttempt.preparedAt h
  exact ⟨hid, hsource, hprepared⟩

/-- An attempt after a rewriting stems from one before it, and is no more prepared than that. -/
theorem exists_of_rewrites {attempts attempts' : Attempts} {old new : FetchAttempt} (h : Rewrites attempts attempts' old new)
    {a : FetchAttempt} (ha : a ∈ attempts.rows) (hnew : new.state ≠ .prepared) :
    ∃ a' ∈ attempts'.rows, a'.identity = a.identity ∧ (a.state ≠ .prepared → a'.state ≠ .prepared) ∧ (a = old → a' = new) := by
  obtain ⟨hold, hidentity, hrows⟩ := h
  refine ⟨if a.id = old.id then new else a, hrows ▸ List.mem_map_of_mem ha, ?_⟩
  split
  next hid =>
    have hsame := List.inj_on_of_nodup_map attempts.valid.1 ha hold hid
    exact ⟨hsame ▸ hidentity, fun _ => hnew, fun _ => rfl⟩
  next hid => exact ⟨rfl, id, fun heq => absurd (congrArg _ heq) hid⟩

/-- A rewriting keeps what the log of dispatches names. -/
theorem Logged.rewrite {s s' : State} {old new : FetchAttempt} (h : Logged s) (hnow : s.now ≤ s'.now) (hnew : new.state ≠ .prepared)
    (hrewrites : Rewrites s.attempts s'.attempts old new) (hdispatches : s'.dispatches = s.dispatches) : Logged s' := by
  refine ⟨?_, hdispatches ▸ h.distinct, ?_⟩
  · intro a' ha'
    have hmem : a'.identity ∈ s.attempts.rows.map FetchAttempt.identity := by
      rw [← identities_of_rewrites hrewrites]
      exact List.mem_map_of_mem ha'
    obtain ⟨a, ha, hidentity⟩ := List.mem_map.mp hmem
    obtain ⟨-, -, hprepared⟩ := kept_of_identity hidentity
    exact hprepared ▸ (h.stamped a ha).trans hnow
  · intro d hd
    obtain ⟨a, ha, hid, hsource, hstate⟩ := h.named d (hdispatches ▸ hd)
    obtain ⟨a', ha', hidentity, hprogress, -⟩ := exists_of_rewrites hrewrites ha hnew
    obtain ⟨hkept, hkeptSource, -⟩ := kept_of_identity hidentity
    exact ⟨a', ha', hkept.trans hid, hkeptSource.trans hsource, hprogress hstate⟩

/-- A dispatch adds an attempt to the log that was not in it. -/
theorem Logged.dispatch {s s' : State} {a new : FetchAttempt} (h : Logged s) (hnow : s.now ≤ s'.now) (ha : a.state = .prepared)
    (hnew : new.state = .inProgress) (hrewrites : Rewrites s.attempts s'.attempts a new)
    (hdispatches : s'.dispatches = s.dispatches ++ [⟨a.id, a.sourceId, s.now⟩]) : Logged s' := by
  have hprogress : new.state ≠ .prepared := hnew ▸ AttemptState.noConfusion
  have hkept : Logged { s' with dispatches := s.dispatches } := h.rewrite hnow hprogress hrewrites rfl
  refine ⟨hkept.stamped, ?_, ?_⟩
  · rw [hdispatches, List.map_append, List.map_singleton]
    refine List.nodup_append'.mpr ⟨h.distinct, List.nodup_singleton _, List.disjoint_singleton.mpr ?_⟩
    intro hmem
    obtain ⟨d, hd, hid⟩ := List.mem_map.mp hmem
    obtain ⟨found, hfound, hfoundId, -, hstate⟩ := h.named d hd
    rw [List.inj_on_of_nodup_map s.attempts.valid.1 hfound hrewrites.1 (hfoundId.trans hid)] at hstate
    exact hstate ha
  · intro d hd
    rw [hdispatches] at hd
    rcases List.mem_append.mp hd with hd | hd
    · exact hkept.named d hd
    · rw [List.mem_singleton.mp hd]
      obtain ⟨a', ha', hidentity, -, hsame⟩ := exists_of_rewrites hrewrites hrewrites.1 hprogress
      obtain ⟨hid, hsource, -⟩ := kept_of_identity hidentity
      exact ⟨a', ha', hid, hsource, hsame rfl ▸ hprogress⟩

/-- A preparation keeps the log of dispatches. -/
theorem Logged.prepared {s s' : State} {row : FetchAttempt} (h : Logged s) (hnow : s.now ≤ s'.now) (hrow : row.preparedAt = s.now)
    (hrows : s'.attempts.rows = s.attempts.rows ++ [row]) (hdispatches : s'.dispatches = s.dispatches) : Logged s' := by
  refine ⟨?_, hdispatches ▸ h.distinct, ?_⟩
  · intro a ha
    rw [hrows] at ha
    rcases List.mem_append.mp ha with ha | ha
    · exact (h.stamped a ha).trans hnow
    · rw [List.mem_singleton.mp ha, hrow]
      exact hnow
  · intro d hd
    obtain ⟨a, ha, hnamed⟩ := h.named d (hdispatches ▸ hd)
    refine ⟨a, ?_, hnamed⟩
    rw [hrows]
    exact List.mem_append_left _ ha

/-- A step that touches neither the attempts nor the dispatches keeps the log. -/
theorem Logged.congr {s s' : State} (h : Logged s) (hnow : s.now ≤ s'.now) (hattempts : s'.attempts = s.attempts)
    (hdispatches : s'.dispatches = s.dispatches) : Logged s' := by
  refine ⟨?_, hdispatches ▸ h.distinct, ?_⟩
  · intro a ha
    rw [hattempts] at ha
    exact (h.stamped a ha).trans hnow
  · intro d hd
    rw [hattempts]
    exact h.named d (hdispatches ▸ hd)

/-- The log of dispatches is an invariant. -/
theorem logged_invariant : (system descriptorOf requestOf).Invariant Logged where
  initial := by
    rintro s ⟨hattempts, -, hdispatches⟩
    have hrows : s.attempts.rows = [] := congrArg Table.rows hattempts
    constructor
    case stamped => exact fun a ha => absurd (hrows ▸ ha) List.not_mem_nil
    case distinct => exact hdispatches ▸ List.nodup_nil
    case named => exact fun d hd => absurd (hdispatches ▸ hd) List.not_mem_nil
  step := by
    intro s action s' h hstep
    have hnow := now_le_of_step hstep
    cases change_of_step hstep with
    | quiet hattempts hdispatches => exact h.congr hnow hattempts hdispatches
    | prepared p transaction id answers _ _ _ _ hrows hdispatches => exact h.prepared hnow rfl hrows hdispatches
    | dispatched a new _ _ _ _ _ ha hnew hrewrites hdispatches => exact h.dispatch hnow ha hnew hrewrites hdispatches
    | progressed a new hnew hrewrites hdispatches => exact h.rewrite hnow hnew hrewrites hdispatches

/-- Attempts of a log that were all prepared in a period are at most as many as were prepared in it. -/
theorem length_le_prepared {s : State} (hstamped : ∀ a ∈ s.attempts.rows, a.preparedAt ≤ s.now) {source : Uuid} {width : ℤ}
    {bound : ℕ} (hprepared : Admitted FetchAttempt.preparedAt width List.length bound (preparedOf s.attempts source))
    {ids : List Uuid} (hids : ids.Nodup)
    (hnamed : ∀ id ∈ ids, ∃ a ∈ s.attempts.rows, a.id = id ∧ a.sourceId = source ∧ s.now - width ≤ a.preparedAt) :
    ids.length ≤ bound := by
  have hwindow : ((preparedOf s.attempts source).filter fun a => s.now - width ≤ a.preparedAt ∧ a.preparedAt ≤ s.now).length ≤ bound := by
    refine hprepared.window (fun _ _ hsub => hsub.length_le) (Nat.zero_le _) _ ?_
    exact fun x y hx hy => (Int.sub_le_sub_right hx.2 width).trans hy.1
  have hsub : ids ⊆ ((preparedOf s.attempts source).filter fun a => s.now - width ≤ a.preparedAt ∧ a.preparedAt ≤ s.now).map
      FetchAttempt.id := by
    intro id hid
    obtain ⟨a, ha, rfl, hsource, hfirst⟩ := hnamed id hid
    refine List.mem_map.mpr ⟨a.identity, List.mem_filter.mpr ⟨?_, decide_eq_true ⟨hfirst, hstamped a ha⟩⟩, rfl⟩
    exact List.mem_filter.mpr ⟨List.mem_map_of_mem ha, decide_eq_true hsource⟩
  have hlength := (hids.subperm hsub).length_le
  rw [List.length_map] at hlength
  exact hlength.trans hwindow

/-- A timely dispatch keeps the dispatches of a period within what may be prepared in one. -/
theorem Admitted.dispatch {s : State} (hlogged : Logged s) {a : FetchAttempt} (ha : a ∈ s.attempts.rows) (hstate : a.state = .prepared)
    {width : ℤ} {bound : ℕ} (hprepared : Admitted FetchAttempt.preparedAt width List.length bound (preparedOf s.attempts a.sourceId))
    (htimely : ∀ x ∈ s.attempts.rows, x.sourceId = a.sourceId →
      (x.id = a.id ∨ ∃ d ∈ s.dispatches, d.attemptId = x.id ∧ s.now - width ≤ d.at') → s.now - width ≤ x.preparedAt)
    (h : Admitted Dispatch.at' width List.length bound (s.dispatchesOf a.sourceId)) :
    Admitted Dispatch.at' width List.length bound (s.dispatchesOf a.sourceId ++ [⟨a.id, a.sourceId, s.now⟩]) := by
  refine h.concat ?_
  -- the attempts of the dispatches of the period, the new one last
  have hids : (((s.dispatchesOf a.sourceId).filter fun d => s.now - width ≤ d.at').map Dispatch.attemptId ++ [a.id]).Nodup := by
    refine List.nodup_append'.mpr ⟨?_, List.nodup_singleton _, List.disjoint_singleton.mpr ?_⟩
    · exact ((List.filter_sublist.trans List.filter_sublist).map _).nodup hlogged.distinct
    · intro hmem
      obtain ⟨d, hd, hid⟩ := List.mem_map.mp hmem
      obtain ⟨found, hfound, hfoundId, -, hprogress⟩ := hlogged.named d (List.mem_of_mem_filter (List.mem_of_mem_filter hd))
      rw [List.inj_on_of_nodup_map s.attempts.valid.1 hfound ha (hfoundId.trans hid)] at hprogress
      exact hprogress hstate
  have hcount := length_le_prepared hlogged.stamped hprepared hids (by
    intro id hid
    rcases List.mem_append.mp hid with hid | hid
    · obtain ⟨d, hd, rfl⟩ := List.mem_map.mp hid
      obtain ⟨hsource, hrecent⟩ := List.mem_filter.mp hd
      obtain ⟨hmem, hsource⟩ := List.mem_filter.mp hsource
      obtain ⟨x, hx, hxid, hxsource, -⟩ := hlogged.named d hmem
      have hxsource : x.sourceId = a.sourceId := hxsource.trans (of_decide_eq_true hsource)
      exact ⟨x, hx, hxid, hxsource, htimely x hx hxsource (.inr ⟨d, hmem, hxid.symm, of_decide_eq_true hrecent⟩)⟩
    · rw [List.mem_singleton.mp hid]
      exact ⟨a, ha, rfl, rfl, htimely a ha rfl (.inl rfl)⟩)
  rw [List.length_append, List.length_map] at hcount
  rw [List.length_append]
  exact hcount

/-- A state of a run with timely dispatches is a state of the store. -/
theorem reachable_of_timely {s : State} (hs : (timelySystem descriptorOf requestOf).Reachable s) :
    (system descriptorOf requestOf).Reachable s := by
  induction hs with
  | initial h => exact .initial h
  | step _ hstep ih => exact .step ih hstep.1

/-- A timely action that is possible goes on with a run of timely dispatches. -/
theorem reachable_after_timely {s : State} (hs : (timelySystem descriptorOf requestOf).Reachable s) (action : Action)
    (hallows : s.Allows action) (htimely : s.Timely action) :
    (timelySystem descriptorOf requestOf).Reachable (s.after descriptorOf requestOf action) := hs.step ⟨⟨hallows, rfl⟩, htimely⟩

/-- The dispatches of a source after a dispatch. -/
theorem dispatchesOf_concat {s s' : State} {d : Dispatch} (h : s'.dispatches = s.dispatches ++ [d]) (source : Uuid) :
    s'.dispatchesOf source = s.dispatchesOf source ++ if d.sourceId = source then [d] else [] := by
  rw [State.dispatchesOf, h, List.filter_append]
  congr 1
  split
  next hsource => exact List.filter_cons_of_pos (decide_eq_true hsource)
  next hsource => exact List.filter_cons_of_neg fun h => hsource (of_decide_eq_true h)

/-- A timely dispatch keeps what the provider receives within the quota. -/
theorem State.ReceivesWithin.dispatch {s s' : State} {a : FetchAttempt} (hlogged : Logged s) (hsound : Sound descriptorOf requestOf s)
    (ha : a ∈ s.attempts.rows) (hstate : a.state = .prepared) {source : Uuid} {quota : ProviderQuota}
    (hprovider : (descriptorOf source).provider = .tiingo) (hquota : (descriptorOf source).quota = some quota)
    {request : FetchRequest} {at' : Instant} {transaction : ℕ} {answers : Answers}
    (htimely : s.Timely (.dispatch a.sourceId request a.id at' transaction answers))
    (hdispatches : s'.dispatches = s.dispatches ++ [⟨a.id, a.sourceId, s.now⟩]) (h : s.ReceivesWithin source quota) :
    s'.ReceivesWithin source quota := by
  have hlog := hsound.quotas source quota hprovider hquota
  unfold State.ReceivesWithin
  rw [dispatchesOf_concat hdispatches]
  split
  next hsource =>
    have hsource : a.sourceId = source := hsource
    subst hsource
    exact ⟨Admitted.dispatch hlogged ha hstate hlog.hourly (htimely hour (by decide)) h.1,
      Admitted.dispatch hlogged ha hstate hlog.daily (htimely day (by decide)) h.2.1,
      Admitted.dispatch hlogged ha hstate hlog.monthly (htimely month (by decide)) h.2.2⟩
  next =>
    rw [List.append_nil]
    exact h

/-- **In a run whose dispatches are timely, an account never sends its provider more than its quota.** -/
theorem timely_dispatches {s : State} (hs : (timelySystem descriptorOf requestOf).Reachable s) {source : Uuid} {quota : ProviderQuota}
    (hprovider : (descriptorOf source).provider = .tiingo) (hquota : (descriptorOf source).quota = some quota) :
    s.ReceivesWithin source quota := by
  induction hs with
  | initial h =>
    obtain ⟨-, -, hdispatches⟩ := h
    unfold State.ReceivesWithin State.dispatchesOf
    rw [hdispatches]
    exact ⟨.nil, .nil, .nil⟩
  | @step s s' action hbefore hstep ih =>
    have hreachable := reachable_of_timely hbefore
    have hkept : s'.dispatches = s.dispatches → s'.ReceivesWithin source quota := by
      intro hdispatches
      unfold State.ReceivesWithin State.dispatchesOf
      rw [hdispatches]
      exact ih
    cases change_of_step hstep.1 with
    | quiet _ hdispatches => exact hkept hdispatches
    | prepared _ _ _ _ _ _ _ _ _ hdispatches => exact hkept hdispatches
    | progressed _ _ _ _ hdispatches => exact hkept hdispatches
    | dispatched a new request at' transaction answers haction ha _ hrewrites hdispatches =>
      have htimely := hstep.2
      rw [haction] at htimely
      exact ih.dispatch (logged_invariant.holds hreachable) (sound_invariant.holds hreachable) hrewrites.1 ha hprovider hquota
        htimely hdispatches

end Logs

/-- An hour after the first request was prepared a second one is prepared and dispatched. -/
def sampleLater : List Action :=
  [.advance (seconds 3601), .begin (samplePreparation "QQQ" 11 0),
    .prepare (samplePreparation "QQQ" 11 (seconds 3601)) 3 21 sampleAnswers,
    .dispatch 1 (sampleRequest "QQQ" 11) 21 (seconds 3601) 4 sampleAnswers]

theorem late_dispatch_exceeds :
    ∃ s, (system sampleDescriptor sampleRequestOf).Reachable s ∧ ¬ s.ReceivesWithin 1 sampleQuota := by
  have hallows : sampleStart.AllowsAll sampleDescriptor sampleRequestOf (sampleActions ++ sampleLater) :=
    ⟨trivial, by decide +kernel, by decide +kernel, trivial, by decide +kernel, trivial, by decide +kernel, trivial, trivial⟩
  have hdispatches : (sampleStart.afterAll sampleDescriptor sampleRequestOf (sampleActions ++ sampleLater)).dispatches =
      [⟨20, 1, seconds 5⟩, ⟨21, 1, seconds 3601⟩] := by decide +kernel
  refine ⟨_, reachable_afterAll (.initial ⟨rfl, rfl, rfl⟩) hallows, ?_⟩
  rintro ⟨hhourly, -, -⟩
  rw [State.dispatchesOf, hdispatches] at hhourly
  exact absurd (hhourly [⟨20, 1, seconds 5⟩] ⟨21, 1, seconds 3601⟩ [] rfl) (by decide)

theorem timely_dispatches_sample :
    (sampleStart.afterAll sampleDescriptor sampleRequestOf sampleActions).ReceivesWithin 1 sampleQuota := by
  have hstart : (timelySystem sampleDescriptor sampleRequestOf).Reachable sampleStart := .initial ⟨rfl, rfl, rfl⟩
  have hbegun := reachable_after_timely hstart (.begin (samplePreparation "SPY" 10 0)) trivial trivial
  have hprepared := reachable_after_timely hbegun (.prepare (samplePreparation "SPY" 10 0) 1 20 sampleAnswers) (by decide +kernel) trivial
  have hadvanced := reachable_after_timely hprepared (.advance (seconds 5)) (by decide +kernel) trivial
  have hdispatched := reachable_after_timely hadvanced (.dispatch 1 (sampleRequest "SPY" 10) 20 (seconds 5) 2 sampleAnswers) trivial
    (by decide +kernel)
  exact timely_dispatches hdispatched rfl rfl

end EquityEval.Provider
