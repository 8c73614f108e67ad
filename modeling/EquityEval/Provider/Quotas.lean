import EquityEval.Provider.Store
import EquityEval.Throttle.Windows

/-!
# Quotas of an account

The rows of the table are only appended to and rewritten in place, and a rewritten attempt keeps its
identity. The attempts of a source as they were prepared are therefore a log, and what a preparation
counts is a window of it that ends where the attempt is stamped.
-/

namespace EquityEval.Provider

open Relational Workflow Ingestion TransitionSystem Throttle

/-! ### What a step does -/

section Steps

variable {descriptorOf : Uuid → ProviderDescriptor} {requestOf : Uuid → Option Uuid}

/-- The row that a preparation inserts. -/
def Preparation.row (descriptorOf : Uuid → ProviderDescriptor) (p : Preparation) (now : Instant) (transaction : ℕ) (id : Uuid)
    (answers : Answers) : FetchAttempt :=
  preparedAttempt now transaction id p.request.lease p.request.stageId answers.stage
    (attemptRequest descriptorOf p.source p.request p.sequence p.url p.validator)

/-- What a step does to the attempts and to the log of dispatches. -/
inductive Change (descriptorOf : Uuid → ProviderDescriptor) (requestOf : Uuid → Option Uuid) (s : State) (action : Action) (s' : State) :
    Prop where
  | quiet (hattempts : s'.attempts = s.attempts) (hdispatches : s'.dispatches = s.dispatches)
  | prepared (p : Preparation) (transaction : ℕ) (id : Uuid) (answers : Answers) (hwaiting : p ∈ s.waiting) (hnow : s'.now = s.now)
      (hstage : requestOf p.request.stageId = some p.request.lease.requestId)
      (hreserve : reserve descriptorOf requestOf s.attempts p.started p.source p.request = .ok ())
      (hrows : s'.attempts.rows = s.attempts.rows ++ [p.row descriptorOf s.now transaction id answers])
      (hdispatches : s'.dispatches = s.dispatches)
  | dispatched (a new : FetchAttempt) (request : FetchRequest) (at' : Instant) (transaction : ℕ) (answers : Answers)
      (haction : action = .dispatch a.sourceId request a.id at' transaction answers) (ha : a.state = .prepared) (hnew : new.state = .inProgress)
      (hrewrites : Rewrites s.attempts s'.attempts a new) (hdispatches : s'.dispatches = s.dispatches ++ [⟨a.id, a.sourceId, s.now⟩])
  | progressed (a new : FetchAttempt) (hnew : new.state ≠ .prepared) (hrewrites : Rewrites s.attempts s'.attempts a new)
      (hdispatches : s'.dispatches = s.dispatches)

/-- A transaction that returns to the store has returned. -/
theorem fromSql_eq_ok {α : Type} {result : Except SqlError α} {value : α} (h : fromSql result = .ok value) : result = .ok value := by
  cases result with
  | error e => cases h
  | ok a =>
    cases h
    rfl

/-- A preparation repeats an attempt, or reserves and inserts one. -/
theorem prepare_eq_ok {attempts attempts' : Attempts} {now : Instant} {transaction : ℕ} {id prepared : Uuid} {p : Preparation}
    {answers : Answers}
    (h : prepare descriptorOf requestOf attempts now transaction id p answers = .ok (attempts', prepared)) :
    ((existingAttempt attempts p.request.logicalFetchId p.sequence).isSome = true ∧ attempts' = attempts) ∨
      (existingAttempt attempts p.request.logicalFetchId p.sequence = none ∧
        requestOf p.request.stageId = some p.request.lease.requestId ∧
        reserve descriptorOf requestOf attempts p.started p.source p.request = .ok () ∧
        attempts'.rows = attempts.rows ++ [p.row descriptorOf now transaction id answers]) := by
  simp only [prepare, bind_eq_ok, raiseIf_eq_ok] at h
  obtain ⟨-, -, -, -, _, hguard, h⟩ := h
  simp only [guard, bind_eq_ok, raiseIf_eq_ok, not_or, not_not] at hguard
  obtain ⟨-, ⟨-, hstage⟩, -⟩ := hguard
  split at h
  next hnone =>
    obtain ⟨_, hreserve, hprepare⟩ := bind_eq_ok.mp h
    rcases ingestionPrepare_eq_ok (fromSql_eq_ok hprepare) with ⟨hsome, -⟩ | ⟨-, hrows, -⟩
    · have hsome : (existingAttempt attempts p.request.logicalFetchId p.sequence).isSome = true := hsome
      rw [hnone] at hsome
      cases hsome
    · exact .inr ⟨hnone, hstage, hreserve, hrows⟩
  next hsome =>
    rcases ingestionPrepare_eq_ok (fromSql_eq_ok h) with hrepeats | ⟨hnone, -⟩
    · exact .inl hrepeats
    · exact absurd hnone hsome

/-- A dispatch moves a prepared attempt of its source to being in progress. -/
theorem dispatched_eq_ok {attempts attempts' : Attempts} {transaction : ℕ} {source id : Uuid} {request : FetchRequest} {at' : Instant}
    {answers : Answers} (h : dispatched descriptorOf requestOf attempts transaction source request id at' answers = .ok attempts') :
    ∃ a new, a.id = id ∧ a.sourceId = source ∧ a.state = .prepared ∧ new.state = .inProgress ∧
      Rewrites attempts attempts' a new := by
  simp only [dispatched, bind_eq_ok] at h
  obtain ⟨-, -, _, hcheck, h⟩ := h
  obtain ⟨a, hid, hstate, hrewrites, -⟩ := ingestionDispatch_eq_ok (fromSql_eq_ok h)
  simp only [checkAttempt, raiseIf_eq_ok, not_not] at hcheck
  obtain ⟨found, hlookup, hsource, -⟩ := hcheck
  obtain ⟨hfound, hfoundId⟩ := Table.lookup_eq_some hlookup
  have hsame : found = a := List.inj_on_of_nodup_map attempts.valid.1 hfound hrewrites.1 (hfoundId.trans hid.symm)
  exact ⟨a, _, hid, hsame ▸ hsource, hstate, rfl, hrewrites⟩

/-- An outcome that a worker reports is not that of a prepared attempt. -/
theorem ne_prepared_of_workerOutcomes {outcome : AttemptState} (h : outcome ∈ workerOutcomes) : outcome ≠ .prepared := by
  intro heq
  rw [heq] at h
  exact absurd h (by decide)

/-- What a step does. -/
theorem change_of_step {s s' : State} {action : Action} (h : (system descriptorOf requestOf).step s action s') :
    Change descriptorOf requestOf s action s' := by
  obtain ⟨hallows, rfl⟩ := h
  cases action with
  | advance later => exact .quiet rfl rfl
  | begin p => exact .quiet rfl rfl
  | abandon p => exact .quiet rfl rfl
  | prepare p transaction id answers =>
    cases hprepare : prepare descriptorOf requestOf s.attempts s.now transaction id p answers with
    | error e => exact .quiet (by simp only [State.after, hprepare]) (by simp only [State.after, hprepare])
    | ok result =>
      rcases prepare_eq_ok hprepare with ⟨-, hsame⟩ | ⟨-, hstage, hreserve, hrows⟩
      · exact .quiet (by simp only [State.after, hprepare, hsame]) (by simp only [State.after, hprepare])
      · exact .prepared p transaction id answers hallows (by simp only [State.after, hprepare]) hstage hreserve
          (by simp only [State.after, hprepare, hrows]) (by simp only [State.after, hprepare])
  | dispatch source request id at' transaction answers =>
    cases hdispatched : dispatched descriptorOf requestOf s.attempts transaction source request id at' answers with
    | error e => exact .quiet (by simp only [State.after, hdispatched]) (by simp only [State.after, hdispatched])
    | ok attempts =>
      obtain ⟨a, new, rfl, rfl, ha, hnew, hrewrites⟩ := dispatched_eq_ok hdispatched
      exact .dispatched a new request at' transaction answers rfl ha hnew (by simpa only [State.after, hdispatched] using hrewrites)
        (by simp only [State.after, hdispatched])
  | headers source request id at' status evidence answers =>
    cases hheaders : headers descriptorOf s.attempts source request id at' status evidence answers with
    | error e => exact .quiet (by simp only [State.after, hheaders]) (by simp only [State.after, hheaders])
    | ok attempts =>
      obtain ⟨_, -, hingestion⟩ := bind_eq_ok.mp hheaders
      obtain ⟨a, new, -, hnew, hrewrites, -⟩ := ingestionHeaders_eq_ok (fromSql_eq_ok hingestion)
      exact .progressed a new (hnew ▸ AttemptState.noConfusion) (by simpa only [State.after, hheaders] using hrewrites)
        (by simp only [State.after, hheaders])
  | finish source request id ending captured answers =>
    cases hfinish : finish descriptorOf s.attempts source request id ending captured answers with
    | error e => exact .quiet (by simp only [State.after, hfinish]) (by simp only [State.after, hfinish])
    | ok attempts =>
      obtain ⟨_, -, hingestion⟩ := bind_eq_ok.mp hfinish
      obtain ⟨a, houtcome, hrewrites, -⟩ := ingestionFinalize_eq_ok (fromSql_eq_ok hingestion)
      exact .progressed a _ (ne_prepared_of_workerOutcomes houtcome) (by simpa only [State.after, hfinish] using hrewrites)
        (by simp only [State.after, hfinish])
  | recover id owned answers =>
    cases hrecover : ingestionRecover answers.trigger s.attempts s.now owned id with
    | error e => exact .quiet (by simp only [State.after, hrecover]) (by simp only [State.after, hrecover])
    | ok result =>
      rcases ingestionRecover_eq_ok hrecover with hsame | ⟨a, hrewrites, -⟩
      · exact .quiet (by simp only [State.after, hrecover, hsame]) (by simp only [State.after, hrecover])
      · exact .progressed a _ AttemptState.noConfusion (by simpa only [State.after, hrecover] using hrewrites)
          (by simp only [State.after, hrecover])

end Steps

/-! ### The attempts as they were prepared -/

/-- The attempts of a source as they were prepared. -/
def preparedOf (attempts : Attempts) (source : Uuid) : List FetchAttempt :=
  (attempts.rows.map FetchAttempt.identity).filter fun a => a.sourceId = source

/-- A rewritten attempt keeps its identity. -/
theorem identities_of_rewrites {attempts attempts' : Attempts} {old new : FetchAttempt} (h : Rewrites attempts attempts' old new) :
    attempts'.rows.map FetchAttempt.identity = attempts.rows.map FetchAttempt.identity := by
  obtain ⟨hold, hidentity, hrows⟩ := h
  rw [hrows, List.map_map]
  apply List.map_congr_left
  intro a ha
  rw [Function.comp_apply]
  split
  next hid => rw [hidentity, List.inj_on_of_nodup_map attempts.valid.1 ha hold hid]
  next => rfl

/-- An attempt that is inserted is the last of the log of its source. -/
theorem preparedOf_insert {attempts attempts' : Attempts} {row : FetchAttempt} (h : attempts'.rows = attempts.rows ++ [row])
    (source : Uuid) :
    preparedOf attempts' source = preparedOf attempts source ++ if row.sourceId = source then [row.identity] else [] := by
  rw [preparedOf, h, List.map_append, List.filter_append, List.map_singleton]
  congr 1
  split
  next hsource => exact List.filter_cons_of_pos (decide_eq_true hsource)
  next hsource => exact List.filter_cons_of_neg fun h => hsource (of_decide_eq_true h)

/-- What of the attempts satisfies a condition on their identity. -/
theorem filter_identities {attempts : Attempts} (p : FetchAttempt → Bool) (hp : ∀ a, p a.identity = p a) :
    (attempts.rows.map FetchAttempt.identity).filter p = (attempts.rows.filter p).map FetchAttempt.identity := by
  rw [List.filter_map]
  congr 1
  exact List.filter_congr fun a _ => hp a

/-- The attempts of a source that were prepared in the window of a width from an instant on. -/
def preparedIn (attempts : Attempts) (source : Uuid) (first : Instant) (width : ℤ) : List FetchAttempt :=
  attempts.rows.filter fun a => a.sourceId = source ∧ first ≤ a.preparedAt ∧ a.preparedAt < first + width

/-- The attempts that an analysis request has made of a source, an object and parameters. -/
def attemptsOf (requestOf : Uuid → Option Uuid) (attempts : Attempts) (request source : Uuid) (object params : String) :
    List FetchAttempt :=
  attempts.rows.filter fun a => requestOf a.stageAttemptId = some request ∧ a.sourceId = source ∧ a.sourceObjectKey = object ∧
    a.requestParamsHash = params

/-- What a quota bounds of a log of attempts. -/
structure WithinQuota (quota : ProviderQuota) (items : List FetchAttempt) : Prop where
  hourly : Admitted FetchAttempt.preparedAt hour List.length quota.hourlyRequests items
  daily : Admitted FetchAttempt.preparedAt day List.length quota.dailyRequests items
  monthly : Admitted FetchAttempt.preparedAt month List.length quota.monthlyRequests items
  wire : Admitted FetchAttempt.preparedAt month List.length (quota.monthlyWireBytes / providerWireLimit) items
  symbols : Admitted FetchAttempt.preparedAt month (distinctKeys FetchAttempt.sourceObjectKey) quota.monthlySymbols items

/-- An empty log is within every quota. -/
theorem WithinQuota.nil {quota : ProviderQuota} : WithinQuota quota [] := ⟨.nil, .nil, .nil, .nil, .nil⟩

section Windows

variable {descriptorOf : Uuid → ProviderDescriptor} {requestOf : Uuid → Option Uuid} {attempts : Attempts}

/-- A window of the attempts is a window of the log. -/
theorem map_preparedIn {source : Uuid} {first : Instant} {width : ℤ} :
    (preparedIn attempts source first width).map FetchAttempt.identity =
      (preparedOf attempts source).filter fun a => first ≤ a.preparedAt ∧ a.preparedAt < first + width := by
  rw [preparedOf, filter_identities _ fun _ => rfl, List.filter_map, List.filter_filter]
  unfold preparedIn
  congr 2
  funext a
  grind [FetchAttempt.identity]

/-- A reservation found less than three attempts of its request. -/
theorem consumed_of_reserve {started : Instant} {source : Uuid} {request : FetchRequest}
    (h : reserve descriptorOf requestOf attempts started source request = .ok ()) :
    (consumed requestOf attempts source request).length < 3 := by
  obtain ⟨_, hconsumed, -⟩ := bind_eq_ok.mp h
  rw [raiseIf_eq_ok, not_le] at hconsumed
  exact hconsumed

/-- What a reservation found of an account, in the windows that end when its transaction started. -/
theorem counts_of_reserve {started : Instant} {source : Uuid} {request : FetchRequest} {quota : ProviderQuota}
    (hprovider : (descriptorOf source).provider = .tiingo) (hquota : (descriptorOf source).quota = some quota)
    (h : reserve descriptorOf requestOf attempts started source request = .ok ()) :
    ((preparedSince attempts source (started - month)).filter fun a => started - hour ≤ a.preparedAt).length < quota.hourlyRequests ∧
      ((preparedSince attempts source (started - month)).filter fun a => started - day ≤ a.preparedAt).length < quota.dailyRequests ∧
      (preparedSince attempts source (started - month)).length < quota.monthlyRequests ∧
      ((preparedSince attempts source (started - month)).length + 1) * providerWireLimit ≤ quota.monthlyWireBytes ∧
      distinctKeys FetchAttempt.sourceObjectKey (preparedSince attempts source (started - month)) +
        (if request.objectKey ∈ (preparedSince attempts source (started - month)).map FetchAttempt.sourceObjectKey then 0 else 1) ≤
          quota.monthlySymbols := by
  obtain ⟨_, -, h⟩ := bind_eq_ok.mp h
  simp only [if_pos hprovider, hquota, bind_eq_ok, orRaise_eq_ok, Option.some.injEq, raiseIf_eq_ok, not_or, not_le, not_lt] at h
  obtain ⟨_, rfl, _, ⟨hhourly, hdaily, hmonthly, hwire⟩, hsymbols⟩ := h
  refine ⟨hhourly, hdaily, hmonthly, hwire, ?_⟩
  simp only [List.mem_map]
  exact hsymbols

/-- The attempts of the time before a preparation is stamped are among those that it counted from when its transaction started. -/
theorem seen_sublist {started now : Instant} (hstarted : started ≤ now) {width : ℤ} (hwidth : width ≤ month) (source : Uuid) :
    ((preparedOf attempts source).filter fun a => now - width ≤ a.preparedAt).Sublist
      (((preparedSince attempts source (started - month)).filter fun a => started - width ≤ a.preparedAt).map
        FetchAttempt.identity) := by
  rw [preparedOf, filter_identities _ fun _ => rfl, List.filter_map, preparedSince, List.filter_filter, List.filter_filter]
  apply List.Sublist.map
  apply List.monotone_filter_right
  intro a ha
  simp only [Function.comp_apply, FetchAttempt.identity, Bool.and_eq_true, decide_eq_true_eq] at ha ⊢
  have hseen : started - width ≤ a.preparedAt := (Int.sub_le_sub_right hstarted width).trans (of_decide_eq_true ha.1)
  exact ⟨hseen, ha.2, (Int.sub_le_sub_left hwidth started).trans hseen⟩

/-- A reservation keeps a log within the quota of its account. -/
theorem WithinQuota.reserve {started now : Instant} {source : Uuid} {request : FetchRequest} {quota : ProviderQuota} {x : FetchAttempt}
    (hprovider : (descriptorOf source).provider = .tiingo) (hquota : (descriptorOf source).quota = some quota)
    (hreserve : reserve descriptorOf requestOf attempts started source request = .ok ()) (hstarted : started ≤ now)
    (hx : x.preparedAt = now) (hkey : x.sourceObjectKey = request.objectKey) (h : WithinQuota quota (preparedOf attempts source)) :
    WithinQuota quota (preparedOf attempts source ++ [x]) := by
  obtain ⟨hhourly, hdaily, hmonthly, hwire, hsymbols⟩ := counts_of_reserve hprovider hquota hreserve
  have hwindow : ∀ {width : ℤ}, width ≤ month → ((preparedOf attempts source).filter fun a => now - width ≤ a.preparedAt).Sublist
      (((preparedSince attempts source (started - month)).filter fun a => started - width ≤ a.preparedAt).map FetchAttempt.identity) :=
    fun hwidth => seen_sublist hstarted hwidth source
  have hhour := hwindow (show hour ≤ month by decide)
  have hday := hwindow (show day ≤ month by decide)
  have hmonth : ((preparedOf attempts source).filter fun a => now - month ≤ a.preparedAt).Sublist
      ((preparedSince attempts source (started - month)).map FetchAttempt.identity) :=
    (seen_sublist hstarted le_rfl source).trans (List.filter_sublist.map _)
  have hlength : ∀ {width : ℤ} {l : List FetchAttempt} {bound : ℕ}, l.length < bound →
      ((preparedOf attempts source).filter fun a => now - width ≤ a.preparedAt).Sublist (l.map FetchAttempt.identity) →
        (((preparedOf attempts source).filter fun a => x.preparedAt - width ≤ a.preparedAt) ++ [x]).length ≤ bound := by
    intro width l bound hbound hsub
    have hle := hsub.length_le
    rw [List.length_map] at hle
    rw [hx, List.length_append, List.length_singleton]
    omega
  constructor
  case hourly => exact h.hourly.concat (hlength hhourly hhour)
  case daily => exact h.daily.concat (hlength hdaily hday)
  case monthly => exact h.monthly.concat (hlength hmonthly hmonth)
  case wire =>
    have hbound : (preparedSince attempts source (started - month)).length < quota.monthlyWireBytes / providerWireLimit :=
      (Nat.le_div_iff_mul_le (by decide)).mpr hwire
    exact h.wire.concat (hlength hbound hmonth)
  case symbols =>
    refine h.symbols.concat ?_
    calc distinctKeys FetchAttempt.sourceObjectKey
          (((preparedOf attempts source).filter fun a => x.preparedAt - month ≤ a.preparedAt) ++ [x])
        ≤ distinctKeys FetchAttempt.sourceObjectKey
          ((preparedSince attempts source (started - month)).map FetchAttempt.identity ++ [x]) :=
        distinctKeys_mono (by rw [hx]; exact hmonth.append_right [x])
      _ ≤ quota.monthlySymbols := by
        rw [distinctKeys_concat, hkey, distinctKeys, List.map_map]
        exact hsymbols

end Windows

/-! ### The invariant -/

/-- What holds of the attempts of every store. -/
structure Sound (descriptorOf : Uuid → ProviderDescriptor) (requestOf : Uuid → Option Uuid) (s : State) : Prop where
  started : ∀ p ∈ s.waiting, p.started ≤ s.now
  quotas : ∀ source quota, (descriptorOf source).provider = .tiingo → (descriptorOf source).quota = some quota →
    WithinQuota quota (preparedOf s.attempts source)
  budget : ∀ request source object params, (attemptsOf requestOf s.attempts request source object params).length ≤ 3

section Invariants

variable {descriptorOf : Uuid → ProviderDescriptor} {requestOf : Uuid → Option Uuid}

/-- A preparation that waits after a step has waited before it or has started with it. -/
theorem started_of_step {s s' : State} {action : Action} (h : (system descriptorOf requestOf).step s action s')
    (hs : ∀ p ∈ s.waiting, p.started ≤ s.now) : ∀ p ∈ s'.waiting, p.started ≤ s'.now := by
  obtain ⟨hallows, rfl⟩ := h
  cases action with
  | advance later => exact fun p hp => (hs p hp).trans hallows
  | begin p =>
    intro q hq
    rcases List.mem_append.mp hq with hq | hq
    · exact hs q hq
    · rw [List.mem_singleton.mp hq]
      exact le_rfl
  | abandon p => exact fun q hq => hs q (List.mem_of_mem_erase hq)
  | prepare p transaction id answers =>
    simp only [State.after]
    split
    · exact fun q hq => hs q (List.mem_of_mem_erase hq)
    · exact fun q hq => hs q (List.mem_of_mem_erase hq)
  | dispatch | headers | finish | recover =>
    simp only [State.after]
    split <;> exact hs

/-- The log of a source and the attempts of a request depend on the identities only. -/
theorem Sound.congr {s s' : State} (h : Sound descriptorOf requestOf s) (hstarted : ∀ p ∈ s'.waiting, p.started ≤ s'.now)
    (hidentities : s'.attempts.rows.map FetchAttempt.identity = s.attempts.rows.map FetchAttempt.identity) :
    Sound descriptorOf requestOf s' := by
  refine ⟨hstarted, ?_, ?_⟩
  · intro source quota hprovider hquota
    rw [preparedOf, hidentities]
    exact h.quotas source quota hprovider hquota
  · intro request source object params
    have hbudget := h.budget request source object params
    have hlength : ∀ attempts : Attempts, (attemptsOf requestOf attempts request source object params).length =
        ((attempts.rows.map FetchAttempt.identity).filter fun a => requestOf a.stageAttemptId = some request ∧
          a.sourceId = source ∧ a.sourceObjectKey = object ∧ a.requestParamsHash = params).length := by
      intro attempts
      rw [filter_identities _ fun _ => rfl, List.length_map]
      rfl
    rw [hlength, hidentities, ← hlength]
    exact hbudget

/-- A reservation and its row keep what holds of the attempts. -/
theorem Sound.prepared {s s' : State} (h : Sound descriptorOf requestOf s) (hstarted : ∀ p ∈ s'.waiting, p.started ≤ s'.now)
    {p : Preparation} {transaction : ℕ} {id : Uuid} {answers : Answers} (hwaiting : p ∈ s.waiting)
    (hstage : requestOf p.request.stageId = some p.request.lease.requestId)
    (hreserve : reserve descriptorOf requestOf s.attempts p.started p.source p.request = .ok ())
    (hrows : s'.attempts.rows = s.attempts.rows ++ [p.row descriptorOf s.now transaction id answers]) :
    Sound descriptorOf requestOf s' := by
  refine ⟨hstarted, ?_, ?_⟩
  · intro source quota hprovider hquota
    have hlog := h.quotas source quota hprovider hquota
    rw [preparedOf_insert hrows]
    split
    next hsource =>
      have hsource : p.source = source := hsource
      subst hsource
      exact hlog.reserve hprovider hquota hreserve (h.started p hwaiting) rfl rfl
    next => rwa [List.append_nil]
  · intro request source object params
    have hbudget := h.budget request source object params
    rw [attemptsOf, hrows, List.filter_append, List.length_append]
    by_cases hsame : requestOf p.request.stageId = some request ∧ p.source = source ∧ p.request.objectKey = object ∧
        p.request.paramsHash = params
    · obtain ⟨hrequest, rfl, rfl, rfl⟩ := hsame
      have hid : p.request.lease.requestId = request := Option.some.inj (hstage.symm.trans hrequest)
      have hcount := consumed_of_reserve hreserve
      rw [consumed, hid] at hcount
      have hone : ([p.row descriptorOf s.now transaction id answers].filter fun a => requestOf a.stageAttemptId = some request ∧
          a.sourceId = p.source ∧ a.sourceObjectKey = p.request.objectKey ∧ a.requestParamsHash = p.request.paramsHash).length ≤ 1 :=
        List.length_filter_le _ _
      omega
    · have hnone : ([p.row descriptorOf s.now transaction id answers].filter fun a => requestOf a.stageAttemptId = some request ∧
          a.sourceId = source ∧ a.sourceObjectKey = object ∧ a.requestParamsHash = params) = [] :=
        List.filter_cons_of_neg fun h => hsame (of_decide_eq_true h)
      rw [hnone]
      exact hbudget

/-- What holds of the attempts is an invariant. -/
theorem sound_invariant : (system descriptorOf requestOf).Invariant (Sound descriptorOf requestOf) where
  initial := by
    rintro s ⟨hattempts, hwaiting, -⟩
    refine ⟨by rw [hwaiting]; nofun, fun source quota _ _ => ?_, fun request source object params => ?_⟩
    · rw [hattempts]
      exact .nil
    · rw [hattempts]
      exact Nat.zero_le 3
  step := by
    intro s action s' h hstep
    have hstarted := started_of_step hstep h.started
    cases change_of_step hstep with
    | quiet hattempts => exact h.congr hstarted (by rw [hattempts])
    | prepared p transaction id answers hwaiting _ hstage hreserve hrows => exact h.prepared hstarted hwaiting hstage hreserve hrows
    | dispatched a new _ _ _ _ _ _ _ hrewrites => exact h.congr hstarted (identities_of_rewrites hrewrites)
    | progressed a new _ hrewrites => exact h.congr hstarted (identities_of_rewrites hrewrites)

/-- What is bounded for the attempts that a preparation counts is bounded for every window. -/
theorem window_le {attempts : Attempts} {source : Uuid} {width : ℤ} {measure : List FetchAttempt → ℕ} {bound : ℕ}
    (hmono : ∀ l l' : List FetchAttempt, l.Sublist l' → measure l ≤ measure l') (hnil : measure [] = 0)
    (hmeasure : ∀ l : List FetchAttempt, measure (l.map FetchAttempt.identity) = measure l)
    (h : Admitted FetchAttempt.preparedAt width measure bound (preparedOf attempts source)) (first : Instant) :
    measure (preparedIn attempts source first width) ≤ bound := by
  rw [← hmeasure, map_preparedIn]
  refine h.window hmono (hnil.trans_le (Nat.zero_le bound)) _ ?_
  intro x y hx hy
  have hfirst : x.preparedAt - width ≤ first := by
    have hlast := Int.sub_lt_sub_right hx.2 width
    rw [Int.add_sub_cancel] at hlast
    exact hlast.le
  exact hfirst.trans hy.1

/-- The number of attempts in a window is bounded. -/
theorem length_window_le {attempts : Attempts} {source : Uuid} {width : ℤ} {bound : ℕ}
    (h : Admitted FetchAttempt.preparedAt width List.length bound (preparedOf attempts source)) (first : Instant) :
    (preparedIn attempts source first width).length ≤ bound :=
  window_le (fun _ _ hsub => hsub.length_le) rfl (fun _ => List.length_map _) h first

/-- The number of objects in a window is bounded. -/
theorem objects_window_le {attempts : Attempts} {source : Uuid} {width : ℤ} {bound : ℕ}
    (h : Admitted FetchAttempt.preparedAt width (distinctKeys FetchAttempt.sourceObjectKey) bound (preparedOf attempts source))
    (first : Instant) : distinctKeys FetchAttempt.sourceObjectKey (preparedIn attempts source first width) ≤ bound := by
  have hkeys : ∀ l : List FetchAttempt, distinctKeys FetchAttempt.sourceObjectKey (l.map FetchAttempt.identity) =
      distinctKeys FetchAttempt.sourceObjectKey l := by
    intro l
    rw [distinctKeys, List.map_map]
    rfl
  exact window_le (fun _ _ hsub => distinctKeys_mono hsub) rfl hkeys h first

/-- **The quotas of an account bound every window of its attempts.** An analysis request makes at most three attempts for the
same resource, and a preparation that is repeated makes none. -/
theorem quotas_dominate {s : State} (hs : (system descriptorOf requestOf).Reachable s) :
    (∀ source quota, (descriptorOf source).provider = .tiingo → (descriptorOf source).quota = some quota → ∀ first,
        (preparedIn s.attempts source first hour).length ≤ quota.hourlyRequests ∧
        (preparedIn s.attempts source first day).length ≤ quota.dailyRequests ∧
        (preparedIn s.attempts source first month).length ≤ quota.monthlyRequests ∧
        (preparedIn s.attempts source first month).length * providerWireLimit ≤ quota.monthlyWireBytes ∧
        distinctKeys FetchAttempt.sourceObjectKey (preparedIn s.attempts source first month) ≤ quota.monthlySymbols) ∧
      (∀ request source object params, (attemptsOf requestOf s.attempts request source object params).length ≤ 3) ∧
      ∀ p transaction id answers, existingAttempt s.attempts p.request.logicalFetchId p.sequence ≠ none →
        (s.after descriptorOf requestOf (.prepare p transaction id answers)).attempts = s.attempts := by
  have h := sound_invariant.holds hs
  refine ⟨?_, h.budget, ?_⟩
  · intro source quota hprovider hquota first
    have hlog := h.quotas source quota hprovider hquota
    refine ⟨length_window_le hlog.hourly first, length_window_le hlog.daily first, length_window_le hlog.monthly first, ?_, ?_⟩
    · exact (Nat.le_div_iff_mul_le (by decide)).mp (length_window_le hlog.wire first)
    · exact objects_window_le hlog.symbols first
  · intro p transaction id answers hexisting
    simp only [State.after]
    split
    next attempts prepared hprepare =>
      rcases prepare_eq_ok hprepare with ⟨-, hsame⟩ | ⟨hnone, -⟩
      · exact hsame
      · exact absurd hnone hexisting
    next => rfl

end Invariants

/-! ### A run with one request an hour -/

/-- One request an hour. -/
def sampleQuota : ProviderQuota := ⟨1, 10, 100, 5, 100 * providerWireLimit, by decide⟩

/-- Every source is an account of Tiingo. -/
def sampleDescriptor (_ : Uuid) : ProviderDescriptor := ⟨2, .tiingo, some sampleQuota⟩

/-- Every request has one stage. -/
def sampleRequestOf (stage : Uuid) : Option Uuid := some stage

/-- A request for the prices of a symbol. -/
def sampleRequest (symbol : String) (n : Uuid) : FetchRequest where
  logicalFetchId := n
  objectKey := "tiingo_eod/" ++ symbol
  url := "https://api.tiingo.com/tiingo/daily/" ++ symbol ++ "/prices"
  paramsHash := String.ofList (List.replicate 64 '0')
  lease := ⟨n, n, 1, 1, "worker"⟩
  stageId := n

/-- The preparation of a request for prices. -/
def samplePreparation (symbol : String) (n : Uuid) (started : Instant) : Preparation :=
  ⟨1, sampleRequest symbol n, 1, (sampleRequest symbol n).url, none, false, started⟩

/-- The stage runs, and everything is permitted. -/
def sampleAnswers : Answers := ⟨⟨true, 1, "worker"⟩, true, true⟩

/-- The clock of an empty store shows zero. -/
def sampleStart : State := ⟨0, noAttempts, [], []⟩

/-- A request is prepared, and five seconds later it is dispatched. -/
def sampleActions : List Action :=
  [.begin (samplePreparation "SPY" 10 0), .prepare (samplePreparation "SPY" 10 0) 1 20 sampleAnswers, .advance (seconds 5),
    .dispatch 1 (sampleRequest "SPY" 10) 20 (seconds 5) 2 sampleAnswers]

theorem quotas_dominate_sample :
    (preparedIn (sampleStart.afterAll sampleDescriptor sampleRequestOf sampleActions).attempts 1 0 hour).length ≤ 1 := by
  have hallows : sampleStart.AllowsAll sampleDescriptor sampleRequestOf sampleActions :=
    ⟨trivial, by decide +kernel, by decide +kernel, trivial, trivial⟩
  have hreachable := reachable_afterAll (.initial ⟨rfl, rfl, rfl⟩) hallows
  exact ((quotas_dominate hreachable).1 1 sampleQuota rfl rfl 0).1

end EquityEval.Provider
