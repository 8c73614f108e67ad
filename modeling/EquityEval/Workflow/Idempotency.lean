import EquityEval.Workflow.Intent
import Mathlib.Data.Nat.Digits.Defs
import Mathlib.Logic.Equiv.List
import Mathlib.Tactic.DeriveEncodable

/-!
# Idempotent enqueue

A key stays bound to the request that it was first bound to, whatever happens to the stock; asking
again under the key finds that request or is refused. The memberships of a stock are numbered in
order, at most one of them is active, and each has one request that its Add made. Keys that were
first used while a membership was active are bound to the request of that membership.
-/

namespace EquityEval.Workflow

open Relational TransitionSystem

/-- What holds of memberships, requests and keys between two calls. -/
structure Consistent (db : Database) : Prop where
  generations : ∀ stock, Consecutive ((db.memberships.rows.filter fun m => m.stock = stock).map (·.generation))
  added : ∀ m ∈ db.memberships.rows, ∃ r ∈ db.requests.rows, r.trigger = .watchlistAdd ∧ r.membershipId = some m.id
  bound : ∀ k ∈ db.keys.rows, ∃ r ∈ db.requests.rows, r.id = k.requestId

/-- What a later state keeps of requests, keys and memberships. -/
structure Grows (db db' : Database) : Prop where
  requests : ∀ r ∈ db.requests.rows, r ∈ db'.requests.rows
  keys : ∀ k ∈ db.keys.rows, k ∈ db'.keys.rows
  memberships : ∀ m ∈ db.memberships.rows, ∃ m' ∈ db'.memberships.rows, m'.id = m.id ∧ m'.stock = m.stock ∧
    (m'.Active → m.Active)

instance : IsPreorder Database Grows where
  refl db := ⟨fun _ h => h, fun _ h => h, fun m h => ⟨m, h, rfl, rfl, id⟩⟩
  trans db db' db'' h h' := by
    refine ⟨fun r hr => h'.requests r (h.requests r hr), fun k hk => h'.keys k (h.keys k hk), ?_⟩
    intro m hm
    obtain ⟨m', hm', hid, hstock, hactive⟩ := h.memberships m hm
    obtain ⟨m'', hm'', hid', hstock', hactive'⟩ := h'.memberships m' hm'
    exact ⟨m'', hm'', hid'.trans hid, hstock'.trans hstock, fun h => hactive (hactive' h)⟩

namespace Change

variable {digest : RequestParameters → String} {db db' : Database}

/-- No change takes a request, a key or a membership away, or makes a removed membership active. -/
theorem grows (h : Change digest db db') : Grows db db' := by
  have hself : ∀ m ∈ db.memberships.rows, ∃ m' ∈ db.memberships.rows, m'.id = m.id ∧ m'.stock = m.stock ∧
      (m'.Active → m.Active) := fun m hm => ⟨m, hm, rfl, rfl, id⟩
  have happend : ∀ {ρ : Type} {rows : List ρ} {row : ρ}, ∀ x ∈ rows, x ∈ rows ++ [row] :=
    fun x hx => List.mem_append.mpr (Or.inl hx)
  cases h with
  | keep h =>
    constructor
    · rw [h.requests]
      exact fun _ hr => hr
    · rw [h.keys]
      exact fun _ hk => hk
    · rw [h.memberships]
      exact hself
  | workspace hrequests hkeys hmemberships =>
    constructor
    · rw [hrequests]
      exact fun _ hr => hr
    · rw [hkeys]
      exact fun _ hk => hk
    · rw [hmemberships]
      exact hself
  | request r p hrequests hkeys hmemberships =>
    constructor
    · rw [hrequests]
      exact happend
    · rw [hkeys]
      exact happend
    · rw [hmemberships]
      exact hself
  | add m r p hinactive hmemberships hgeneration hrequests hkeys =>
    constructor
    · rw [hrequests]
      exact happend
    · rw [hkeys]
      exact happend
    · rw [hmemberships]
      exact fun m' hm' => ⟨m', happend m' hm', rfl, rfl, id⟩
  | join m r p k hm hactive hr htrigger hmembership hrequests hmemberships hkeys =>
    constructor
    · rw [hrequests]
      exact fun _ hr => hr
    · rw [hkeys]
      exact happend
    · rw [hmemberships]
      exact hself
  | remove membership now hrequests hkeys hmemberships =>
    constructor
    · rw [hrequests]
      exact fun _ hr => hr
    · rw [hkeys]
      exact fun _ hk => hk
    · rw [hmemberships]
      intro m hm
      refine ⟨_, List.mem_map_of_mem hm, ?_⟩
      split
      · exact ⟨rfl, rfl, fun h => by cases h⟩
      · exact ⟨rfl, rfl, id⟩

/-- A change keeps the tables consistent. -/
theorem consistent (h : Change digest db db') (hc : Consistent db) : Consistent db' := by
  have hgrows := h.grows
  have hold : ∀ id, (∃ r ∈ db.requests.rows, r.trigger = .watchlistAdd ∧ r.membershipId = some id) →
      ∃ r ∈ db'.requests.rows, r.trigger = .watchlistAdd ∧ r.membershipId = some id :=
    fun id ⟨r, hr, hadd⟩ => ⟨r, hgrows.requests r hr, hadd⟩
  have hbound : ∀ k ∈ db.keys.rows, ∃ r ∈ db'.requests.rows, r.id = k.requestId := by
    intro k hk
    obtain ⟨r, hr, hid⟩ := hc.bound k hk
    exact ⟨r, hgrows.requests r hr, hid⟩
  cases h with
  | keep h =>
    constructor
    · rw [h.memberships]
      exact hc.generations
    · rw [h.memberships]
      exact fun m hm => hold m.id (hc.added m hm)
    · rw [h.keys]
      exact hbound
  | workspace hrequests hkeys hmemberships =>
    constructor
    · rw [hmemberships]
      exact hc.generations
    · rw [hmemberships]
      exact fun m hm => hold m.id (hc.added m hm)
    · rw [hkeys]
      exact hbound
  | request r p hrequests hkeys hmemberships =>
    constructor
    · rw [hmemberships]
      exact hc.generations
    · rw [hmemberships]
      exact fun m hm => hold m.id (hc.added m hm)
    · rw [hkeys]
      intro k hk
      rcases List.mem_append.mp hk with hk | hk
      · exact hbound k hk
      · rw [List.mem_singleton.mp hk]
        exact ⟨r, by rw [hrequests]; simp, rfl⟩
  | add m r p hinactive hmemberships hgeneration hrequests hkeys hhash hadd htrigger hmembership =>
    have hr : r ∈ db'.requests.rows := by
      rw [hrequests]
      simp
    constructor
    · intro stock
      rw [hmemberships, List.filter_append, List.map_append]
      by_cases hstock : m.stock = stock
      · subst hstock
        simpa [hgeneration] using (hc.generations m.stock).append_next
      · simpa [hstock] using hc.generations stock
    · rw [hmemberships]
      intro m' hm'
      rcases List.mem_append.mp hm' with hm' | hm'
      · exact hold m'.id (hc.added m' hm')
      · rw [List.mem_singleton.mp hm']
        exact ⟨r, hr, htrigger, hmembership⟩
    · rw [hkeys]
      intro k hk
      rcases List.mem_append.mp hk with hk | hk
      · exact hbound k hk
      · rw [List.mem_singleton.mp hk]
        exact ⟨r, hr, rfl⟩
  | join m r p k hm hactive hr htrigger hmembership hrequests hmemberships hkeys hrequest =>
    constructor
    · rw [hmemberships]
      exact hc.generations
    · rw [hmemberships]
      exact fun m hm => hold m.id (hc.added m hm)
    · rw [hkeys]
      intro k' hk'
      rcases List.mem_append.mp hk' with hk' | hk'
      · exact hbound k' hk'
      · rw [List.mem_singleton.mp hk', hrequest]
        exact ⟨r, hgrows.requests r hr, rfl⟩
  | remove membership now hrequests hkeys hmemberships =>
    have hf : ∀ m : Membership,
        (if m.id = membership ∧ m.Active then { m with removedAt := some now } else m).id = m.id ∧
        (if m.id = membership ∧ m.Active then { m with removedAt := some now } else m).stock = m.stock ∧
        (if m.id = membership ∧ m.Active then { m with removedAt := some now } else m).generation = m.generation := by
      intro m
      split <;> exact ⟨rfl, rfl, rfl⟩
    constructor
    · intro stock
      have hsame : (db'.memberships.rows.filter fun m => m.stock = stock).map (·.generation) =
          (db.memberships.rows.filter fun m => m.stock = stock).map (·.generation) := by
        rw [hmemberships, List.filter_map, List.map_map]
        simp only [Function.comp_def, (hf _).2.1, (hf _).2.2]
      rw [hsame]
      exact hc.generations stock
    · rw [hmemberships]
      intro m' hm'
      obtain ⟨m, hm, rfl⟩ := List.mem_map.mp hm'
      rw [(hf m).1]
      exact hold m.id (hc.added m hm)
    · rw [hkeys]
      exact hbound

end Change

/-- The tables of every reachable state are consistent. -/
theorem consistent_invariant {digest : RequestParameters → String} :
    (system digest).Invariant fun s => Consistent s.db where
  initial s hs := by
    rw [show s.db = .empty from hs]
    exact ⟨fun _ => consecutive_nil, fun _ hm => absurd hm List.not_mem_nil, fun _ hk => absurd hk List.not_mem_nil⟩
  step s action s' hc hstep := by
    cases action with
    | advance later =>
      rw [hstep.2]
      exact hc
    | register registry =>
      rw [show s' = { s with registry } from hstep]
      exact hc
    | call c =>
      rw [show s' = s.after digest c from hstep]
      exact (s.after_change c).consistent hc

/-- Over a run no request, key or membership is lost. -/
theorem grows_of_run {digest : RequestParameters → String} {s s' : State} (hrun : (system digest).Run s s') :
    Grows s.db s'.db := by
  induction hrun with
  | refl => exact refl_of Grows _
  | @step s' s'' action _ hstep ih =>
    refine trans_of Grows ih ?_
    cases action with
    | advance later =>
      rw [hstep.2]
      exact refl_of Grows _
    | register registry =>
      rw [show s'' = { s' with registry } from hstep]
      exact refl_of Grows _
    | call c =>
      rw [show s'' = s'.after digest c from hstep]
      exact (s'.after_change c).grows

/-! ### Bound keys -/

section Bound

variable {digest : RequestParameters → String} {registry : Registry} {db db' : Database} {now : Instant}

/-- The key is bound to a request that was asked for with the parameters. -/
def Bound (digest : RequestParameters → String) (db : Database) (workspace : Uuid) (key : String)
    (p : RequestParameters) (request : Uuid) : Prop :=
  (⟨workspace, key, request, digest p⟩ : RequestKey) ∈ db.keys.rows

/-- A bound key is found. -/
theorem Bound.key? {workspace request : Uuid} {key : String} {p : RequestParameters}
    (h : Bound digest db workspace key p request) : db.key? workspace key = some ⟨workspace, key, request, digest p⟩ :=
  Table.lookup_of_mem db.keys.valid.1 h

/-- The result of a request that is there. -/
theorem Consistent.requestResult (hc : Consistent db) {k : RequestKey} (hk : k ∈ db.keys.rows) :
    ∃ result, workflowRequestResult db k.requestId = some result ∧ result.requestId = k.requestId := by
  obtain ⟨r, hr, hid⟩ := hc.bound k hk
  have hfound := request?_of_mem hr
  rw [hid] at hfound
  unfold workflowRequestResult
  rw [hfound]
  exact ⟨_, rfl, hid⟩

/-- Making the request of an enqueue binds its key. -/
theorem enqueueNew_binds {workspace request : Uuid} {a : EnqueueArguments} {options : RequestOptions} {hash : String}
    {ids : FreshIds} (h : enqueueNew db now workspace a options hash ids = .ok (db', request)) :
    (⟨workspace, a.key, request, hash⟩ : RequestKey) ∈ db'.keys.rows := by
  unfold enqueueNew at h
  split at h
  · split at h
    · simp only [joinMembership, insertKey, bind_eq_ok] at h
      obtain ⟨_, -, r, -, _, -, db₁, ⟨keys, hkeys, hkeyReturn⟩, hreturn⟩ := h
      cases hkeyReturn
      cases hreturn
      have hrows := Table.insert_eq_ok hkeys
      exact hrows ▸ List.mem_append.mpr (Or.inr (List.mem_singleton.mpr rfl))
    · simp only [bind_eq_ok] at h
      obtain ⟨db₁, -, db₂, hcreate, hreturn⟩ := h
      cases hreturn
      rw [(createRequest_eq_ok hcreate).1.keys]
      exact List.mem_append.mpr (Or.inr (List.mem_singleton.mpr rfl))
  · simp only [bind_eq_ok] at h
    obtain ⟨db₁, hcreate, hreturn⟩ := h
    cases hreturn
    rw [(createRequest_eq_ok hcreate).1.keys]
    exact List.mem_append.mpr (Or.inr (List.mem_singleton.mpr rfl))

/-- An enqueue that returns has bound its key to the request that it returns. -/
theorem workflowEnqueue_binds {a : EnqueueArguments} {ids : FreshIds} {result : Option RequestResult}
    (hc : Consistent db) (h : workflowEnqueue digest registry db now a ids = .ok (db', result)) :
    ∃ workspace options request, enqueueWorkspace db a = .ok workspace ∧
      normalizedOptions registry a.options = .ok options ∧ result.map (·.requestId) = some request ∧
      Bound digest db' workspace a.key (a.parameters workspace options) request := by
  have hc' := (workflowEnqueue_change h).consistent hc
  simp only [workflowEnqueue, bind_eq_ok] at h
  obtain ⟨workspace, hworkspace, options, hoptions, h⟩ := h
  split at h
  case h_1 existing hexisting =>
    simp only [bind_eq_ok, raiseIf_eq_ok, not_not] at h
    obtain ⟨_, hhash, hreturn⟩ := h
    cases hreturn
    obtain ⟨hmem, hidentity⟩ := Table.lookup_eq_some hexisting
    obtain ⟨result, hresult, hrequest⟩ := hc.requestResult hmem
    simp only [RequestKey.identity, Prod.mk.injEq] at hidentity
    refine ⟨workspace, options, existing.requestId, hworkspace, hoptions, by rw [hresult, Option.map_some, hrequest], ?_⟩
    unfold Bound
    rw [← hhash, ← hidentity.1, ← hidentity.2]
    exact hmem
  case h_2 =>
    simp only [bind_eq_ok] at h
    obtain ⟨_, -, ⟨db₁, request⟩, hnew, hreturn⟩ := h
    cases hreturn
    have hbound := enqueueNew_binds hnew
    obtain ⟨result, hresult, hrequest⟩ := hc'.requestResult hbound
    exact ⟨workspace, options, request, hworkspace, hoptions, by rw [hresult, Option.map_some, hrequest], hbound⟩

/-- An enqueue under a bound key finds the request when its parameters are those of the key. -/
theorem workflowEnqueue_replay (now : Instant) (ids : FreshIds) {workspace request : Uuid} {a : EnqueueArguments}
    {options : RequestOptions} (hc : Consistent db) (hworkspace : enqueueWorkspace db a = .ok workspace)
    (hoptions : normalizedOptions registry a.options = .ok options)
    (hbound : Bound digest db workspace a.key (a.parameters workspace options) request) :
    ∃ result, workflowEnqueue digest registry db now a ids = .ok (db, some result) ∧ result.requestId = request := by
  obtain ⟨result, hresult, hrequest⟩ := hc.requestResult hbound
  refine ⟨result, ?_, hrequest⟩
  simp only [workflowEnqueue, bind_eq_ok]
  refine ⟨workspace, hworkspace, options, hoptions, ?_⟩
  rw [hbound.key?]
  simp only [bind_eq_ok, raiseIf_eq_ok, not_not]
  exact ⟨(), trivial, congrArg Except.ok (Prod.ext rfl hresult)⟩

/-- An enqueue under a bound key is refused when its parameters have another hash. -/
theorem workflowEnqueue_refused (now : Instant) (ids : FreshIds) {workspace request : Uuid} {a : EnqueueArguments}
    {options : RequestOptions} {p : RequestParameters} (hworkspace : enqueueWorkspace db a = .ok workspace)
    (hoptions : normalizedOptions registry a.options = .ok options)
    (hbound : Bound digest db workspace a.key p request) (hne : digest p ≠ digest (a.parameters workspace options)) :
    workflowEnqueue digest registry db now a ids =
      .error ⟨.invalidParameterValue, "idempotency key reused with different parameters"⟩ := by
  unfold workflowEnqueue
  rw [hworkspace]
  change (normalizedOptions registry a.options >>= _) = _
  rw [hoptions]
  simp [hbound.key?, raiseIf, hne, bind, Except.bind]

end Bound

/-! ### Memberships -/

section Memberships

variable {digest : RequestParameters → String} {db db' : Database}

/-- A membership that is active later was active before. -/
theorem Grows.active (h : Grows db db') {m m' : Membership} (hm : m ∈ db.memberships.rows)
    (hm' : m' ∈ db'.memberships.rows) (hid : m'.id = m.id) (hactive : m'.Active) :
    m.Active ∧ m'.stock = m.stock := by
  obtain ⟨later, hlater, hlaterId, hstock, hkeep⟩ := h.memberships m hm
  have hsame : m' = later := List.inj_on_of_nodup_map db'.memberships.valid.1 hm' hlater (hid.trans hlaterId.symm)
  subst hsame
  exact ⟨hkeep hactive, hstock⟩

/-- Two active memberships of a stock are one. -/
theorem active_unique {m m' : Membership} (hm : m ∈ db.memberships.rows) (hm' : m' ∈ db.memberships.rows)
    (hstock : m.stock = m'.stock) (hactive : m.Active) (hactive' : m'.Active) : m = m' := by
  apply List.inj_on_of_nodup_map db.memberships.valid.2.2.1 _ _ hstock
  · exact List.mem_filter.mpr ⟨hm, decide_eq_true hactive⟩
  · exact List.mem_filter.mpr ⟨hm', decide_eq_true hactive'⟩

/-- A membership has one request that its Add made. -/
theorem added_unique {r r' : AnalysisRequest} (hr : r ∈ db.requests.rows) (hr' : r' ∈ db.requests.rows)
    (hadd : r.trigger = .watchlistAdd) (hadd' : r'.trigger = .watchlistAdd)
    (hmembership : r.membershipId = r'.membershipId) : r = r' := by
  apply List.inj_on_of_nodup_map db.requests.valid.2.2.1 _ _ hmembership
  · simp [hr, hadd]
  · simp [hr', hadd']

/-- The keys bound to an Add of the stock since an earlier state belong to a request. -/
def BoundSince (digest : RequestParameters → String) (old : Database) (stock : Uuid × Uuid) (request : Uuid)
    (db : Database) : Prop :=
  ∀ k ∈ db.keys.rows, k.identity ∉ old.keys.rows.map RequestKey.identity →
    (∃ p, k.parametersHash = digest p ∧ RequestParameters.added? p = some stock) → k.requestId = request

/-- While a membership is active, the keys bound to an Add of its stock belong to its request. -/
theorem Change.boundSince (hdigest : Function.Injective digest) {old : Database} {m : Membership}
    {r : AnalysisRequest} (hm : m ∈ db.memberships.rows) (hactive : m.Active) (hr : r ∈ db.requests.rows)
    (hadd : r.trigger = .watchlistAdd) (hmembership : r.membershipId = some m.id)
    (hbound : BoundSince digest old m.stock r.id db) (h : Change digest db db') :
    BoundSince digest old m.stock r.id db' := by
  have hnew : ∀ {k : RequestKey}, db'.keys.rows = db.keys.rows ++ [k] →
      ((∃ p, k.parametersHash = digest p ∧ RequestParameters.added? p = some m.stock) → k.requestId = r.id) →
      BoundSince digest old m.stock r.id db' := by
    intro k hkeys hk k' hk'
    rw [hkeys] at hk'
    rcases List.mem_append.mp hk' with hk' | hk'
    · exact hbound k' hk'
    · rw [List.mem_singleton.mp hk']
      exact fun _ => hk
  cases h with
  | keep h =>
    unfold BoundSince
    rw [h.keys]
    exact hbound
  | workspace _ hkeys =>
    unfold BoundSince
    rw [hkeys]
    exact hbound
  | request r' p _ hkeys _ hhash hnone =>
    apply hnew hkeys
    intro hstock
    obtain ⟨p', hp', hadded⟩ := hstock
    have hpp : p = p' := hdigest (hhash.symm.trans hp')
    rw [← hpp, hnone] at hadded
    cases hadded
  | add m' r' p hinactive _ _ _ hkeys hhash hadded =>
    apply hnew hkeys
    intro hstock
    obtain ⟨p', hp', hadded'⟩ := hstock
    have hpp : p = p' := hdigest (hhash.symm.trans hp')
    rw [← hpp, hadded] at hadded'
    exact absurd hactive (hinactive m hm (Option.some.inj hadded').symm)
  | join m' r' p k hm' hactive' hr' hadd' hmembership' _ _ hkeys hrequest hhash hadded =>
    apply hnew hkeys
    intro hstock
    obtain ⟨p', hp', hadded'⟩ := hstock
    have hpp : p = p' := hdigest (hhash.symm.trans hp')
    rw [← hpp, hadded] at hadded'
    have hmm : m' = m := active_unique hm' hm (Option.some.inj hadded') hactive' hactive
    subst hmm
    rw [hrequest, added_unique hr' hr hadd' hadd (hmembership'.trans hmembership.symm)]
  | remove _ _ _ hkeys =>
    unfold BoundSince
    rw [hkeys]
    exact hbound

/-- A change that adds a membership binds one key, to the request that it makes with it. -/
theorem Change.added {m : Membership} (h : Change digest db db') (hold : ∀ m' ∈ db.memberships.rows, m'.id ≠ m.id)
    (hm : m ∈ db'.memberships.rows) :
    ∃ r ∈ db'.requests.rows, r.trigger = .watchlistAdd ∧ r.membershipId = some m.id ∧
      BoundSince digest db m.stock r.id db' := by
  cases h with
  | keep h => exact absurd rfl (hold m (h.memberships ▸ hm))
  | workspace _ _ hmemberships => exact absurd rfl (hold m (hmemberships ▸ hm))
  | request _ _ _ _ hmemberships => exact absurd rfl (hold m (hmemberships ▸ hm))
  | join _ _ _ _ _ _ _ _ _ _ hmemberships => exact absurd rfl (hold m (hmemberships ▸ hm))
  | remove membership now _ _ hmemberships =>
    rw [hmemberships] at hm
    obtain ⟨m', hm', rfl⟩ := List.mem_map.mp hm
    refine absurd ?_ (hold m' hm')
    split <;> rfl
  | add m' r p _ hmemberships _ hrequests hkeys _ _ htrigger hmembership =>
    rw [hmemberships] at hm
    rcases List.mem_append.mp hm with hm | hm
    · exact absurd rfl (hold m hm)
    · rw [List.mem_singleton.mp hm]
      refine ⟨r, by rw [hrequests]; simp, htrigger, hmembership, ?_⟩
      intro k hk hfresh _
      rw [hkeys] at hk
      rcases List.mem_append.mp hk with hk | hk
      · exact absurd (List.mem_map_of_mem hk) hfresh
      · rw [List.mem_singleton.mp hk]
        rfl

/-- Over a run in which a membership stays active, the keys bound to an Add of its stock belong to
its request. -/
theorem boundSince_of_run (hdigest : Function.Injective digest) {s s' : State} {old : Database} {m : Membership}
    {r : AnalysisRequest} (hm : m ∈ s.db.memberships.rows) (hr : r ∈ s.db.requests.rows)
    (hadd : r.trigger = .watchlistAdd) (hmembership : r.membershipId = some m.id)
    (hbound : BoundSince digest old m.stock r.id s.db) (hrun : (system digest).Run s s')
    (hactive : ∃ m' ∈ s'.db.memberships.rows, m'.id = m.id ∧ m'.Active) :
    BoundSince digest old m.stock r.id s'.db := by
  induction hrun with
  | refl => exact hbound
  | @step s' s'' action hbefore hstep ih =>
    have hgrows := grows_of_run (System.Run.single hstep)
    have hgrown := grows_of_run hbefore
    obtain ⟨now', hnow', hid, hstock, -⟩ := hgrown.memberships m hm
    obtain ⟨later, hlater, hlaterId, hlaterActive⟩ := hactive
    have hstill := (hgrows.active hnow' hlater (hlaterId.trans hid.symm) hlaterActive).1
    have hbefore := ih ⟨now', hnow', hid, hstill⟩
    cases action with
    | advance later =>
      rw [hstep.2]
      exact hbefore
    | register registry =>
      rw [show s'' = { s' with registry } from hstep]
      exact hbefore
    | call c =>
      rw [show s'' = s'.after digest c from hstep]
      rw [← hstock] at hbefore ⊢
      exact (s'.after_change c).boundSince hdigest hnow' hstill (hgrown.requests r hr) hadd
        (hmembership.trans (congrArg some hid.symm)) hbefore

end Memberships

/-! ### Enqueueing again -/

/-- An enqueue that returns gives the request to which its key is bound from then on. Whatever
happens later, an enqueue with the key finds that request and changes nothing when its parameters
are the same, and is refused and changes nothing when they differ. A stock has at most one active
membership, its memberships are numbered in order, and each has exactly one request that its Add
made. The Adds of a stock whose keys were not bound before a membership was added, and that return
while it is active, all return one request. -/
theorem enqueue_idempotent {digest : RequestParameters → String} (hdigest : Function.Injective digest) {s : State}
    (hs : (system digest).Reachable s) :
    (∀ a ids db result, perform digest s.registry s.db s.now (.enqueue a ids) = .ok (db, .request result) →
      ∃ workspace options request, enqueueWorkspace s.db a = .ok workspace ∧
        normalizedOptions s.registry a.options = .ok options ∧ result.map (·.requestId) = some request ∧
        ∀ s', (system digest).Run (s.after digest (.enqueue a ids)) s' →
          ∀ again freshIds options', again.key = a.key → enqueueWorkspace s'.db again = .ok workspace →
            normalizedOptions s'.registry again.options = .ok options' →
            s'.after digest (.enqueue again freshIds) = s' ∧
            (again.parameters workspace options' = a.parameters workspace options →
              ∃ found, perform digest s'.registry s'.db s'.now (.enqueue again freshIds) =
                .ok (s'.db, .request (some found)) ∧ found.requestId = request) ∧
            (again.parameters workspace options' ≠ a.parameters workspace options →
              perform digest s'.registry s'.db s'.now (.enqueue again freshIds) =
                .error ⟨.invalidParameterValue, "idempotency key reused with different parameters"⟩)) ∧
    (∀ m ∈ s.db.memberships.rows, ∀ m' ∈ s.db.memberships.rows, m.stock = m'.stock → m.Active → m'.Active → m = m') ∧
    (∀ stock, (s.db.memberships.rows.filter fun m => m.stock = stock).map (·.generation) =
      List.range' 1 (s.db.memberships.rows.filter fun m => m.stock = stock).length) ∧
    (∀ m ∈ s.db.memberships.rows, ∃! r, r ∈ s.db.requests.rows ∧ r.trigger = .watchlistAdd ∧
      r.membershipId = some m.id) ∧
    ∀ c m, (∀ m' ∈ s.db.memberships.rows, m'.id ≠ m.id) → m ∈ (s.after digest c).db.memberships.rows →
      ∃ request, ∀ s' a ids db result, (s' = s ∧ .enqueue a ids = c ∨ (system digest).Run (s.after digest c) s') →
        a.trigger = .watchlistAdd → a.watchlist = some m.watchlistId → a.security = m.securityId →
        (∀ workspace, enqueueWorkspace s'.db a = .ok workspace → s.db.key? workspace a.key = none) →
        perform digest s'.registry s'.db s'.now (.enqueue a ids) = .ok (db, .request result) →
        (∃ m' ∈ db.memberships.rows, m'.id = m.id ∧ m'.Active) → result.map (·.requestId) = some request := by
  have hconsistent : ∀ {t : State}, (system digest).Reachable t → Consistent t.db :=
    fun ht => consistent_invariant.holds ht
  refine ⟨?_, ?_, ?_, ?_, ?_⟩
  · intro a ids db result h
    have hafter := State.after_of_ok h
    obtain ⟨⟨db', result'⟩, hcall, hreturn⟩ := bind_eq_ok.mp h
    cases hreturn
    obtain ⟨workspace, options, request, hworkspace, hoptions, hresult, hbound⟩ :=
      workflowEnqueue_binds (hconsistent hs) hcall
    refine ⟨workspace, options, request, hworkspace, hoptions, hresult, ?_⟩
    intro s' hrun again freshIds options' hkey hworkspace' hoptions'
    have hs' := hrun.reachable (hs.step (a := .call (.enqueue a ids)) rfl)
    rw [hafter] at hrun
    have hkept : Bound digest s'.db workspace again.key (a.parameters workspace options) request := by
      rw [hkey]
      exact (grows_of_run hrun).keys _ hbound
    by_cases hsame : again.parameters workspace options' = a.parameters workspace options
    · rw [← hsame] at hkept
      obtain ⟨found, hfound, hrequest⟩ :=
        workflowEnqueue_replay s'.now freshIds (hconsistent hs') hworkspace' hoptions' hkept
      have hperform : perform digest s'.registry s'.db s'.now (.enqueue again freshIds) =
          .ok (s'.db, .request (some found)) := bind_eq_ok.mpr ⟨_, hfound, rfl⟩
      exact ⟨State.after_of_ok hperform, fun _ => ⟨found, hperform, hrequest⟩, fun hne => absurd hsame hne⟩
    · have hrefused := workflowEnqueue_refused s'.now freshIds hworkspace' hoptions' hkept
        (fun hhash => hsame (hdigest hhash).symm)
      have hperform : perform digest s'.registry s'.db s'.now (.enqueue again freshIds) =
          .error ⟨.invalidParameterValue, "idempotency key reused with different parameters"⟩ := by
        simp [perform, hrefused, bind, Except.bind]
      exact ⟨State.after_of_error hperform, fun heq => absurd heq hsame, fun _ => hperform⟩
  · intro m hm m' hm' hstock hactive hactive'
    exact active_unique hm hm' hstock hactive hactive'
  · intro stock
    have hgenerations := (hconsistent hs).generations stock
    unfold Consecutive at hgenerations
    rwa [List.length_map] at hgenerations
  · intro m hm
    obtain ⟨r, hr, hadd, hmembership⟩ := (hconsistent hs).added m hm
    refine ⟨r, ⟨hr, hadd, hmembership⟩, ?_⟩
    intro r' h
    exact added_unique h.1 hr h.2.1 hadd (h.2.2.trans hmembership.symm)
  · intro c m hold hm
    obtain ⟨r, hr, hadd, hmembership, hbound⟩ := (s.after_change c).added hold hm
    refine ⟨r.id, ?_⟩
    intro s' a ids db result hs' htrigger hwatchlist hsecurity hfresh h hactive
    have hafter : (s'.after digest (.enqueue a ids)).db = db := by rw [State.after_of_ok h]
    have hlast : (system digest).step s' (.call (.enqueue a ids)) (s'.after digest (.enqueue a ids)) := rfl
    have hrun : (system digest).Run (s.after digest c) (s'.after digest (.enqueue a ids)) := by
      rcases hs' with ⟨rfl, rfl⟩ | hrun
      · exact .refl _
      · exact hrun.trans (.single hlast)
    have hreachable : (system digest).Reachable s' := by
      rcases hs' with ⟨rfl, -⟩ | hrun
      · exact hs
      · exact hrun.reachable (hs.step (a := .call c) rfl)
    rw [← hafter] at hactive
    have hsince := boundSince_of_run hdigest hm hr hadd hmembership hbound hrun hactive
    rw [hafter] at hsince
    obtain ⟨⟨db', result'⟩, hcall, hreturn⟩ := bind_eq_ok.mp h
    cases hreturn
    obtain ⟨workspace, options, request, hworkspace, -, hresult, hkey⟩ :=
      workflowEnqueue_binds (hconsistent hreachable) hcall
    rw [hresult]
    congr 1
    apply hsince _ hkey
    · intro hmem
      obtain ⟨k, hk, hidentity⟩ := List.mem_map.mp hmem
      exact Table.lookup_eq_none.mp (hfresh workspace hworkspace) k hk hidentity
    · refine ⟨_, rfl, ?_⟩
      simp [EnqueueArguments.parameters, RequestParameters.added?, htrigger, hwatchlist, hsecurity, Membership.stock]

/-- The sample after an Add, the removal of the stock and another Add. -/
def sampleReadded : State :=
  sampleStart.afterAll sampleDigest
    [.createWorkspace 1 2, .enqueue (sampleAdd "first") ⟨10, 11, 12⟩, .removeMembership 10,
      .enqueue (sampleAdd "second") ⟨20, 21, 22⟩]

/-- Two Adds with different keys and equal parameters, both while the second membership is active,
return different requests: the older key still names the older request. -/
theorem replayed_add_differs :
    (system sampleDigest).Reachable sampleReadded ∧
      (sampleReadded.db.memberships.rows.filter fun m => decide m.Active).map (·.id) = [20] ∧
      (∀ options, (sampleAdd "first").parameters 1 options = (sampleAdd "second").parameters 1 options) ∧
      ((perform sampleDigest sampleReadded.registry sampleReadded.db sampleReadded.now
        (.enqueue (sampleAdd "first") ⟨30, 31, 32⟩)).toOption.map (·.2)) =
          some (.request (some ⟨11, 1, some 10, some 1⟩)) ∧
      ((perform sampleDigest sampleReadded.registry sampleReadded.db sampleReadded.now
        (.enqueue (sampleAdd "second") ⟨30, 31, 32⟩)).toOption.map (·.2)) =
          some (.request (some ⟨21, 2, some 20, some 2⟩)) :=
  ⟨(run_afterAll _ _).reachable (.initial rfl), by decide +kernel, fun _ => rfl, by decide +kernel, by decide +kernel⟩

/-- Texts are encoded by their characters. -/
instance encodableText : Encodable String :=
  .ofLeftInverse (fun text : String => text.toList.map Char.toNat) (fun codes => String.ofList (codes.map Char.ofNat))
    (by intro text; simp [Function.comp_def])

deriving instance Encodable for HistoryMode
deriving instance Encodable for PeriodKind
deriving instance Encodable for RequestedPeriod
deriving instance Encodable for MarketPlan
deriving instance Encodable for RequestOptions
deriving instance Encodable for BaselineKind
deriving instance Encodable for Baseline
deriving instance Encodable for MonitorPlan
deriving instance Encodable for Trigger
deriving instance Encodable for RequestParameters

/-- A hash without collisions: the parameters in binary. -/
def binaryDigest (p : RequestParameters) : String :=
  String.ofList ((Nat.digits 2 (Encodable.encode p)).map fun digit => if digit = 0 then '0' else '1')

/-- Parameters with the same binary text are equal. -/
theorem binaryDigest_injective : Function.Injective binaryDigest := by
  intro p p' h
  have hdecode : ∀ n, Nat.ofDigits 2 (((Nat.digits 2 n).map fun digit => if digit = 0 then '0' else '1').map
      fun c => if c = '0' then 0 else 1) = n := by
    intro n
    have hmap : (((Nat.digits 2 n).map fun digit => if digit = 0 then '0' else '1').map
        fun c => if c = '0' then 0 else 1) = Nat.digits 2 n := by
      rw [List.map_map]
      conv_rhs => rw [← List.map_id (Nat.digits 2 n)]
      apply List.map_congr_left
      intro digit hdigit
      have hbit := Nat.digits_lt_base (b := 2) (by omega) hdigit
      by_cases hzero : digit = 0
      · simp [hzero]
      · simp [hzero]
        omega
    rw [hmap, Nat.ofDigits_digits]
  apply Encodable.encode_injective
  rw [← hdecode (Encodable.encode p), String.ofList_injective h, hdecode]

/-- The sample before any Add. -/
def sampleEmpty : State := sampleStart.afterAll binaryDigest [.createWorkspace 1 2]

/-- The sample after an Add, the removal of the stock and another Add, with the hash in binary. -/
def sampleAgain : State :=
  (sampleEmpty.after binaryDigest (.enqueue (sampleAdd "first") ⟨10, 11, 12⟩)).afterAll binaryDigest
    [.removeMembership 10, .enqueue (sampleAdd "second") ⟨20, 21, 22⟩]

/-- The first Add of the sample is found again under its key after the stock was removed and added
again. -/
theorem enqueue_idempotent_sample :
    (system binaryDigest).Reachable sampleEmpty ∧
      ((sampleAgain.db.memberships.rows.map fun m => (m.id, m.generation, decide m.Active)) =
        [(10, 1, false), (20, 2, true)]) ∧
      sampleAgain.after binaryDigest (.enqueue (sampleAdd "first") ⟨30, 31, 32⟩) = sampleAgain := by
  have hs : (system binaryDigest).Reachable sampleEmpty := (run_afterAll _ _).reachable (.initial rfl)
  have hanswer : ((perform binaryDigest sampleEmpty.registry sampleEmpty.db sampleEmpty.now
      (.enqueue (sampleAdd "first") ⟨10, 11, 12⟩)).toOption.map (·.2)) =
        some (.request (some ⟨11, 1, some 10, some 1⟩)) := by decide +kernel
  obtain ⟨⟨db, answer⟩, hok, hrequest⟩ := Option.map_eq_some_iff.mp hanswer
  obtain rfl : answer = _ := hrequest
  obtain ⟨workspace, options, request, hworkspace, hoptions, -, hagain⟩ :=
    (enqueue_idempotent binaryDigest_injective hs).1 (sampleAdd "first") ⟨10, 11, 12⟩ db _ (toOption_eq_some.mp hok)
  have hfirst : enqueueWorkspace sampleEmpty.db (sampleAdd "first") = .ok 1 := by decide +kernel
  have hlater : enqueueWorkspace sampleAgain.db (sampleAdd "first") = .ok 1 := by decide +kernel
  have hregistry : sampleAgain.registry = sampleEmpty.registry := by decide +kernel
  rw [hfirst] at hworkspace
  cases hworkspace
  have hrun : (system binaryDigest).Run (sampleEmpty.after binaryDigest (.enqueue (sampleAdd "first") ⟨10, 11, 12⟩))
      sampleAgain := run_afterAll _ _
  refine ⟨hs, by decide +kernel, (hagain sampleAgain hrun (sampleAdd "first") ⟨30, 31, 32⟩ options rfl hlater ?_).1⟩
  rw [hregistry]
  exact hoptions

end EquityEval.Workflow
