import EquityEval.Publication.Invariant

/-!
# The requests that a request descends from

A request names a request that was there before as its parent, so the requests that it descends from end,
and the closest of them with a membership is found within as many steps as there are requests.
-/

namespace EquityEval.Publication

open Relational TransitionSystem
open Workflow (Uuid Instant AnalysisRequest Registry FreshIds EnqueueArguments RequestParameters RequestResult SameIntent
  workflowEnqueue workflowEnqueueMonitor createRequest workflowValidateRequest)

/-- The membership of a request, or that of the closest request that it descends from and that has one. -/
inductive Nearest (workflow : Workflow.Database) : AnalysisRequest → Option Uuid → Prop
  | own {r : AnalysisRequest} {m : Uuid} (hown : r.membershipId = some m) : Nearest workflow r (some m)
  | parent {r q : AnalysisRequest} {m : Option Uuid} (hnone : r.membershipId = none) (hq : q ∈ workflow.requests.rows)
      (hparent : r.parentRequestId = some q.id) (h : Nearest workflow q m) : Nearest workflow r m
  | root {r : AnalysisRequest} (hnone : r.membershipId = none) (hroot : r.parentRequestId = none) : Nearest workflow r none

/-- Every request comes after its parent. -/
def Descends (rows : List AnalysisRequest) : Prop :=
  ∀ before r after, rows = before ++ r :: after → ∀ p ∈ r.parentRequestId, ∃ q ∈ before, q.id = p

/-- The requests stay, or one is added whose parent is among them. -/
inductive Adds (workflow workflow' : Workflow.Database) : Prop
  | keep (h : workflow'.requests = workflow.requests)
  | add (r : AnalysisRequest) (hrows : workflow'.requests.rows = workflow.requests.rows ++ [r])
      (hparent : ∀ p ∈ r.parentRequestId, ∃ q ∈ workflow.requests.rows, q.id = p)

section

variable {workflow workflow' : Workflow.Database} {now : Instant}

/-- What is closest stays so when requests are added. -/
theorem Nearest.mono {r : AnalysisRequest} {m : Option Uuid} (hgrows : ∀ q ∈ workflow.requests.rows, q ∈ workflow'.requests.rows)
    (h : Nearest workflow r m) : Nearest workflow' r m := by
  induction h with
  | own hown => exact .own hown
  | parent hnone hq hparent _ ih => exact .parent hnone (hgrows _ hq) hparent ih
  | root hnone hroot => exact .root hnone hroot

/-- The closest membership is found when there is a step for each request before. -/
theorem lineageMembership_nearest (h : Descends workflow.requests.rows) {fuel : ℕ} {before after : List AnalysisRequest} {r : AnalysisRequest}
    (hrows : workflow.requests.rows = before ++ r :: after) (hfuel : before.length < fuel) :
    Nearest workflow r (lineageMembership workflow fuel r.id) := by
  induction fuel generalizing before after r with
  | zero => omega
  | succ fuel ih =>
    have hfound : workflow.request? r.id = some r := Workflow.request?_of_mem (by rw [hrows]; simp)
    rw [lineageMembership, hfound, Option.bind_some]
    cases hmembership : r.membershipId with
    | some m => exact .own hmembership
    | none =>
      cases hparent : r.parentRequestId with
      | none => exact .root hmembership hparent
      | some p =>
        obtain ⟨q, hq, rfl⟩ := h before r after hrows p hparent
        obtain ⟨first, rest, rfl⟩ := List.append_of_mem hq
        have hsplit : workflow.requests.rows = first ++ q :: (rest ++ r :: after) := by rw [hrows, List.append_assoc, List.cons_append]
        rw [List.length_append, List.length_cons] at hfuel
        have hmem : q ∈ workflow.requests.rows := by
          rw [hsplit]
          exact List.mem_append_right _ List.mem_cons_self
        exact .parent hmembership hmem hparent (ih hsplit (by omega))

/-- The membership that a call reads is the closest one. -/
theorem requestMembership_nearest (h : Descends workflow.requests.rows) {r : AnalysisRequest} {m : Option Workflow.Membership}
    (hr : r ∈ workflow.requests.rows) (hread : requestMembership workflow r = .ok m) : Nearest workflow r (m.map (·.id)) := by
  obtain ⟨before, after, hrows⟩ := List.append_of_mem hr
  have hlength : before.length < workflow.requests.rows.length := by
    rw [hrows, List.length_append, List.length_cons]
    omega
  have hnearest := lineageMembership_nearest h hrows hlength
  unfold requestMembership at hread
  split at hread
  next hnone =>
    cases hread
    rw [hnone] at hnearest
    exact hnearest
  next id hsome =>
    simp only [bind_eq_ok, orRaise_eq_ok] at hread
    obtain ⟨found, hfound, _, -, hreturn⟩ := hread
    cases hreturn
    rw [hsome] at hnearest
    rw [Option.map_some, (Table.lookup_eq_some hfound).2]
    exact hnearest

/-! ### Calls -/

/-- Added requests come after their parents. -/
theorem Adds.descends (h : Adds workflow workflow') (hd : Descends workflow.requests.rows) : Descends workflow'.requests.rows := by
  cases h with
  | keep h =>
    rw [h]
    exact hd
  | add r hrows hparent =>
    intro before q after hsplit p hp
    rw [hrows] at hsplit
    rcases List.eq_nil_or_concat after with rfl | ⟨rest, last, rfl⟩
    · obtain ⟨hbefore, hlast⟩ := List.append_inj' hsplit rfl
      cases hlast
      rw [← hbefore]
      exact hparent p hp
    · rw [List.concat_eq_append, ← List.cons_append, ← List.append_assoc] at hsplit
      obtain ⟨hold, -⟩ := List.append_inj' hsplit rfl
      exact hd before q rest hold p hp

/-- The parent of a request that is made is there. -/
theorem createRequest_parent {r : AnalysisRequest} {execution : Uuid} (h : createRequest workflow now r execution = .ok workflow') :
    ∀ p ∈ r.parentRequestId, ∃ q ∈ workflow.requests.rows, q.id = p := by
  obtain ⟨-, hvalid⟩ := Workflow.createRequest_eq_ok h
  simp only [workflowValidateRequest, bind_eq_ok, raiseIf_eq_ok] at hvalid
  obtain ⟨_, -, _, hparent, -⟩ := hvalid
  intro p hp
  by_contra hnone
  push Not at hnone
  refine hparent ⟨p, hp, ?_⟩
  rintro ⟨q, hq, hid, -⟩
  exact hnone q hq hid

/-- A monitor that is enqueued has no parent. -/
theorem workflowEnqueueMonitor_adds {digest : RequestParameters → String} {a : Workflow.MonitorArguments} {request execution : Uuid}
    {result : Option RequestResult} (h : workflowEnqueueMonitor digest workflow now a request execution = .ok (workflow', result)) :
    Adds workflow workflow' := by
  simp only [workflowEnqueueMonitor, bind_eq_ok] at h
  obtain ⟨_, -, _, -, h⟩ := h
  split at h
  · simp only [bind_eq_ok] at h
    obtain ⟨_, -, hreturn⟩ := h
    cases hreturn
    exact .keep rfl
  · simp only [bind_eq_ok] at h
    obtain ⟨_, -, _, -, db₁, hcreate, hreturn⟩ := h
    cases hreturn
    exact .add _ (Workflow.createRequest_eq_ok hcreate).1.requests (createRequest_parent hcreate)

end

end EquityEval.Publication
