import EquityEval.Publication.Changes

/-!
# What stays in the tables of results

In every reachable state the rows refer to what is there, and a run keeps the reviews, intents, inputs
and results. The projection of a context never goes back.
-/

namespace EquityEval.Publication

open Relational TransitionSystem
open Workflow (Uuid Instant SqlError AnalysisRequest Registry Coherent)

/-- What a later state keeps of the tables of a kind. -/
structure Store.Keeps (store store' : Store) : Prop where
  reviews : ∀ v ∈ store.reviews.rows, v ∈ store'.reviews.rows
  intents : ∀ i ∈ store.intents.rows, i ∈ store'.intents.rows
  inputs : ∀ i ∈ store.inputs.rows, i ∈ store'.inputs.rows
  payloads : ∀ p ∈ store.payloads.rows, p ∈ store'.payloads.rows
  results : ∀ s ∈ store.results.rows, s ∈ store'.results.rows
  latest : ∀ row ∈ store.latest.rows, ∃ row' ∈ store'.latest.rows, row.Before row'

instance : IsPreorder Store Store.Keeps where
  refl _ := ⟨fun _ h => h, fun _ h => h, fun _ h => h, fun _ h => h, fun _ h => h, fun row h => ⟨row, h, refl_of LatestRow.Before row⟩⟩
  trans _ _ _ h h' := by
    refine ⟨fun v hv => h'.reviews v (h.reviews v hv), fun i hi => h'.intents i (h.intents i hi), fun i hi => h'.inputs i (h.inputs i hi),
      fun p hp => h'.payloads p (h.payloads p hp), fun s hs => h'.results s (h.results s hs), fun row hrow => ?_⟩
    obtain ⟨row', hrow', hbefore⟩ := h.latest row hrow
    obtain ⟨row'', hrow'', hbefore'⟩ := h'.latest row' hrow'
    exact ⟨row'', hrow'', trans_of LatestRow.Before hbefore hbefore'⟩

/-- A row that is added leaves the others. -/
theorem mem_of_added {ρ : Type} {rows rows' : List ρ} {row : ρ} (h : rows' = rows ++ [row]) : ∀ x ∈ rows, x ∈ rows' := by
  rw [h]
  exact fun _ hx => List.mem_append_left _ hx

section Changes

variable {env : Environment} {workflow : Workflow.Database} {store store' : Store}

/-- Every change keeps what is there. -/
theorem Store.Change.keeps (h : store.Change env workflow store') : store.Keeps store' := by
  have hself : store.Keeps store := refl_of Store.Keeps store
  cases h with
  | keep => exact hself
  | review v manifest hmanifest hreviews => exact { hself with reviews := mem_of_added hreviews }
  | intend i r v hr hv hrequest hreview hintents hlatest =>
    exact { hself with intents := mem_of_added hintents, latest := fun _ hrow => hlatest.before hrow }
  | freeze i r v hr hv htrigger hrequest hreview hinputs hintends hlatest =>
    exact { hself with inputs := mem_of_added hinputs, latest := fun _ hrow => hlatest.before hrow }
  | publish s r i v hr hi hv hrequest hinput hown hreview hsettled hresults hpayloads hscenarios hsensitivities hconclusions hlatest =>
    exact { hself with payloads := hpayloads, results := mem_of_added hresults, latest := fun _ hrow => hlatest.before hrow }

/-- Rows that a request was projected to refer to what is there. -/
theorem Advanced.refers {latest latest' : Table LatestRow LatestValid} {r : AnalysisRequest} {v : Review} {scope : Uuid}
    (h : Advanced (requestRow r v scope) latest latest') (hold : ∀ row ∈ latest.rows, store.Refers workflow row)
    (hintends : store.Intends workflow (contextOf r v scope) r.id r.requestSequence) : ∀ row ∈ latest'.rows, store.Refers workflow row := by
  intro row hrow
  rcases h.mem hrow with hmem | ⟨-, rfl | ⟨old, hmem, hcontext, rfl⟩⟩
  · exact hold row hmem
  · exact ⟨hintends, nofun⟩
  · have hrefers := hold old hmem
    simp only [LatestRow.advance]
    split
    next =>
      refine ⟨?_, hrefers.2⟩
      rw [hcontext]
      exact hintends
    next => exact hrefers

/-- Every change leaves the rows referring to what is there. -/
theorem Store.Change.sound (h : store.Change env workflow store') (hs : store.Sound env workflow) : store'.Sound env workflow := by
  have hkeeps := h.keeps
  have hrefers : ∀ row ∈ store.latest.rows, store'.Refers workflow row := fun row hrow =>
    (hs.latest row hrow).mono hkeeps.results (fun _ hr => hr) hkeeps.intents hkeeps.inputs hkeeps.reviews
  have hintents : ∀ i ∈ store.intents.rows, ∃ r ∈ workflow.requests.rows, ∃ v ∈ store'.reviews.rows, r.id = i.requestId ∧
      v.id = i.reviewId ∧ ∃ row ∈ store'.latest.rows, row.context = contextOf r v i.scopeId ∧
        r.requestSequence ≤ row.latestRequestSequence := by
    intro i hi
    obtain ⟨r, hr, v, hv, hrequest, hreview, row, hrow, hcontext, hle⟩ := hs.intents i hi
    obtain ⟨row', hrow', hbefore⟩ := hkeeps.latest row hrow
    exact ⟨r, hr, v, hkeeps.reviews v hv, hrequest, hreview, row', hrow', hbefore.context.trans hcontext, hle.trans hbefore.requests⟩
  have hinputs : ∀ i ∈ store.inputs.rows, (∃ r ∈ workflow.requests.rows, r.id = i.requestId ∧ r.trigger ∈ [.watchlistAdd, .manualRefresh]) ∧
      ∃ v ∈ store'.reviews.rows, v.id = i.reviewId := by
    intro i hi
    obtain ⟨hrequest, v, hv, hreview⟩ := hs.inputs i hi
    exact ⟨hrequest, v, hkeeps.reviews v hv, hreview⟩
  cases h with
  | keep => exact hs
  | review v manifest hmanifest hreviews =>
    refine { hs with reviews := fun v' hv' => ?_, intents := hintents, inputs := hinputs, latest := hrefers }
    rw [hreviews] at hv'
    rcases List.mem_append.mp hv' with hold | hnew
    · exact hs.reviews v' hold
    · exact List.mem_singleton.mp hnew ▸ ⟨manifest, hmanifest⟩
  | intend i r v hr hv hrequest hreview hrows hlatest =>
    refine { hs with intents := fun j hj => ?_, latest := ?_ }
    · rw [hrows] at hj
      rcases List.mem_append.mp hj with hold | hnew
      · exact hintents j hold
      · rw [List.mem_singleton.mp hnew]
        exact ⟨r, hr, v, hv, hrequest, hreview, hlatest.projected⟩
    · refine hlatest.refers hrefers ⟨r, hr, i, ?_, v, hv, hrequest.symm, hreview, rfl, rfl, rfl⟩
      rw [hrows]
      exact List.mem_append_right _ (List.mem_singleton_self i)
  | freeze i r v hr hv htrigger hrequest hreview hrows hintends hlatest =>
    refine { hs with
      intents := hintents
      inputs := fun j hj => ?_
      results := fun s hsmem => ?_
      latest := hlatest.refers hrefers hintends }
    · rw [hrows] at hj
      rcases List.mem_append.mp hj with hold | hnew
      · exact hinputs j hold
      · rw [List.mem_singleton.mp hnew]
        exact ⟨⟨r, hr, hrequest, htrigger⟩, v, hv, hreview⟩
    · obtain ⟨hsettled, j, hj, hown⟩ := hs.results s hsmem
      exact ⟨hsettled, j, hkeeps.inputs j hj, hown⟩
  | publish s r i v hr hi hv hrequest hinput hown hreview hsettled hrows hpayloads hscenarios hsensitivities hconclusions hlatest =>
    have hs' := mem_of_added hrows
    have hnew := List.mem_append_right store.results.rows (List.mem_singleton_self s)
    rw [← hrows] at hnew
    refine { hs with
      intents := hintents
      results := fun s' hsmem => ?_
      scenarios := fun x hx => ?_
      sensitivities := fun x hx => ?_
      conclusions := fun x hx => ?_
      latest := fun row hrow => ?_ }
    · rw [hrows] at hsmem
      rcases List.mem_append.mp hsmem with hold | hadded
      · exact hs.results s' hold
      · rw [List.mem_singleton.mp hadded]
        exact ⟨hsettled, i, hi, hinput, hown.trans hrequest⟩
    · rcases hscenarios x hx with hold | hrun
      · obtain ⟨s', hsmem, hid⟩ := hs.scenarios x hold
        exact ⟨s', hs' s' hsmem, hid⟩
      · exact ⟨s, hnew, hrun.symm⟩
    · rcases hsensitivities x hx with hold | hrun
      · obtain ⟨s', hsmem, hid⟩ := hs.sensitivities x hold
        exact ⟨s', hs' s' hsmem, hid⟩
      · exact ⟨s, hnew, hrun.symm⟩
    · rcases hconclusions x hx with hold | hrun
      · obtain ⟨s', hsmem, hid⟩ := hs.conclusions x hold
        exact ⟨s', hs' s' hsmem, hid⟩
      · exact ⟨s, hnew, hrun.symm⟩
    · obtain ⟨old, hold, rfl⟩ := hlatest.mem hrow
      have href := hrefers old hold
      unfold LatestRow.publish
      split
      next hmatch =>
        refine ⟨href.1, fun snapshot hsnapshot => ?_⟩
        cases hsnapshot
        exact ⟨s, hnew, r, hr, i, hi, v, hv, hrequest, hinput, hreview, rfl, rfl, hmatch.1⟩
      next => exact href

end Changes

/-! ### Runs -/

section Runs

variable {env : Environment} {s s' : State}

/-- What holds of the tables between two calls. -/
structure Database.Sound (env : Environment) (db : Database) : Prop where
  coherent : Coherent db.workflow
  stores : ∀ kind, (db.store kind).Sound env db.workflow

/-- Every call that returns changes the tables in one of the listed ways. -/
theorem perform_changes {registry : Registry} {db db' : Database} {now : Instant} {c : Call} (h : db.Sound env)
    (hperform : perform env registry db now c = .ok db') : Changes env now db db' := by
  cases c <;> simp only [perform] at hperform
  case workflow c =>
    obtain ⟨⟨workflow, answer⟩, hcall, hreturn⟩ := bind_eq_ok.mp hperform
    cases hreturn
    exact .workflow (.of_advances (Workflow.perform_advances h.coherent hcall) (Workflow.perform_change hcall).grows)
  case review => exact insertReview_changes h.coherent hperform
  case enqueue =>
    obtain ⟨_, hcall, hreturn⟩ := bind_eq_ok.mp hperform
    cases hreturn
    exact enqueue_changes h.coherent hcall
  case freeze =>
    obtain ⟨_, hcall, hreturn⟩ := bind_eq_ok.mp hperform
    cases hreturn
    exact freeze_changes h.coherent hcall
  case publish =>
    obtain ⟨_, hcall, hreturn⟩ := bind_eq_ok.mp hperform
    cases hreturn
    exact publish_changes h.coherent (h.stores _) hcall

/-- Changes leave the tables sound. -/
theorem Changes.sound {db db' : Database} {now : Instant} (h : Changes env now db db') (hs : db.Sound env) : db'.Sound env :=
  ⟨h.goes.coherent, fun kind => (h.stores kind).sound ((hs.stores kind).goes h.goes)⟩

/-- The state after a call has changed tables. -/
theorem State.after_changes (c : Call) (h : s.db.Sound env) : Changes env s.now s.db (s.after env c).db := by
  unfold State.after
  split
  next db hperform => exact perform_changes h hperform
  next => exact .refl h.coherent

/-- The tables of every reachable state are sound. -/
theorem sound_invariant : (system env).Invariant fun s => s.db.Sound env where
  initial s hs := by
    rw [show s.db = .empty from hs]
    refine ⟨Workflow.coherent_empty, fun kind => ?_⟩
    cases kind <;> exact Store.sound_empty
  step s action s' h hstep := by
    cases action with
    | advance later =>
      rw [hstep.2]
      exact h
    | register registry =>
      rw [show s' = { s with registry } from hstep]
      exact h
    | call c =>
      rw [show s' = s.after env c from hstep]
      exact (State.after_changes c h).sound h

/-- A step changes the tables in one of the listed ways. -/
theorem step_changes {action : Action} (h : s.db.Sound env) (hstep : (system env).step s action s') : Changes env s.now s.db s'.db := by
  cases action with
  | advance later =>
    rw [hstep.2]
    exact .refl h.coherent
  | register registry =>
    rw [show s' = { s with registry } from hstep]
    exact .refl h.coherent
  | call c =>
    rw [show s' = s.after env c from hstep]
    exact State.after_changes c h

/-- What the changes of sound tables keep, a run from a reachable state keeps. -/
theorem run_keeps {kind : Kind} {P : Store → Prop} (hs : (system env).Reachable s) (hrun : (system env).Run s s') (h : P (s.db.store kind))
    (hP : ∀ {workflow store store'}, store.Sound env workflow → store.Change env workflow store' → P store → P store') :
    P (s'.db.store kind) := by
  have hboth : s'.db.Sound env ∧ P (s'.db.store kind) := by
    refine hrun.keeps (P := fun s => s.db.Sound env ∧ P (s.db.store kind)) ?_ ⟨sound_invariant.holds hs, h⟩
    rintro t action t' ⟨ht, hPt⟩ hstep
    have hchanges := step_changes ht hstep
    exact ⟨hchanges.sound ht, hP ((ht.stores kind).goes hchanges.goes) (hchanges.stores kind) hPt⟩
  exact hboth.2

/-- A run keeps what is there. -/
theorem keeps_of_run (hs : (system env).Reachable s) (hrun : (system env).Run s s') (kind : Kind) :
    (s.db.store kind).Keeps (s'.db.store kind) :=
  run_keeps (P := fun store => (s.db.store kind).Keeps store) hs hrun (refl_of Store.Keeps _) fun _ hchange hkept =>
    trans_of Store.Keeps hkept hchange.keeps

end Runs

end EquityEval.Publication
