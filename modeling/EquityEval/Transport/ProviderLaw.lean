import EquityEval.Transport.ProviderParts
import EquityEval.Transport.SecLaw

/-!
# The trace law of the provider transport

An attempt is settled when it ends, unless the lease was lost, and what a fetch reports of its attempts is what
the store recorded. A pause that is refused after an attempt was finished breaks the law: the attempt is
finished a second time.
-/

namespace EquityEval.Transport

open FloatArithmetic Interaction
open Workflow (Uuid Instant isSha256 seconds)
open Interaction.Action (Ensures)

/-- What else happens records nothing. -/
theorem recorded_extend {l : Ledger} (event : Event) (hevent : recordedFinish event = none) :
    recorded (l.extend [event]).attempts = recorded l.attempts := by
  obtain ⟨opening, attempts⟩ := l
  cases attempts with
  | nil => rfl
  | cons a past => exact congrArg (recorded past ++ ·) (List.filterMap_cons_none hevent)

/-- An exception that answers a call was raised. -/
theorem raised_extend (l : Ledger) (event : Event) {e : Fault} (h : event.answer = .error e) : (l.extend [event]).Raised e := by
  obtain ⟨opening, attempts⟩ := l
  cases attempts with
  | nil => exact .inl ⟨event, .head _, h⟩
  | cons a past => exact .inr ⟨_, .head _, event, .head _, h⟩

namespace ProviderTransport

variable (t : ProviderTransport) (request : ProviderFetchRequest)

/-- What holds after an attempt, or after several: unless the lease was lost, they are all settled. -/
structure After {α : Type} (r : Except Fault α) (v : Locals) (l : Ledger) : Prop where
  stated : Stated request.cachedRecord (recorded l.attempts) v
  settled : r ≠ .error .leaseLost → ∀ a ∈ l.attempts, a.Settled
  raised : ∀ e, r = .error e → (e = .leaseLost ∨ e.isPermissionError) ∧ l.Raised e

/-- A result that a fetch stopped with: what was recorded, and an exception of the store or a configuration that explains its reason. -/
structure Stopped (l : Ledger) (r : FetchResult) : Prop where
  attempts : List.Forall₂ Matches r.attempts (recorded l.attempts)
  records : r.records = (recorded l.attempts).filterMap Finish.capture
  reason : (r.gaps = [.leaseLost] ∧ l.Raised .leaseLost) ∨ (r.gaps = [.providerBudgetExhausted] ∧ l.Raised .providerBudgetExceeded) ∨
    (r.gaps = [.sourcePolicyUnavailable] ∧ l.Raised .permissionError) ∨
    (l.attempts = [] ∧ (r.gaps = [.credentialsMissing] ∨ r.gaps = [.accountQuotaUnreviewed]))

/-- What holds when a fetch ends: its attempts were finished unless the lease was lost, and its result says what the store
recorded, or that the cached record was reused. -/
structure Concluded (l : Ledger) (r : Except Fault FetchResult) : Prop where
  settled : ¬ EndsLost r → ∀ a ∈ l.attempts, a.Settled
  truthful : ∀ result, r = .ok result → Truthful request.cachedRecord (recorded l.attempts) result ∨ Stopped l result ∨
    Reused request.cacheMode request.cachedRecord l result

variable {t request} {v : Locals} {l : Ledger} {sequence : ℕ}

/-- An attempt is prepared, and it is settled unless the lease is lost. -/
theorem attempt_ensures {deadline : ℚ} (hkey : t.descriptor.provider = .fred → t.apiKey ≠ none)
    (hbuilds : ∀ validator timeout, (∀ record, validator = some record → request.cachedRecord = some record) →
      ∃ http, t.httpRequest request validator timeout = .ok http)
    (hsequence : sequence = l.attempts.length + 1) (hlast : sequence ≤ 3) (hsettled : ∀ a ∈ l.attempts, a.Settled)
    (hstated : Stated request.cachedRecord (recorded l.attempts) v) :
    Ensures (t.monitor request) (t.attempt request deadline sequence)
      (fun r v' l' => After request r v' l' ∧ (∀ turn, r = .ok turn → l'.attempts.length = sequence) ∧
        (∀ result, r = .ok (.returned result) → Truthful request.cachedRecord (recorded l'.attempts) result) ∧
        (r = .ok .continued ∨ r = .ok .retried → ∃ f, (recorded l'.attempts).getLast? = some f ∧ Explains f .dispatchBudgetExhausted)) v l := by
  unfold attempt
  refine Action.ensures_read_bind.mpr (ensures_ask_bind ⟨hsequence, hlast, hsettled⟩ (fun id _ => ?_) fun e he _ => ?_)
  · refine Action.ensures_assign_bind.mpr ?_
    have hstated' : Stated request.cachedRecord (recorded l.attempts) { v with currentStatus := none } :=
      ⟨hstated.outcomes, hstated.records, hstated.validator⟩
    -- What holds when the attempt ends follows from how it ended.
    suffices h : Ensures (t.monitor request) _ (Inner request False l.opening sequence v.validator id l.attempts) { v with currentStatus := none }
        ⟨l.opening, ⟨sequence, v.validator, id, []⟩ :: l.attempts⟩ from h.mono fun r v' l' hinner => by
      obtain ⟨events, rfl, hstated, hended⟩ := hinner
      have hall : (finishes events).length = 1 → ∀ a ∈ (⟨sequence, v.validator, id, events⟩ :: l.attempts : List Attempt), a.Settled := by
        intro h a ha
        rcases List.mem_cons.mp ha with rfl | ha
        · exact h
        · exact hsettled a ha
      have hlength : (⟨sequence, v.validator, id, events⟩ :: l.attempts : List Attempt).length = sequence := hsequence.symm
      have hraised : ∀ {e}, (∃ event ∈ events, event.answer = .error e) →
          (⟨l.opening, ⟨sequence, v.validator, id, events⟩ :: l.attempts⟩ : Ledger).Raised e := fun h => .inr ⟨_, .head _, h⟩
      cases hended with
      | returned h htruthful =>
        exact ⟨⟨hstated, fun _ => hall h, nofun⟩, fun _ _ => hlength, fun result hresult => by cases hresult; exact htruthful, fun h => h.elim nofun nofun⟩
      | continued hdone hfailure =>
        refine ⟨⟨hstated, fun _ => hall hdone.1, nofun⟩, fun _ _ => hlength, nofun, fun _ => ?_⟩
        exact ⟨_, hdone.recorded.symm ▸ List.getLast?_concat, .inr (.inr ⟨hfailure, rfl⟩)⟩
      | retried hdone houtcome =>
        refine ⟨⟨hstated, fun _ => hall hdone.1, nofun⟩, fun _ _ => hlength, nofun, fun _ => ?_⟩
        exact ⟨_, hdone.recorded.symm ▸ List.getLast?_concat, .inr (.inl ⟨houtcome, by simp⟩)⟩
      | leaseLost h =>
        exact ⟨⟨hstated, fun h => absurd rfl h, fun e he => by cases he; exact ⟨.inl rfl, hraised h⟩⟩, nofun, nofun, fun h => h.elim nofun nofun⟩
      | refused _ hfinished h =>
        exact ⟨⟨hstated, fun _ => hall hfinished, fun e he => by cases he; exact ⟨.inr rfl, hraised h⟩⟩, nofun, nofun, fun h => h.elim nofun nofun⟩
      | left hhandlers => exact hhandlers.elim
    refine Action.ensures_outcome_bind.mpr (Action.Ensures.mono (block_ensures hstated' hkey fun timeout => hbuilds _ timeout hstated.validator) fun r v' l' hinner => ?_)
    cases r with
    | error e => exact handle_ensures hinner
    | ok turn =>
      obtain ⟨events, rfl, hstated, hended⟩ := hinner
      refine ⟨events, rfl, hstated, ?_⟩
      cases hended with
      | returned hsettled htruthful => exact .returned hsettled htruthful
      | continued hdone hfailure => exact .continued hdone hfailure
      | retried hdone houtcome => exact .retried hdone houtcome
  · have hfault : e = .leaseLost ∨ e.isPermissionError := by
      rcases he with he | ⟨-, rfl⟩ | ⟨-, rfl⟩ | ⟨-, rfl⟩
      · cases he
      · exact .inl rfl
      · exact .inr rfl
      · exact .inr rfl
    refine ⟨⟨?_, fun _ => settled_extend _ rfl hsettled, fun e' he' => ?_⟩, nofun, nofun, fun h => h.elim nofun nofun⟩
    · exact (recorded_extend ⟨.prepare sequence request.resource.url v.validator, .error e⟩ rfl).symm ▸ hstated
    · cases he'
      exact ⟨hfault, raised_extend _ _ rfl⟩

/-- The attempts that are left are made until one returns or their number is reached. -/
theorem attempts_ensures {deadline : ℚ} (hkey : t.descriptor.provider = .fred → t.apiKey ≠ none)
    (hbuilds : ∀ validator timeout, (∀ record, validator = some record → request.cachedRecord = some record) →
      ∃ http, t.httpRequest request validator timeout = .ok http)
    (left : ℕ) (hleft : l.attempts.length + left = 3) (hsettled : ∀ a ∈ l.attempts, a.Settled)
    (hstated : Stated request.cachedRecord (recorded l.attempts) v)
    (hlast : left < 3 → ∃ f, (recorded l.attempts).getLast? = some f ∧ Explains f .dispatchBudgetExhausted) :
    Ensures (t.monitor request) (t.attempts request deadline (List.range' (l.attempts.length + 1) left))
      (fun r v' l' => After request r v' l' ∧ ∀ result, r = .ok result → Truthful request.cachedRecord (recorded l'.attempts) result) v l := by
  -- The fetch stops after attempts that another one could follow.
  have hstop : ∀ (v : Locals) (l : Ledger), Stated request.cachedRecord (recorded l.attempts) v → (∀ a ∈ l.attempts, a.Settled) →
      (∃ f, (recorded l.attempts).getLast? = some f ∧ Explains f .dispatchBudgetExhausted) →
      Ensures (t.monitor request) (incomplete .dispatchBudgetExhausted) (fun r v' l' =>
        After request r v' l' ∧ ∀ result, r = .ok result → Truthful request.cachedRecord (recorded l'.attempts) result) v l := by
    intro v l hstated hsettled hlast
    obtain ⟨f, hf, hexplains⟩ := hlast
    obtain ⟨ends, hends⟩ := List.getLast?_eq_some_iff.mp hf
    refine ⟨⟨hstated, fun _ => hsettled, nofun⟩, fun result hresult => ?_⟩
    cases hresult
    rw [hends] at hstated ⊢
    exact hstated.truthful hexplains rfl rfl rfl
  induction left generalizing v l with
  | zero => exact hstop v l hstated hsettled (hlast (by omega))
  | succ left ih =>
    rw [List.range'_succ, attempts]
    refine ensures_seq (attempt_ensures hkey hbuilds rfl (by omega) hsettled hstated) (fun turn v' l' h => ?_) fun e v' l' h => ?_
    · have hlength := h.2.1 turn rfl
      have hsettled := h.1.settled nofun
      cases turn with
      | returned result => exact ⟨⟨h.1.stated, fun _ => hsettled, nofun⟩, fun result' hresult => by cases hresult; exact h.2.2.1 result rfl⟩
      | continued =>
        have hnext := ih (by omega) hsettled h.1.stated fun _ => h.2.2.2 (.inl rfl)
        rwa [hlength] at hnext
      | retried =>
        have hlast := h.2.2.2 (.inr rfl)
        refine Action.ensures_ite.mpr ⟨fun _ => ?_, fun _ => ?_⟩
        · refine ensures_silent rfl fun reading _ => ?_
          have hrecorded := recorded_extend (l := l') (answered .monotonic reading) rfl
          have hsettled' := settled_extend (answered .monotonic reading) rfl hsettled
          refine Action.ensures_ite.mpr ⟨fun _ => hstop _ _ (hrecorded ▸ h.1.stated) hsettled' (hrecorded ▸ hlast), fun _ => ensures_silent rfl fun _ _ => ?_⟩
          have hrecorded' := recorded_extend (l := l'.extend [answered .monotonic reading]) (answered (.sleep (2 ^ (l.attempts.length + 1 - 1))) ()) rfl
          have hnext := ih (by simp only [length_extend]; omega)
            (settled_extend (answered (.sleep (2 ^ (l.attempts.length + 1 - 1))) ()) rfl hsettled') (hrecorded'.trans hrecorded ▸ h.1.stated)
            fun _ => hrecorded'.trans hrecorded ▸ hlast
          rwa [length_extend, length_extend, hlength] at hnext
        · have hnext := ih (by omega) hsettled h.1.stated fun _ => hlast
          rwa [hlength] at hnext
    · exact ⟨⟨h.1.stated, fun hne => h.1.settled fun heq => hne (by cases heq; rfl), fun e' he' => h.1.raised e' (by cases he'; rfl)⟩, nofun⟩

/-- The cached record is verified before anything is attempted. -/
theorem verifiedCache_ensures {post : Except Fault (Option RawRecord) → Locals → Ledger → Prop} (hattempts : l.attempts = [])
    (hvalue : ∀ cached l, l.attempts = [] → Checked request.cachedRecord l cached → post (.ok cached) v l)
    (herror : ∀ e l, l.attempts = [] → post (.error e) v l) :
    Ensures (t.monitor request) (t.verifiedCache request) post v l := by
  obtain ⟨opening, attempts⟩ := l
  subst hattempts
  unfold verifiedCache
  split
  case h_1 => exact hvalue none _ rfl nofun
  case h_2 record hrecord =>
    refine Action.ensures_outcome_bind.mpr (verify_ensures ?_ fun e events _ _ => ?_)
    · refine hvalue _ _ rfl fun record' hrecord' => ?_
      split at hrecord'
      · cases hrecord'
        exact ⟨hrecord, List.sublist_append_left _ _⟩
      · cases hrecord'
    · exact Action.ensures_ite.mpr ⟨fun _ => hvalue none _ rfl nofun, fun _ => herror e _ rfl⟩

/-- After the lease was checked, a fresh record is reused or attempts are made. -/
theorem guarded_ensures {cached : Option RawRecord} {deadline : ℚ} (hattempts : l.attempts = []) (hstated : Stated request.cachedRecord [] v)
    (hchecked : Checked request.cachedRecord l cached) (hkey : t.descriptor.provider = .fred → t.apiKey ≠ none)
    (hbuilds : ∀ validator timeout, (∀ record, validator = some record → request.cachedRecord = some record) →
      ∃ http, t.httpRequest request validator timeout = .ok http) :
    Ensures (t.monitor request) (t.guarded request cached deadline)
      (fun r v' l' => After request r v' l' ∧ ∀ result, r = .ok result →
        Truthful request.cachedRecord (recorded l'.attempts) result ∨ Reused request.cacheMode request.cachedRecord l' result) v l := by
  obtain ⟨opening, attempts⟩ := l
  subst hattempts
  have hnone : ∀ opening, ∀ a ∈ (Ledger.mk opening []).attempts, a.Settled := fun _ => nofun
  have hattempts : ∀ opening, Ensures (t.monitor request) (t.attempts request deadline [1, 2, 3])
      (fun r v' l' => After request r v' l' ∧ ∀ result, r = .ok result →
        Truthful request.cachedRecord (recorded l'.attempts) result ∨ Reused request.cacheMode request.cachedRecord l' result) v ⟨opening, []⟩ := fun opening =>
    Action.Ensures.mono (attempts_ensures hkey hbuilds 3 rfl (hnone opening) hstated fun h => absurd h (by decide))
      fun r v' l' h => ⟨h.1, fun result hresult => .inl (h.2 result hresult)⟩
  unfold guarded
  refine ensures_ask_bind trivial (fun _ _ => ?_) fun e he _ => ?_
  · split
    case h_1 record hrecord =>
      have hreuse : request.cacheMode = .reuse ∧ cached = some record := by
        split at hrecord
        · exact ⟨‹_›, hrecord⟩
        · cases hrecord
      refine ensures_silent rfl fun instant _ => Action.ensures_ite.mpr ⟨fun _ => ?_, fun _ => hattempts _⟩
      refine ⟨⟨hstated, fun _ => hnone _, nofun⟩, fun result hresult => ?_⟩
      cases hresult
      have hrecord := hchecked record hreuse.2
      exact .inr ⟨hreuse.1, rfl, record, hrecord.1, rfl, .cons _ (.cons _ hrecord.2)⟩
    case h_2 => exact hattempts _
  · have hfault : e = .leaseLost ∨ e.isPermissionError := by
      rcases he with he | ⟨-, rfl⟩ | ⟨he, -⟩ | ⟨-, rfl⟩
      · cases he
      · exact .inl rfl
      · cases he
      · exact .inr rfl
    refine ⟨⟨hstated, fun _ => hnone _, fun e' he' => ?_⟩, nofun⟩
    cases he'
    exact ⟨hfault, raised_extend ⟨opening, []⟩ ⟨.guard, .error e⟩ rfl⟩

/-- What was not attempted is concluded. -/
theorem concluded_unattempted {e : Fault} (h : l.attempts = []) : Concluded request l (.error e) :=
  ⟨fun _ => h ▸ nofun, nofun⟩

/-- A live fetch ends as it should. -/
theorem live_ensures {leaseExpiresAt : Instant} (hattempts : l.attempts = []) (hstated : Stated request.cachedRecord [] v)
    (hkey : t.descriptor.provider = .fred → t.apiKey ≠ none)
    (hbuilds : ∀ validator timeout, (∀ record, validator = some record → request.cachedRecord = some record) →
      ∃ http, t.httpRequest request validator timeout = .ok http) :
    Ensures (t.monitor request) (t.live request leaseExpiresAt) (fun r _ l => Concluded request l r) v l := by
  unfold live
  rw [Action.ensures_bind]
  refine verifiedCache_ensures hattempts (fun cached l hattempts hchecked => ?_) fun e l hattempts => concluded_unattempted hattempts
  obtain ⟨opening, attempts⟩ := l
  subst hattempts
  refine ensures_silent rfl fun reading _ => ensures_silent rfl fun instant _ => ?_
  refine Action.ensures_assign_bind.mpr (Action.ensures_outcome_bind.mpr ?_)
  refine Action.Ensures.mono (guarded_ensures rfl ⟨hstated.outcomes, hstated.records, fun record hrecord => ?_⟩ (fun record hrecord => ?_) hkey hbuilds)
    fun r v' l' h => ?_
  · obtain ⟨hsome, -⟩ := Option.filter_eq_some_iff.mp hrecord
    split at hsome
    · exact (hchecked record hsome).1
    · cases hsome
  · exact ⟨(hchecked record hrecord).1, .cons _ (.cons _ (hchecked record hrecord).2)⟩
  · obtain ⟨⟨hstated, hsettled, hraised⟩, hreported⟩ := h
    cases r with
    | ok result =>
      refine ⟨fun _ => hsettled nofun, fun result' hresult => ?_⟩
      cases hresult
      exact (hreported result rfl).imp_right .inr
    | error e =>
      obtain ⟨he, hraised⟩ := hraised e rfl
      have hstopped : ∀ reason, ((reason = .leaseLost ∧ l'.Raised .leaseLost) ∨ (reason = .providerBudgetExhausted ∧ l'.Raised .providerBudgetExceeded) ∨
          (reason = .sourcePolicyUnavailable ∧ l'.Raised .permissionError)) → Stopped l' ⟨v'.records, v'.outcomes, [], .incomplete, [reason], none⟩ := by
        intro reason h
        refine ⟨hstated.outcomes, hstated.records, ?_⟩
        rcases h with ⟨rfl, h⟩ | ⟨rfl, h⟩ | ⟨rfl, h⟩
        · exact .inl ⟨rfl, h⟩
        · exact .inr (.inl ⟨rfl, h⟩)
        · exact .inr (.inr (.inl ⟨rfl, h⟩))
      cases e with
      | leaseLost =>
        refine ⟨fun hlost => absurd (.inr ⟨_, rfl, rfl⟩) hlost, fun result hresult => ?_⟩
        cases hresult
        exact .inr (.inl (hstopped _ (.inl ⟨rfl, hraised⟩)))
      | providerBudgetExceeded =>
        refine ⟨fun _ => hsettled nofun, fun result hresult => ?_⟩
        cases hresult
        exact .inr (.inl (hstopped _ (.inr (.inl ⟨rfl, hraised⟩))))
      | permissionError =>
        refine ⟨fun _ => hsettled nofun, fun result hresult => ?_⟩
        cases hresult
        exact .inr (.inl (hstopped _ (.inr (.inr ⟨rfl, hraised⟩))))
      | _ => exact he.elim nofun nofun

/-- The trace law. Whatever the calls of a live fetch are answered, if the HTTP library accepts its requests and the answers
are regular, the fetch makes allowed calls only and ends as it should. -/
theorem fetch_reports_ledger (hlive : request.cacheMode ≠ .replay)
    (hbuilds : ∀ validator timeout, (∀ record, validator = some record → request.cachedRecord = some record) →
      ∃ http, t.httpRequest request validator timeout = .ok http)
    {trace : List Event} {result : Except Fault FetchResult} {v : Locals} (hrun : (t.program request).Runs trace (result, v))
    (hanswers : (t.monitor request).Admitted .empty trace) :
    (t.monitor request).Permitted .empty trace ∧ Concluded request ((t.monitor request).after .empty trace) result := by
  have hunattempted : ∀ reason, reason = .credentialsMissing ∨ reason = .accountQuotaUnreviewed →
      Concluded request .empty (.ok { gaps := [reason], completeness := .incomplete }) := by
    intro reason hreason
    refine ⟨fun _ => nofun, fun result hresult => ?_⟩
    cases hresult
    exact .inr (.inl ⟨.nil, rfl, .inr (.inr (.inr ⟨rfl, hreason.imp (congrArg ([·])) (congrArg ([·]))⟩))⟩)
  have hfetch : Ensures (t.monitor request) (t.fetch request) (fun r _ l => Concluded request l r)
      { url := request.resource.url, validator := none } .empty := by
    unfold fetch
    refine Action.ensures_ite.mpr ⟨fun _ => concluded_unattempted rfl, fun _ => Action.ensures_ite.mpr ⟨fun h => absurd h hlive, fun _ => ?_⟩⟩
    refine Action.ensures_ite.mpr ⟨fun _ => hunattempted _ (.inl rfl), fun hcredentials => Action.ensures_ite.mpr ⟨fun _ => hunattempted _ (.inr rfl), fun _ => ?_⟩⟩
    have hkey : t.descriptor.provider = .fred → t.apiKey ≠ none := by
      intro hfred hnone
      exact hcredentials ⟨by rw [hfred]; decide, by rw [key, hnone]; rfl⟩
    split
    case h_1 => exact concluded_unattempted rfl
    case h_2 leaseExpiresAt _ => exact live_ensures rfl ⟨.nil, rfl, nofun⟩ hkey hbuilds
  exact Program.Ensures.runs hfetch hrun hanswers

section Samples

open SecTransport (plainAnswers sampleHash sampleBody plain)

/-- The transport of a sample. -/
def sampleTransport : ProviderTransport where
  descriptor := ⟨1, "treasury", 2, "terms", .treasury, 3600000000, false⟩
  apiKey := none
  configuredLimit := providerBodyLimit
  library := ⟨fun _ => none, fun _ _ => none, fun _ => none, fun _ => true⟩
  limited := by decide

/-- A fetch that looks at no cache. -/
def sampleRequest : ProviderFetchRequest where
  resource := ⟨.treasury, "https://home.treasury.gov/xml", "daily/202609", [("month", "202609")], sampleHash⟩
  leaseExpiresAt := some (seconds 600)
  cacheMode := .refresh
  cachedRecord := none
  replayRecords := []
  leased := SecTransport.sampleRequest.leased
  replayed := SecTransport.sampleRequest.replayed
  pinned := SecTransport.sampleRequest.pinned
  belongs := nofun

/-- Plain events are regular. -/
theorem plain_admitted {trace : List Event} (h : trace.all plain) : (sampleTransport.monitor sampleRequest).Admitted .empty trace := by
  intro past event rest htrace
  have hall := List.all_eq_true.mp h
  have hpast : ∀ x ∈ past, plain x := fun x hx => hall x (htrace ▸ List.mem_append_left _ hx)
  have hevent : plain event := hall event (htrace ▸ List.mem_append_right _ (.head _))
  have hok : ∀ e, event.answer ≠ .error e := by
    intro e he
    obtain ⟨c, answer⟩ := event
    change answer = .error e at he
    subst he
    cases c <;> cases hevent
  have hin := events_after raises (sampleTransport.Regular sampleRequest) past
  refine ⟨fun e he => absurd he (hok e), fun _ _ => hok, fun _ _ _ _ _ => hok, ?_⟩
  intro a past' reading written body before http response instant requestedAt fields hattempts hevents hnow hsend hdispatched
  have hmem : ∀ x ∈ a.events, plain x := fun x hx => hpast x (hin a (hattempts ▸ .head _) hx)
  rw [hevents] at hmem
  have hstatus := of_decide_eq_true (Bool.and_eq_true _ _ ▸ hmem _ (.tail _ (.tail _ hsend)) : _ ∧ _).1
  have hbody : body = sampleBody := of_decide_eq_true (hmem _ (.tail _ (.head _)))
  have hrequested : requestedAt = 0 := of_decide_eq_true (hmem _ (.tail _ (.tail _ hdispatched)))
  subst hnow
  have hinstant : instant = (0 : Instant) := of_decide_eq_true hevent
  subst hbody hrequested hinstant
  change ((0 : ℤ) ≤ 0 ∧ (0 : ℤ) ≤ 0) ∧ (100 ≤ response.status ∧ response.status ≤ 599) ∧ sampleBody.blobKey ≠ "" ∧
    isSha256 sampleHash ∧ isSha256 sampleHash
  rw [hstatus]
  decide +kernel

/-- The run of a fetch with some answers. -/
abbrev sampleRun (answers : (c : Call) → Answered Fault Value c) : List Event × Except Fault FetchResult × Locals :=
  (sampleTransport.program sampleRequest).play (fun _ => answers) []

theorem fetch_reports_ledger_sample :
    (sampleTransport.monitor sampleRequest).Permitted .empty (sampleRun plainAnswers).1 ∧
      Concluded sampleRequest ((sampleTransport.monitor sampleRequest).after .empty (sampleRun plainAnswers).1) (sampleRun plainAnswers).2.1 ∧
      (sampleRun plainAnswers).2.1.toOption.any FetchResult.usable := by
  have hlaw := fetch_reports_ledger (by decide) (fun _ _ _ => ⟨_, rfl⟩)
    (Program.runs_play (fun _ => plainAnswers) (sampleTransport.program sampleRequest) []) (plain_admitted (by decide +kernel))
  exact ⟨hlaw.1, hlaw.2, by decide +kernel⟩

/-- Answers of a source that is busy and a coordinator that fails when it is asked for a pause. -/
def busyAnswers (c : Call) : Answered Fault Value c :=
  match c with
  | .send _ => .ok ⟨429, fun _ => none⟩
  | .cooldown _ => .error .coordinationUnavailable
  | c => plainAnswers c

/-- An exception is one that its call raises. -/
def raisesOwn (event : Event) : Bool :=
  match event with
  | ⟨c, .error e⟩ => c.raises e
  | ⟨_, .ok _⟩ => true

/-- An attempt is not always finished once: a pause that is refused after an error was recorded finishes the attempt again. -/
theorem refused_pause_finishes_twice :
    ¬ ∀ (t : ProviderTransport) (request : ProviderFetchRequest) (trace : List Event) (result : Except Fault FetchResult) (v : Locals),
      request.cacheMode ≠ .replay → (t.program request).Runs trace (result, v) → (fetchMonitor raises fun _ _ => True).Admitted .empty trace →
        ¬ EndsLost result → ∀ a ∈ ((t.monitor request).after .empty trace).attempts, a.Settled := by
  intro h
  have hown : (sampleRun busyAnswers).1.all raisesOwn := by decide +kernel
  have htwice : ((sampleTransport.monitor sampleRequest).after .empty (sampleRun busyAnswers).1).attempts.map (fun a => (finishes a.events).length) = [2] := by
    decide +kernel
  have hgaps : (sampleRun busyAnswers).2.1.toOption.map FetchResult.gaps = some [.coordinationUnavailable] := by decide +kernel
  have hrun : (sampleTransport.program sampleRequest).Runs (sampleRun busyAnswers).1 (sampleRun busyAnswers).2 := Program.runs_play _ _ _
  have hlive : sampleRequest.cacheMode ≠ .replay := by decide
  generalize sampleRun busyAnswers = run at *
  have hadmitted : (fetchMonitor raises fun _ _ => True).Admitted .empty run.1 := by
    intro past event rest htrace
    have hevent := List.all_eq_true.mp hown event (htrace ▸ List.mem_append_right _ (.head _))
    refine ⟨fun e he => .inl ?_, trivial⟩
    obtain ⟨c, answer⟩ := event
    change answer = .error e at he
    subst he
    exact hevent
  have hended : ¬ EndsLost run.2.1 := by
    intro hlost
    rcases hlost with hlost | ⟨result, hlost, hlease⟩
    · rw [hlost] at hgaps
      cases hgaps
    · rw [hlost] at hgaps
      have hsome := Option.some.inj hgaps
      rw [hlease] at hsome
      cases hsome
  have hsettled := h _ _ _ _ run.2.2 hlive hrun hadmitted hended
  have hall : ∀ n ∈ ((sampleTransport.monitor sampleRequest).after .empty run.1).attempts.map (fun a => (finishes a.events).length), n = 1 := by
    intro n hn
    obtain ⟨a, ha, rfl⟩ := List.mem_map.mp hn
    exact hsettled a ha
  rw [htwice] at hall
  exact absurd (hall 2 (.head _)) (by decide)

end Samples

end ProviderTransport

end EquityEval.Transport
