import EquityEval.Transport.SecParts

/-!
# The trace law of the SEC transport

An attempt is settled when it ends, unless the lease was lost, and so are all attempts of a fetch. From this
follows the law of all live fetches.
-/

namespace EquityEval.Transport

open FloatArithmetic Interaction
open Workflow (Uuid Instant isSha256 seconds)
open Interaction.Action (Ensures)

namespace SecTransport

variable (t : SecTransport) (request : FetchRequest)

section Parts

variable {t request} {opening : List Event} {sequence : ℕ} {validator : Option RawRecord} {id : Uuid} {events : List Event} {past : List Attempt}
  {v : Locals} {l : Ledger} {α β : Type}

/-- Variables agree with the attempts when more happens. -/
theorem standing_extend {cachedRecord : Option RawRecord} (event : Event) (h : Standing cachedRecord l.attempts v) :
    Standing cachedRecord (l.extend [event]).attempts v := by
  obtain ⟨opening, attempts⟩ := l
  cases attempts with
  | nil => exact h
  | cons a past => exact Standing.extend event h

variable (request) in
/-- What holds after an attempt, or after several: unless the lease was lost, they are all settled. -/
structure After (r : Except Fault α) (v : Locals) (l : Ledger) : Prop where
  standing : Standing request.cachedRecord l.attempts v
  settled : r ≠ .error .leaseLost → ∀ a ∈ l.attempts, a.Settled
  raised : ∀ e, r = .error e → e = .leaseLost ∨ e = .coordinationUnavailable

/-- An attempt is prepared, and it is settled unless the lease is lost. -/
theorem attempt_ensures {cached : Option RawRecord} {deadline : ℚ} (hcached : ∀ record, cached = some record → request.cachedRecord = some record)
    (hbuilds : ∀ validator url timeout, (∀ record, validator = some record → request.cachedRecord = some record) →
      ∃ http, t.httpRequest request url validator timeout = .ok http)
    (hsequence : sequence = l.attempts.length + 1) (hlast : sequence ≤ 3) (hsettled : ∀ a ∈ l.attempts, a.Settled)
    (hstanding : Standing request.cachedRecord l.attempts v) :
    Ensures (t.monitor request) (t.attempt request cached deadline sequence)
      (fun r v' l' => After request r v' l' ∧ (∀ turn, r = .ok turn → l'.attempts.length = sequence) ∧
        ∀ result, r = .ok (.returned result) → Reported request.cachedRecord l'.attempts result) v l := by
  unfold attempt
  refine Action.ensures_assign_bind.mpr (Action.ensures_read_bind.mpr ?_)
  have hstanding' : Standing request.cachedRecord l.attempts { v with currentStatus := none } := ⟨hstanding.records, hstanding.validator⟩
  refine ensures_ask_bind ⟨hsequence, hlast, hsettled⟩ (fun id _ => ?_) fun e he _ => ?_
  · -- What holds when the attempt ends follows from how it ended.
    suffices h : Ensures (t.monitor request) _ (Inner request False l.opening sequence v.validator id l.attempts) { v with currentStatus := none }
        ⟨l.opening, ⟨sequence, v.validator, id, []⟩ :: l.attempts⟩ from h.mono fun r v' l' hinner => by
      obtain ⟨events, rfl, hstanding, hended⟩ := hinner
      have hall : (finishes events).length = 1 → ∀ a ∈ (⟨sequence, v.validator, id, events⟩ :: l.attempts : List Attempt), a.Settled := by
        intro h a ha
        rcases List.mem_cons.mp ha with rfl | ha
        · exact h
        · exact hsettled a ha
      have hlength : (⟨sequence, v.validator, id, events⟩ :: l.attempts : List Attempt).length = sequence := hsequence.symm
      cases hended with
      | returned h hreported => exact ⟨⟨hstanding, fun _ => hall h, nofun⟩, fun _ _ => hlength, fun result hresult => by cases hresult; exact hreported⟩
      | continued h | retried h => exact ⟨⟨hstanding, fun _ => hall h, nofun⟩, fun _ _ => hlength, nofun⟩
      | leaseLost => exact ⟨⟨hstanding, fun h => absurd rfl h, fun e he => .inl (Except.error.inj he).symm⟩, nofun, nofun⟩
      | coordinationUnavailable h => exact ⟨⟨hstanding, fun _ => hall h, fun e he => .inr (Except.error.inj he).symm⟩, nofun, nofun⟩
      | handled hhandlers => exact hhandlers.elim
    refine Action.ensures_outcome_bind.mpr (takePermit_ensures rfl (fun permit requestedAt events hopen hunsent hdispatched => ?_) fun e events he hopen => ?_)
    · refine ensures_silent rfl fun started _ => ensures_silent rfl fun reading _ => Action.ensures_outcome_bind.mpr ?_
      have hopen' : finishes (answered .monotonic reading :: answered .monotonic started :: (events ++ [])) = [] := by
        rw [List.append_nil]
        exact hopen
      have hunsent' : ∀ event ∈ answered .monotonic reading :: answered .monotonic started :: (events ++ []), isSend event = false := by
        intro event hevent
        simp only [List.append_nil, List.mem_cons] at hevent
        rcases hevent with rfl | rfl | hevent
        · rfl
        · rfl
        · exact hunsent event hevent
      refine Action.Ensures.mono (dispatch_ensures hcached hopen' hstanding' rfl (hbuilds _ _ _ hstanding.validator) hunsent'
        (.cons _ (.cons _ (hdispatched.trans (List.sublist_append_left _ _))))) fun r v' l' hinner => ?_
      cases r with
      | error e => exact handle_ensures hinner
      | ok turn =>
        obtain ⟨events, rfl, hstanding, hended⟩ := hinner
        refine ⟨events, rfl, hstanding, ?_⟩
        cases hended with
        | returned hsettled hreported => exact .returned hsettled hreported
        | continued hsettled => exact .continued hsettled
        | retried hsettled => exact .retried hsettled
    · rcases he with rfl | he
      · exact ⟨_, rfl, hstanding'.cons _, .leaseLost⟩
      · obtain ⟨reason, hreason⟩ := Option.isSome_iff_exists.mp he
        simp only [hreason]
        exact failed_ensures hopen (hstanding'.cons _) fun _ _ hsettled hstanding => incomplete_ensures hsettled hstanding
  · rcases he with he | ⟨-, rfl⟩
    · cases he
    · exact ⟨⟨standing_extend _ hstanding', fun h => absurd rfl h, fun e he => .inl (Except.error.inj he).symm⟩, nofun, nofun⟩

/-- The attempts that are left are made until one returns or their number is reached. -/
theorem attempts_ensures {cached : Option RawRecord} {deadline : ℚ} (hcached : ∀ record, cached = some record → request.cachedRecord = some record)
    (hbuilds : ∀ validator url timeout, (∀ record, validator = some record → request.cachedRecord = some record) →
      ∃ http, t.httpRequest request url validator timeout = .ok http)
    (left : ℕ) (hleft : l.attempts.length + left = 3) (hsettled : ∀ a ∈ l.attempts, a.Settled) (hstanding : Standing request.cachedRecord l.attempts v) :
    Ensures (t.monitor request) (t.attempts request cached deadline (List.range' (l.attempts.length + 1) left))
      (fun r v' l' => After request r v' l' ∧ ∀ result, r = .ok result → Reported request.cachedRecord l'.attempts result) v l := by
  induction left generalizing v l with
  | zero =>
    refine ⟨⟨hstanding, fun _ => hsettled, nofun⟩, fun result hresult => ?_⟩
    cases hresult
    exact hstanding.reported rfl (List.cons_ne_nil _ _)
  | succ left ih =>
    rw [List.range'_succ, attempts]
    refine ensures_seq (attempt_ensures hcached hbuilds rfl (by omega) hsettled hstanding) (fun turn v' l' h => ?_) fun e v' l' h => ?_
    · have hlength := h.2.1 turn rfl
      have hsettled := h.1.settled nofun
      cases turn with
      | returned result => exact ⟨⟨h.1.standing, fun _ => hsettled, nofun⟩, fun result' hresult => by cases hresult; exact h.2.2 result rfl⟩
      | continued =>
        have hnext := ih (v := v') (l := l') (by omega) hsettled h.1.standing
        rwa [hlength] at hnext
      | retried =>
        have hstop : ∀ l : Ledger, Standing request.cachedRecord l.attempts v' → (∀ a ∈ l.attempts, a.Settled) →
            Ensures (t.monitor request) (incomplete .dispatchBudgetExhausted) (fun r v' l' =>
              After request r v' l' ∧ ∀ result, r = .ok result → Reported request.cachedRecord l'.attempts result) v' l := by
          intro l hstanding hsettled
          refine ⟨⟨hstanding, fun _ => hsettled, nofun⟩, fun result hresult => ?_⟩
          cases hresult
          exact hstanding.reported rfl (List.cons_ne_nil _ _)
        refine Action.ensures_ite.mpr ⟨fun _ => ?_, fun _ => ?_⟩
        · refine ensures_silent rfl fun jitter _ => ensures_silent rfl fun reading _ => ?_
          have hstanding' := standing_extend (answered .monotonic reading) (standing_extend (answered .jitter jitter) h.1.standing)
          have hsettled' := settled_extend (answered .monotonic reading) rfl (settled_extend (answered .jitter jitter) rfl hsettled)
          refine Action.ensures_ite.mpr ⟨fun _ => hstop _ hstanding' hsettled', fun _ => ensures_silent rfl fun _ _ => ?_⟩
          have hnext := ih (by simp only [length_extend]; omega)
            (settled_extend (answered (.sleep (plus (2 ^ (l.attempts.length + 1 - 1)) (max 0 (min 1 jitter)))) ()) rfl hsettled') (standing_extend _ hstanding')
          rwa [length_extend, length_extend, length_extend, hlength] at hnext
        · have hnext := ih (v := v') (l := l') (by omega) hsettled h.1.standing
          rwa [hlength] at hnext
    · exact ⟨⟨h.1.standing, fun hne => h.1.settled fun heq => hne (by cases heq; rfl), fun e' he' => h.1.raised e' (by cases he'; rfl)⟩, nofun⟩

/-- The cached record is verified before anything is attempted. -/
theorem verifiedCache_ensures {post : Except Fault (Option RawRecord) → Locals → Ledger → Prop} (hattempts : l.attempts = [])
    (hvalue : ∀ cached l, l.attempts = [] → Checked request.cachedRecord l cached → post (.ok cached) v l)
    (herror : ∀ e l, l.attempts = [] → post (.error e) v l) :
    Ensures (t.monitor request) (t.verifiedCache request) post v l := by
  obtain ⟨opening, attempts⟩ := l
  subst hattempts
  unfold verifiedCache
  split
  case h_1 => exact hvalue none _ rfl nofun
  case h_2 record hrecord =>
    refine Action.ensures_outcome_bind.mpr (verify_ensures ?_ fun e events _ _ => ?_)
    · refine hvalue _ _ rfl fun record' hrecord' => ?_
      split at hrecord'
      · cases hrecord'
        exact ⟨hrecord, List.sublist_append_left _ _⟩
      · cases hrecord'
    · exact Action.ensures_ite.mpr ⟨fun _ => hvalue none _ rfl nofun, fun _ => herror e _ rfl⟩

/-- After the lease was checked, a fresh record is reused or attempts are made. -/
theorem guarded_ensures {cached : Option RawRecord} {deadline : ℚ} (hattempts : l.attempts = []) (hrecords : v.records = [])
    (hvalidator : ∀ record, v.validator = some record → request.cachedRecord = some record) (hchecked : Checked request.cachedRecord l cached)
    (hbuilds : ∀ validator url timeout, (∀ record, validator = some record → request.cachedRecord = some record) →
      ∃ http, t.httpRequest request url validator timeout = .ok http) :
    Ensures (t.monitor request) (t.guarded request cached deadline)
      (fun r v' l' => After request r v' l' ∧
        ∀ result, r = .ok result → Reported request.cachedRecord l'.attempts result ∨ Reused request.cacheMode request.cachedRecord l' result) v l := by
  obtain ⟨opening, attempts⟩ := l
  subst hattempts
  have hstanding : ∀ opening, Standing request.cachedRecord (Ledger.mk opening []).attempts v := fun _ => ⟨by simp [hrecords], hvalidator⟩
  have hnone : ∀ opening, ∀ a ∈ (Ledger.mk opening []).attempts, a.Settled := fun _ => nofun
  have hattempts : ∀ opening, Ensures (t.monitor request) (t.attempts request cached deadline [1, 2, 3])
      (fun r v' l' => After request r v' l' ∧
        ∀ result, r = .ok result → Reported request.cachedRecord l'.attempts result ∨ Reused request.cacheMode request.cachedRecord l' result) v ⟨opening, []⟩ := fun opening =>
    Action.Ensures.mono (attempts_ensures (fun record h => (hchecked record h).1) hbuilds 3 rfl (hnone opening) (hstanding opening))
      fun r v' l' h => ⟨h.1, fun result hresult => .inl (h.2 result hresult)⟩
  unfold guarded
  refine ensures_ask_bind trivial (fun _ _ => ?_) fun e he _ => ?_
  · split
    case h_1 record hrecord =>
      have hreuse : request.cacheMode = .reuse ∧ cached = some record := by
        split at hrecord
        · exact ⟨‹_›, hrecord⟩
        · cases hrecord
      refine ensures_silent rfl fun instant _ => Action.ensures_ite.mpr ⟨fun _ => ?_, fun _ => hattempts _⟩
      refine ⟨⟨hstanding _, fun _ => hnone _, nofun⟩, fun result hresult => ?_⟩
      cases hresult
      have hrecord := hchecked record hreuse.2
      exact .inr ⟨hreuse.1, rfl, record, hrecord.1, rfl, .cons _ (.cons _ hrecord.2)⟩
    case h_2 => exact hattempts _
  · rcases he with he | ⟨-, rfl⟩
    · cases he
    · exact ⟨⟨hstanding _, fun _ => hnone _, fun e he => .inl (Except.error.inj he).symm⟩, nofun⟩

end Parts

/-- What holds when a fetch ends: its attempts were finished unless the lease was lost, the new records of its result were
captured by them, and a usable result ends with a record that the last attempt earned or that was reused. -/
structure Concluded (l : Ledger) (r : Except Fault FetchResult) : Prop where
  settled : ¬ EndsLost r → ∀ a ∈ l.attempts, a.Settled
  records : ∀ result, r = .ok result → ∀ record ∈ result.records,
    request.cachedRecord = some record ∨ ∃ a ∈ l.attempts, ∃ outcome, Captured a outcome record
  usable : ∀ result, r = .ok result → result.usable →
    (∃ a past record, l.attempts = a :: past ∧ result.records.getLast? = some record ∧ Earned a record) ∨ Reused request.cacheMode request.cachedRecord l result

variable {t request} {v : Locals} {l : Ledger}

/-- What was not attempted is concluded. -/
theorem concluded_unattempted {e : Fault} (h : l.attempts = []) : Concluded request l (.error e) :=
  ⟨fun _ => h ▸ nofun, nofun, nofun⟩

/-- A live fetch ends as it should. -/
theorem live_ensures {leaseExpiresAt : Instant} (hattempts : l.attempts = []) (hrecords : v.records = [])
    (hbuilds : ∀ validator url timeout, (∀ record, validator = some record → request.cachedRecord = some record) →
      ∃ http, t.httpRequest request url validator timeout = .ok http) :
    Ensures (t.monitor request) (t.live request leaseExpiresAt) (fun r _ l => Concluded request l r) v l := by
  unfold live
  rw [Action.ensures_bind]
  refine verifiedCache_ensures hattempts (fun cached l hattempts hchecked => ?_) fun e l hattempts => concluded_unattempted hattempts
  obtain ⟨opening, attempts⟩ := l
  subst hattempts
  refine ensures_silent rfl fun instant _ => ensures_silent rfl fun reading _ => ?_
  refine Action.ensures_assign_bind.mpr (Action.ensures_outcome_bind.mpr ?_)
  refine Action.Ensures.mono (guarded_ensures rfl hrecords (fun record hrecord => ?_) (fun record hrecord => ?_) hbuilds) fun r v' l' h => ?_
  · obtain ⟨hsome, -⟩ := Option.filter_eq_some_iff.mp hrecord
    split at hsome
    · exact (hchecked record hsome).1
    · cases hsome
  · exact ⟨(hchecked record hrecord).1, .cons _ (.cons _ (hchecked record hrecord).2)⟩
  · obtain ⟨⟨hstanding, hsettled, hraised⟩, hreported⟩ := h
    cases r with
    | ok result =>
      refine ⟨fun _ => hsettled nofun, fun result' hresult => ?_, fun result' hresult husable => ?_⟩
      · cases hresult
        rcases hreported result rfl with h | h
        · exact h.records
        · obtain ⟨record, hcached, hresult, -⟩ := h.cached
          rw [hresult]
          exact fun record' hrecord' => .inl (List.mem_singleton.mp hrecord' ▸ hcached)
      · cases hresult
        exact (hreported result rfl).imp_left fun h => h.usable husable
    | error e =>
      rcases hraised e rfl with rfl | rfl
      · have hreported' := hstanding.reported (r := ⟨v'.records, v'.outcomes, [], .incomplete, [.leaseLost], none⟩) rfl (List.cons_ne_nil _ _)
        exact ⟨fun hlost => absurd (.inr ⟨_, rfl, rfl⟩) hlost, fun _ hresult => by cases hresult; exact hreported'.records,
          fun _ hresult husable => by cases hresult; exact .inl (hreported'.usable husable)⟩
      · have hreported' := hstanding.reported (r := ⟨v'.records, v'.outcomes, [], .incomplete, [.coordinationUnavailable], none⟩) rfl (List.cons_ne_nil _ _)
        exact ⟨fun _ => hsettled nofun, fun _ hresult => by cases hresult; exact hreported'.records,
          fun _ hresult husable => by cases hresult; exact .inl (hreported'.usable husable)⟩

section Samples

/-- The SHA-256 digest of a sample. -/
def sampleHash : String := "aaaaaaaaaaaaaaaaaaaaaaaaaaaaaaaaaaaaaaaaaaaaaaaaaaaaaaaaaaaaaaaa"

/-- The archived body of a sample. -/
def sampleBody : ArchivedBody := ⟨"sec/key.gz", sampleHash, 3⟩

/-- Answers that raise nothing: a response 200 without a declared length, and clocks that stand still. -/
def plainAnswers (c : Call) : Answered Fault Value c :=
  match c with
  | .prepare _ _ _ => .ok 7
  | .acquire _ => .ok "permit"
  | .confirm _ | .cooldown _ | .now => .ok 0
  | .send _ => .ok ⟨200, fun _ => none⟩
  | .write _ => .ok sampleBody
  | .monotonic | .jitter => .ok 0
  | .uuid4 => .ok 9
  | .validateRecord _ | .guard | .dispatched _ _ | .headers _ _ _ _ | .payload _ _ | .finish _ | .close | .readBlob _ _ _ | .sleep _ => .ok ()

/-- The transport of a sample. -/
def sampleTransport : SecTransport where
  descriptor := ⟨1, "sec", 2, "terms", [.submissions], 3600000000⟩
  userAgent := "EquityEval/0.1 ops@example.com"
  jsonBodyLimit := 33554432
  documentBodyLimit := 67108864
  library := ⟨fun _ => none, fun _ _ => none, fun _ => none, fun _ => true⟩

/-- The resource of a sample. -/
def sampleResource : SecResource :=
  ⟨.submissions, "https://data.sec.gov/submissions/CIK0000000001.json", "submissions/0000000001", sampleHash⟩

/-- A fetch that looks at no cache. -/
def sampleRequest : FetchRequest where
  resource := sampleResource
  leaseExpiresAt := some (seconds 600)
  cacheMode := .refresh
  cachedRecord := none
  replayRecords := []
  monitorPayload := false
  monitored := nofun
  leased _ := rfl
  replayed h := absurd rfl h
  pinned _ := rfl
  belongs := nofun

/-- The events of the sample: the sample's answers, or any others of calls that have no part in what is regular. -/
def plain (event : Event) : Bool :=
  match event with
  | ⟨.now, .ok instant⟩ => instant = (0 : Instant)
  | ⟨.dispatched _ instant, .ok _⟩ => instant = 0
  | ⟨.send _, .ok response⟩ => response.status = 200 && (response.header "content-length").isNone
  | ⟨.write _, .ok body⟩ => body = sampleBody
  | ⟨_, .ok _⟩ => true
  | _ => false

/-- Plain events are regular. -/
theorem plain_admitted {trace : List Event} (h : trace.all plain) : (sampleTransport.monitor sampleRequest).Admitted .empty trace := by
  intro past event rest htrace
  have hall := List.all_eq_true.mp h
  have hpast : ∀ x ∈ past, plain x := fun x hx => hall x (htrace ▸ List.mem_append_left _ hx)
  have hevent : plain event := hall event (htrace ▸ List.mem_append_right _ (.head _))
  have hok : ∀ e, event.answer ≠ .error e := by
    intro e he
    obtain ⟨c, answer⟩ := event
    change answer = .error e at he
    subst he
    cases c <;> cases hevent
  have hin := events_after raises (sampleTransport.Regular sampleRequest) past
  refine ⟨fun e he => absurd he (hok e), fun _ _ _ _ _ => hok, ?_, ?_⟩
  · intro _ a past' http response hattempts hsend
    have hplain := hpast _ (hin a (hattempts ▸ .head _) hsend)
    have hnone := (Bool.and_eq_true _ _ ▸ hplain : _ ∧ _).2
    unfold contentLength
    rw [Option.isNone_iff_eq_none.mp hnone]
    nofun
  · intro a past' reading written body before http response instant requestedAt url fields hattempts hevents hnow hsend hdispatched
    have hmem : ∀ x ∈ a.events, plain x := fun x hx => hpast x (hin a (hattempts ▸ .head _) hx)
    rw [hevents] at hmem
    have hstatus := of_decide_eq_true (Bool.and_eq_true _ _ ▸ hmem _ (.tail _ (.tail _ hsend)) : _ ∧ _).1
    have hbody : body = sampleBody := of_decide_eq_true (hmem _ (.tail _ (.head _)))
    have hrequested : requestedAt = 0 := of_decide_eq_true (hmem _ (.tail _ (.tail _ hdispatched)))
    subst hnow
    have hinstant : instant = (0 : Instant) := of_decide_eq_true hevent
    subst hbody hrequested hinstant
    change ((0 : ℤ) ≤ 0 ∧ (0 : ℤ) ≤ 0) ∧ (100 ≤ response.status ∧ response.status ≤ 599) ∧ sampleBody.blobKey ≠ "" ∧
      isSha256 sampleHash ∧ isSha256 sampleHash
    rw [hstatus]
    decide +kernel

/-- The run of a fetch whose calls raise nothing. -/
abbrev plainRun (request : FetchRequest) : List Event × Except Fault FetchResult × Locals :=
  (sampleTransport.program request).play (fun _ => plainAnswers) []

/-- A cached record of the sample's resource. -/
def sampleRecord : RawRecord :=
  ⟨5, 1, sampleResource.objectKey, sampleResource.url, sampleHash, 0, 0, 0, 200, sampleHash, 3, "sec/key.gz", none, 2, "terms", none, none⟩

/-- A fetch that may reuse its cached record. -/
def reuseRequest : FetchRequest where
  resource := sampleResource
  leaseExpiresAt := some (seconds 600)
  cacheMode := .reuse
  cachedRecord := some sampleRecord
  replayRecords := []
  monitorPayload := false
  monitored := nofun
  leased _ := rfl
  replayed h := absurd rfl h
  pinned := nofun
  belongs record hrecord := by
    cases List.mem_singleton.mp hrecord
    exact ⟨rfl, rfl⟩

end Samples

end SecTransport

end EquityEval.Transport
