import EquityEval.Transport.Agreement
import EquityEval.Transport.Provider

/-!
# The parts of an attempt of the provider transport

Each part of an attempt is given by what it ensures of the ledger: whether the attempt was finished, by which
exceptions it may end, and that what the variables say of the attempts is what the store recorded.
-/

namespace EquityEval.Transport

open FloatArithmetic Interaction
open Workflow (Uuid Instant isSha256 seconds)
open Interaction.Action (Ensures)

/-- The arguments of a call that finished an attempt and returned. -/
def recordedFinish : Event → Option Finish
  | ⟨.finish arguments, .ok _⟩ => some arguments
  | _ => none

/-- What the store recorded of the ends of some attempts, in their order. -/
def recorded : List Attempt → List Finish
  | [] => []
  | a :: past => recorded past ++ a.events.filterMap recordedFinish

/-- What a result says of an attempt is what the store recorded; of a refused redirect the result gives the reason itself. -/
def Matches (o : AttemptOutcome) (f : Finish) : Prop :=
  o.attemptId = f.attemptId ∧ o.outcome = f.outcome ∧ (o.reason = f.failure ∨ (f.outcome = .redirectRefused ∧ o.reason = none))

/-- The reason of a result is explained by how the last attempt ended. -/
def Explains (f : Finish) (reason : Reason) : Prop :=
  f.failure = some reason ∨
    (f.outcome = .httpError ∧ reason ∈ [.retryAfterRequiresReview, .sourceAccessDeferred, .httpError, .dispatchBudgetExhausted]) ∨
    (f.failure = some .invalidNotModified ∧ reason = .dispatchBudgetExhausted)

/-- The variables say what the store recorded. -/
structure Stated (cachedRecord : Option RawRecord) (ends : List Finish) (v : Locals) : Prop where
  outcomes : List.Forall₂ Matches v.outcomes ends
  records : v.records = ends.filterMap Finish.capture
  validator : ∀ record, v.validator = some record → cachedRecord = some record

/-- A result says what the store recorded: its attempts, its records, and its reason or what completed it. -/
structure Truthful (cachedRecord : Option RawRecord) (ends : List Finish) (r : FetchResult) : Prop where
  attempts : List.Forall₂ Matches r.attempts ends
  records : r.records = ends.filterMap Finish.capture ∨ ∃ record f, cachedRecord = some record ∧ ends.getLast? = some f ∧
    f.outcome = .notModified ∧ f.reused = some record.captureId ∧ r.records = ends.filterMap Finish.capture ++ [record]
  reasons : ∀ reason ∈ r.gaps, ∃ f, ends.getLast? = some f ∧ Explains f reason
  complete : r.gaps = [] → ∃ f, ends.getLast? = some f ∧ (f.outcome = .complete ∨ f.outcome = .notModified)

/-- A call of the fetch raised an exception. -/
def Ledger.Raised (l : Ledger) (e : Fault) : Prop :=
  (∃ event ∈ l.opening, event.answer = .error e) ∨ ∃ a ∈ l.attempts, ∃ event ∈ a.events, event.answer = .error e

section Records

variable {cachedRecord : Option RawRecord} {sequence : ℕ} {validator : Option RawRecord} {id : Uuid} {events : List Event} {past : List Attempt}
  {v : Locals} {ends : List Finish}

/-- What is not a call that finishes an attempt records nothing. -/
theorem recordedFinish_none {event : Event} (h : finishOf event = none) : recordedFinish event = none := by
  obtain ⟨c, answer⟩ := event
  cases c <;> first | rfl | cases h

/-- Nothing is recorded of an open attempt. -/
theorem filterMap_open (h : finishes events = []) : events.filterMap recordedFinish = [] := by
  induction events with
  | nil => rfl
  | cons event events ih =>
    rw [finishes_cons] at h
    obtain ⟨hevent, hevents⟩ := List.append_eq_nil_iff.mp h
    rw [List.filterMap_cons_none (recordedFinish_none (Option.toList_eq_nil_iff.mp hevent))]
    exact ih hevents

/-- What is recorded with an open attempt. -/
theorem recorded_open (h : finishes events = []) : recorded (⟨sequence, validator, id, events⟩ :: past) = recorded past := by
  rw [recorded, filterMap_open h, List.append_nil]

/-- An attempt was finished as recorded. -/
def Done (f : Finish) (events : List Event) : Prop := (finishes events).length = 1 ∧ events.filterMap recordedFinish = [f]

/-- An open attempt is finished. -/
theorem done_of_open {f : Finish} (h : finishes events = []) : Done f (answered (.finish f) () :: events) := by
  refine ⟨?_, ?_⟩
  · rw [finishes_cons, h]
    rfl
  · have hsome : recordedFinish (answered (.finish f) ()) = some f := rfl
    rw [List.filterMap_cons_some hsome, filterMap_open h]

/-- An attempt was finished when something else happens. -/
theorem Done.cons {f : Finish} (event : Event) (hevent : finishOf event = none) (h : Done f events) : Done f (event :: events) := by
  refine ⟨?_, ?_⟩
  · rw [finishes_cons, hevent]
    exact h.1
  · rw [List.filterMap_cons_none (recordedFinish_none hevent)]
    exact h.2

/-- What is recorded with an attempt that was finished. -/
theorem Done.recorded {f : Finish} (h : Done f events) : recorded (⟨sequence, validator, id, events⟩ :: past) = recorded past ++ [f] := by
  rw [Transport.recorded, h.2]

/-- One more end is recorded and stated. -/
theorem Stated.append {v' : Locals} {f : Finish} {o : AttemptOutcome} (h : Stated cachedRecord ends v) (hmatches : Matches o f)
    (houtcomes : v'.outcomes = v.outcomes ++ [o]) (hrecords : v'.records = v.records ++ f.capture.toList)
    (hvalidator : v'.validator = v.validator ∨ v'.validator = none) : Stated cachedRecord (ends ++ [f]) v' where
  outcomes := by
    rw [houtcomes]
    exact List.rel_append h.outcomes (.cons hmatches .nil)
  records := by
    rw [hrecords, h.records, List.filterMap_append]
    cases hcapture : f.capture with
    | none => rw [List.filterMap_cons_none hcapture]; rfl
    | some record => rw [List.filterMap_cons_some hcapture]; rfl
  validator record hrecord := by
    rcases hvalidator with hv | hv
    · exact h.validator record (hv ▸ hrecord)
    · cases hv ▸ hrecord

/-- A result with a reason that the last end explains is truthful. -/
theorem Stated.truthful {f : Finish} {reason : Reason} {r : FetchResult} (h : Stated cachedRecord (ends ++ [f]) v) (hexplains : Explains f reason)
    (hattempts : r.attempts = v.outcomes) (hrecords : r.records = v.records) (hgaps : r.gaps = [reason]) : Truthful cachedRecord (ends ++ [f]) r where
  attempts := hattempts ▸ h.outcomes
  records := .inl (hrecords.trans h.records)
  reasons reason' hreason := by
    rw [hgaps] at hreason
    cases List.mem_singleton.mp hreason
    exact ⟨f, List.getLast?_concat, hexplains⟩
  complete hnone := by cases hgaps.symm.trans hnone

end Records

/-- The exceptions that the handlers of an attempt catch. -/
def Fault.caught (e : Fault) : Bool := e.limiterReason.isSome ∨ e.transfer

namespace ProviderTransport

variable (t : ProviderTransport) (request : ProviderFetchRequest)

/-- The attempt was marked dispatched. -/
def Dispatched (id : Uuid) (events : List Event) : Prop := ∃ instant, answered (.dispatched id instant) () ∈ events

/-- A call of the store made before a dispatch: it may find that the policy of the source is not available. -/
def beforeDispatch (l : Ledger) : Call → Prop
  | .validateRecord _ | .guard | .prepare .. | .dispatched .. => True
  | .finish _ => ∀ a past, l.attempts = a :: past → ¬ Dispatched a.id a.events
  | _ => False

/-- The call prepares an attempt. -/
def prepares : Call → Bool
  | .prepare .. => true
  | _ => false

/-- The exceptions that a call of a provider's fetch raises: those of the store say that the lease is lost, that the budget is
exhausted or, before a dispatch, that the policy is not available. -/
def raises (l : Ledger) (c : Call) (e : Fault) : Prop :=
  c.raises e ∨ (c.ofStore ∧ e = .leaseLost) ∨ (prepares c ∧ e = .providerBudgetExceeded) ∨ (beforeDispatch l c ∧ e = .permissionError)

/-- What is asked of an answer: once an attempt was finished, no pause is refused and a response closes; and the record of
an archived body is accepted. -/
structure Regular (l : Ledger) (event : Event) : Prop where
  pauses : ∀ delay, event.call = .cooldown delay → ∀ e, event.answer ≠ .error e
  closes : ∀ a past, l.attempts = a :: past → finishes a.events ≠ [] → event.call = .close → ∀ e, event.answer ≠ .error e
  record : ∀ a past reading written body before http response instant requestedAt fields, l.attempts = a :: past →
    a.events = answered .monotonic reading :: answered (.write written) body :: before → event = answered .now instant →
    answered (.send http) response ∈ before → answered (.dispatched a.id requestedAt) () ∈ before →
    (t.captureRecord request written.captureId requestedAt instant response.status body fields).Valid

/-- The monitor of a fetch of the provider transport. -/
abbrev monitor : Monitor (Answered Fault Value) Ledger := fetchMonitor raises (t.Regular request)

/-- How a part of an attempt ends: the attempt was finished if the part returned; it was not if an exception is left to the
handlers. After them, finishing the attempt may have raised that the policy is not available. -/
inductive Ended (handlers : Prop) (past : List Attempt) (a : Attempt) : Except Fault Turn → Prop
  | returned {result : FetchResult} (hsettled : a.Settled) (htruthful : Truthful request.cachedRecord (recorded (a :: past)) result) :
      Ended handlers past a (.ok (.returned result))
  | continued {f : Finish} (hdone : Done f a.events) (hfailure : f.failure = some .invalidNotModified) : Ended handlers past a (.ok .continued)
  | retried {f : Finish} (hdone : Done f a.events) (houtcome : f.outcome = .httpError) : Ended handlers past a (.ok .retried)
  | leaseLost (hraised : ∃ event ∈ a.events, event.answer = .error .leaseLost) : Ended handlers past a (.error .leaseLost)
  | refused (hhandlers : ¬ handlers) (hsettled : a.Settled) (hraised : ∃ event ∈ a.events, event.answer = .error .permissionError) :
      Ended handlers past a (.error .permissionError)
  | left {e : Fault} (hhandlers : handlers) (he : e.caught) (hopen : finishes a.events = []) : Ended handlers past a (.error e)

/-- What holds when a part of an attempt ends. -/
def Inner (handlers : Prop) (opening : List Event) (sequence : ℕ) (validator : Option RawRecord) (id : Uuid) (past : List Attempt)
    (r : Except Fault Turn) (v : Locals) (l : Ledger) : Prop :=
  ∃ events, l = ⟨opening, ⟨sequence, validator, id, events⟩ :: past⟩ ∧
    Stated request.cachedRecord (recorded (⟨sequence, validator, id, events⟩ :: past)) v ∧
    Ended request handlers past ⟨sequence, validator, id, events⟩ r

section Parts

variable {t request} {handlers : Prop} {opening : List Event} {sequence : ℕ} {validator : Option RawRecord} {id : Uuid} {events : List Event}
  {past : List Attempt} {v : Locals} {l : Ledger} {β : Type}

/-- The handlers catch what the calls raise, apart from lost leases. -/
theorem raises_caught {c : Call} {e : Fault} (h : raises l c e) : e = .leaseLost ∨ e.caught := by
  rcases h with h | ⟨-, rfl⟩ | ⟨-, rfl⟩ | ⟨-, rfl⟩
  · right
    cases c with
    | acquire _ =>
      cases e with
      | rateDeferred _ | coordinationUnavailable | permitExpired => rfl
      | _ => cases h
    | write _ =>
      rcases of_decide_eq_true h with harchive | rfl | rfl | rfl | rfl
      · exact decide_eq_true (.inr (decide_eq_true (.inl harchive)))
      all_goals rfl
    | validateRecord _ | cooldown _ =>
      cases of_decide_eq_true h
      rfl
    | confirm _ => rcases of_decide_eq_true h with rfl | rfl <;> rfl
    | send _ | close | readBlob _ _ _ => rcases of_decide_eq_true h with rfl | rfl | rfl <;> rfl
    | guard | prepare _ _ _ | dispatched _ _ | headers _ _ _ _ | payload _ _ | finish _ | now | monotonic | sleep _ | jitter | uuid4 => cases h
  · exact .inl rfl
  · exact .inr rfl
  · exact .inr rfl

/-- A call that raises nothing, before something else. -/
theorem ensures_silent {c : Call} (hc : silent c) {f : Value c → Fetching β} {post : Except Fault β → Locals → Ledger → Prop}
    (h : ∀ value, t.Regular request l (answered c value) → Ensures (t.monitor request) (f value) post v (l.extend [answered c value])) :
    Ensures (t.monitor request) (ask c >>= f) post v l := by
  refine ensures_silent_bind hc (fun e he => ?_) h
  cases c with
  | now | monotonic | sleep _ | jitter | uuid4 => rcases he with he | ⟨he, -⟩ | ⟨he, -⟩ | ⟨he, -⟩ <;> cases he
  | _ => cases hc

/-- An exception that was raised by one of some events, or that the handlers catch. -/
def Left (e : Fault) (events : List Event) : Prop := (e = .leaseLost ∧ ∃ event ∈ events, event.answer = .error .leaseLost) ∨ e.caught

/-- What a call raises is left. -/
theorem left_raised {c : Call} {e : Fault} (h : raises l c e) (events : List Event) : Left e (⟨c, .error e⟩ :: events) := by
  rcases raises_caught h with rfl | he
  · exact .inl ⟨rfl, _, .head _, rfl⟩
  · exact .inr he

/-- What was left stays so when more happened before. -/
theorem Left.append {e : Fault} (h : Left e events) (events' : List Event) : Left e (events ++ events') := by
  refine h.imp_left fun h => ⟨h.1, ?_⟩
  obtain ⟨event, hevent, hanswer⟩ := h.2
  exact ⟨event, List.mem_append_left _ hevent, hanswer⟩

/-- A part of an attempt that left it open and raised something that is left to the handlers. -/
theorem inner_left {e : Fault} (he : Left e events) (hopen : finishes events = []) (hstated : Stated request.cachedRecord (recorded past) v) :
    Inner request True opening sequence validator id past (.error e) v ⟨opening, ⟨sequence, validator, id, events⟩ :: past⟩ := by
  refine ⟨_, rfl, (recorded_open hopen).symm ▸ hstated, ?_⟩
  rcases he with ⟨rfl, hraised⟩ | he
  · exact .leaseLost hraised
  · exact .left trivial he hopen

/-- Verifying a record either calls the store and the archive, or fails as the handlers expect. -/
theorem verify_ensures {record : RawRecord} {post : Except Fault Unit → Locals → Ledger → Prop}
    (hvalue : post (.ok ()) v (l.extend (verification record)))
    (herror : ∀ e events, Left e events → finishes events = [] → post (.error e) v (l.extend events)) :
    Ensures (t.monitor request) (t.verify request record) post v l := by
  unfold verify
  rw [Action.ensures_ite]
  constructor
  · intro _
    have h := herror .archiveError [] (.inr rfl) rfl
    rwa [Ledger.extend_nil] at h
  · intro _
    refine ensures_ask_bind trivial (fun _ _ => ?_) (fun e he _ => herror e [_] (left_raised he []) rfl)
    refine ensures_ask trivial (fun _ _ => ?_) (fun e he _ => ?_)
    · change post (.ok ()) v ((l.extend [_]).extend [_])
      rw [Ledger.extend_extend]
      exact hvalue
    · change post (.error e) v ((l.extend [_]).extend [_])
      rw [Ledger.extend_extend]
      exact herror e _ (left_raised he _) rfl

/-- A deadline is either kept, or an exception is raised that the handlers expect. -/
theorem checkDeadline_ensures {limit : ℚ} {post : Except Fault Unit → Locals → Ledger → Prop}
    (hvalue : ∀ reading, post (.ok ()) v (l.extend [answered .monotonic reading]))
    (herror : ∀ reading, post (.error .dispatchDeadline) v (l.extend [answered .monotonic reading])) :
    Ensures (t.monitor request) (checkDeadline limit) post v l := by
  refine ensures_silent rfl fun reading _ => ?_
  rw [Action.ensures_ite]
  exact ⟨fun _ => herror reading, fun _ => hvalue reading⟩

/-- An attempt that is open is finished, or the lease is lost; before a dispatch the policy may not be available. -/
theorem finished_ensures {arguments : Finish} {status : Option ℕ} {reason : Option Reason} {post : Except Fault Unit → Locals → Ledger → Prop}
    (hid : arguments.attemptId = id) (hopen : finishes events = []) (hdispatched : handlers → Dispatched id events)
    (hstated : Stated request.cachedRecord (recorded past) v)
    (hvalue : post (.ok ()) { v with outcomes := v.outcomes ++ [⟨arguments.attemptId, arguments.outcome, status, reason⟩] }
      ⟨opening, ⟨sequence, validator, id, answered (.finish arguments) () :: events⟩ :: past⟩)
    (herror : ∀ e v l, Inner request handlers opening sequence validator id past (.error e) v l → post (.error e) v l) :
    Ensures (t.monitor request) (finished arguments status reason) post v ⟨opening, ⟨sequence, validator, id, events⟩ :: past⟩ := by
  refine ensures_ask_bind ⟨_, _, rfl, hid, hopen⟩ (fun _ _ => hvalue) fun e he _ => herror e v _ ?_
  have hnone : (⟨.finish arguments, .error e⟩ :: events : List Event).filterMap recordedFinish = [] := by
    rw [List.filterMap_cons_none rfl]
    exact filterMap_open hopen
  have hstated' : Stated request.cachedRecord (recorded (⟨sequence, validator, id, ⟨.finish arguments, .error e⟩ :: events⟩ :: past)) v := by
    rw [recorded, hnone, List.append_nil]
    exact hstated
  have hsettled : Attempt.Settled ⟨sequence, validator, id, ⟨.finish arguments, .error e⟩ :: events⟩ := by
    change (finishes (_ :: events)).length = 1
    rw [finishes_cons, hopen]
    rfl
  rcases he with he | ⟨-, rfl⟩ | ⟨he, -⟩ | ⟨hbefore, rfl⟩
  · cases he
  · exact ⟨_, rfl, hstated', .leaseLost ⟨_, .head _, rfl⟩⟩
  · cases he
  · exact ⟨_, rfl, hstated', .refused (fun h => hbefore _ _ rfl (hdispatched h)) hsettled ⟨_, .head _, rfl⟩⟩

/-- A result that is incomplete for a reason that the end of the attempt explains. -/
theorem incomplete_ensures {f : Finish} {reason : Reason} {eligible : Option Instant} (hdone : Done f events) (hexplains : Explains f reason)
    (hstated : Stated request.cachedRecord (recorded past ++ [f]) v) :
    Ensures (t.monitor request) (incomplete reason eligible >>= fun result => pure (.returned result)) (Inner request handlers opening sequence validator id past) v
      ⟨opening, ⟨sequence, validator, id, events⟩ :: past⟩ :=
  ⟨_, rfl, hdone.recorded.symm ▸ hstated, .returned hdone.1 (hdone.recorded.symm ▸ hstated.truthful hexplains rfl rfl rfl)⟩

/-- Finishing an open attempt without a capture. -/
theorem failed_ensures {outcome : Outcome} {status : Option ℕ} {failure : Reason} {f : Unit → Fetching Turn}
    (hopen : finishes events = []) (hdispatched : handlers → Dispatched id events) (hstated : Stated request.cachedRecord (recorded past) v)
    (hvalue : ∀ events finish outcomes, finish.failure = some failure → Done finish events →
      Stated request.cachedRecord (recorded past ++ [finish]) { v with outcomes := outcomes } →
      Ensures (t.monitor request) (f ()) (Inner request handlers opening sequence validator id past) { v with outcomes := outcomes }
        ⟨opening, ⟨sequence, validator, id, events⟩ :: past⟩) :
    Ensures (t.monitor request) (failed id outcome status failure >>= f) (Inner request handlers opening sequence validator id past) v
      ⟨opening, ⟨sequence, validator, id, events⟩ :: past⟩ := by
  rw [Action.ensures_bind]
  refine ensures_silent rfl fun instant _ => finished_ensures rfl hopen (fun h => ?_) hstated ?_ fun e v l h => h
  · obtain ⟨at', hat⟩ := hdispatched h
    exact ⟨at', .tail _ hat⟩
  · exact hvalue _ _ _ rfl (done_of_open hopen) (hstated.append ⟨rfl, rfl, .inl rfl⟩ rfl (List.append_nil _).symm (.inl rfl))

/-- Header fields that are not kept are left to the handlers. -/
theorem evidence_error {response : Response} {e : Fault} (h : t.evidence response = .error e) : e.caught := by
  have hheader : ∀ name e, t.header response name = .error e → e.caught := by
    intro name e h
    unfold header at h
    split at h
    · cases h
    · split at h
      · cases h
        rfl
      · split at h
        · cases h
          rfl
        · cases h
  unfold evidence at h
  iterate 5
    rcases bind_eq_error.mp h with h | ⟨_, -, h⟩
    · exact hheader _ _ h
  cases h

/-- The validator is verified, or the attempt is left open. -/
theorem verifiedValidator_ensures {limit : ℚ} {post : Except Fault RawRecord → Locals → Ledger → Prop}
    (hvalue : ∀ record reading, v.validator = some record → post (.ok record) v (l.extend (answered .monotonic reading :: verification record)))
    (herror : ∀ e events, Left e events → finishes events = [] → post (.error e) v (l.extend events)) :
    Ensures (t.monitor request) (t.verifiedValidator request limit) post v l := by
  unfold verifiedValidator
  rw [Action.ensures_read_bind]
  split
  case h_1 => exact (Ledger.extend_nil l) ▸ herror .archiveError [] (.inr rfl) rfl
  case h_2 record hrecord =>
    rw [Action.ensures_bind]
    refine verify_ensures (Action.ensures_bind.mpr (checkDeadline_ensures (fun reading => ?_) fun reading => ?_)) herror
    · rw [Ledger.extend_extend]
      exact hvalue record reading hrecord
    · rw [Ledger.extend_extend]
      exact herror .dispatchDeadline _ (.inr rfl) rfl

/-- A response 304 ends its attempt. -/
theorem notModified_ensures {limit : ℚ} (hopen : finishes events = []) (hdispatched : Dispatched id events)
    (hstated : Stated request.cachedRecord (recorded past) v) :
    Ensures (t.monitor request) (t.notModified request id limit) (Inner request True opening sequence validator id past) v
      ⟨opening, ⟨sequence, validator, id, events⟩ :: past⟩ := by
  have hlater : ∀ new, Dispatched id (new ++ events) := fun new => by
    obtain ⟨instant, hinstant⟩ := hdispatched
    exact ⟨instant, List.mem_append_right _ hinstant⟩
  unfold notModified
  rw [Action.ensures_outcome_bind]
  refine verifiedValidator_ensures (fun record reading hrecord => ?_) fun e new he hnew => ?_
  · refine ensures_silent rfl fun instant _ => Action.ensures_bind.mpr ?_
    refine finished_ensures rfl hopen (fun _ => hlater (answered .now instant :: answered .monotonic reading :: verification record)) hstated ?_ fun e v l h => h
    have hdone : Done ⟨id, .notModified, instant, none, some record.captureId, none⟩ (answered (.finish _) () ::
        answered .now instant :: answered .monotonic reading :: (verification record ++ events)) := done_of_open hopen
    have hstated' : Stated request.cachedRecord (recorded past ++ [⟨id, .notModified, instant, none, some record.captureId, none⟩])
        { v with outcomes := v.outcomes ++ [⟨id, .notModified, some 304, none⟩] } :=
      hstated.append ⟨rfl, rfl, .inl rfl⟩ rfl (List.append_nil _).symm (.inl rfl)
    refine ⟨_, rfl, hdone.recorded.symm ▸ hstated', .returned hdone.1 (hdone.recorded.symm ▸ ⟨hstated'.outcomes, .inr ?_, nofun, fun _ => ?_⟩)⟩
    · exact ⟨record, _, hstated.validator record hrecord, List.getLast?_concat, rfl, rfl, congrArg (· ++ [record]) hstated'.records⟩
    · exact ⟨_, List.getLast?_concat, .inr rfl⟩
  · have hopen' : finishes (new ++ events) = [] := by rw [finishes_append, hnew, hopen]; rfl
    rw [Action.ensures_ite]
    constructor
    · intro _
      refine failed_ensures hopen' (fun _ => hlater new) hstated fun events finish outcomes hfailure hdone hstated => ?_
      have hstated' : Stated request.cachedRecord (recorded past ++ [finish]) { v with outcomes := outcomes, validator := none } :=
        ⟨hstated.outcomes, hstated.records, nofun⟩
      exact ⟨_, rfl, hdone.recorded.symm ▸ hstated', .continued hdone hfailure⟩
    · exact fun _ => inner_left (he.append _) hopen' hstated

/-- After an attempt was finished, a pause may be asked for. -/
theorem coolDown_ensures {deadline : ℚ} {status : ℕ} {delay : ℚ} {f : Finish} {post : Except Fault (Option Turn) → Locals → Ledger → Prop}
    (hdone : Done f events) (houtcome : f.outcome = .httpError) (hstated : Stated request.cachedRecord (recorded past ++ [f]) v)
    (hnone : ∀ events, Done f events → post (.ok none) v ⟨opening, ⟨sequence, validator, id, events⟩ :: past⟩)
    (hturn : ∀ turn v l, Inner request True opening sequence validator id past (.ok turn) v l → post (.ok (some turn)) v l) :
    Ensures (t.monitor request) (coolDown deadline status delay) post v ⟨opening, ⟨sequence, validator, id, events⟩ :: past⟩ := by
  have hdeferred : ∀ events eligible, Done f events → post (.ok (some (.returned
      { records := v.records, attempts := v.outcomes, gaps := [.sourceAccessDeferred], completeness := .incomplete, nextEligibleAt := eligible })))
      v ⟨opening, ⟨sequence, validator, id, events⟩ :: past⟩ := fun events eligible hdone =>
    hturn _ _ _ (incomplete_ensures (t := t) hdone (.inr (.inl ⟨houtcome, by simp⟩)) hstated)
  unfold coolDown
  rw [Action.ensures_ite]
  refine ⟨fun _ => ?_, fun _ => hnone events hdone⟩
  refine ensures_ask_bind trivial (fun eligible _ => ?_) fun e _ hregular => absurd rfl (hregular.pauses _ rfl e)
  have hdone' : Done f (answered (.cooldown _) eligible :: events) := hdone.cons _ rfl
  refine Action.ensures_ite.mpr ⟨fun _ => hdeferred _ _ hdone', fun _ => ensures_silent rfl fun reading _ => ?_⟩
  have hdone'' : Done f (answered .monotonic reading :: answered (.cooldown _) eligible :: events) := hdone'.cons _ rfl
  exact Action.ensures_ite.mpr ⟨fun _ => hdeferred _ _ hdone'', fun _ => hnone _ hdone''⟩

/-- A response that is an error: its attempt was finished before. -/
theorem refused_ensures {deadline : ℚ} {status : ℕ} {retryAfter : Option String} {f : Finish} (hdone : Done f events)
    (houtcome : f.outcome = .httpError) (hstated : Stated request.cachedRecord (recorded past ++ [f]) v) :
    Ensures (t.monitor request) (t.refused deadline status retryAfter) (Inner request True opening sequence validator id past) v
      ⟨opening, ⟨sequence, validator, id, events⟩ :: past⟩ := by
  unfold refused
  refine ensures_silent rfl fun instant _ => ?_
  have hdone' : Done f (answered .now instant :: events) := hdone.cons _ rfl
  split
  case h_1 =>
    refine ensures_ask_bind trivial (fun eligible _ => ?_) fun e _ hregular => absurd rfl (hregular.pauses _ rfl e)
    exact incomplete_ensures (hdone'.cons _ rfl) (.inr (.inl ⟨houtcome, by simp⟩)) hstated
  case h_2 delay =>
    rw [Action.ensures_bind]
    refine coolDown_ensures hdone' houtcome hstated (fun events hdone => ?_) fun turn v l h => h
    refine Action.ensures_ite.mpr ⟨fun _ => ?_, fun _ => incomplete_ensures hdone (.inr (.inl ⟨houtcome, by simp⟩)) hstated⟩
    exact ⟨_, rfl, hdone.recorded.symm ▸ hstated, .retried hdone houtcome⟩

/-- How an attempt ends whose response was archived. -/
theorem outcomeOf_cases (status : ℕ) : outcomeOf status = .complete ∨ outcomeOf status = .redirectRefused ∨ outcomeOf status = .httpError := by
  unfold outcomeOf
  split
  · exact .inl rfl
  · split
    · exact .inr (.inl rfl)
    · exact .inr (.inr rfl)

/-- An attempt whose response was archived is finished with its capture. -/
theorem conclude_ensures {deadline : ℚ} {capture : RawRecord} {retryAfter : Option String} (hopen : finishes events = [])
    (hdispatched : Dispatched id events) (hstated : Stated request.cachedRecord (recorded past) v) :
    Ensures (t.monitor request) (t.conclude deadline id capture retryAfter) (Inner request True opening sequence validator id past) v
      ⟨opening, ⟨sequence, validator, id, events⟩ :: past⟩ := by
  unfold conclude
  refine Action.ensures_bind.mpr (finished_ensures rfl hopen (fun _ => hdispatched) hstated ?_ fun e v l h => h)
  refine Action.ensures_assign_bind.mpr ?_
  have hstated' : ∀ failure, none = failure ∨ (outcomeOf capture.httpStatus = .redirectRefused ∧ (none : Option Reason) = none) →
      Stated request.cachedRecord (recorded past ++ [⟨id, outcomeOf capture.httpStatus, capture.completedAt, some capture, none, failure⟩])
        ⟨v.records ++ [capture], v.outcomes ++ [⟨id, outcomeOf capture.httpStatus, some capture.httpStatus, none⟩], v.currentStatus, v.url, v.validator⟩ :=
    fun failure hfailure => hstated.append ⟨rfl, rfl, hfailure⟩ rfl rfl (.inl rfl)
  have hdone := fun failure => done_of_open (f := ⟨id, outcomeOf capture.httpStatus, capture.completedAt, some capture, none, failure⟩) hopen
  have hcases := outcomeOf_cases capture.httpStatus
  generalize outcomeOf capture.httpStatus = outcome at hcases hstated' hdone ⊢
  rcases hcases with rfl | rfl | rfl
  · have hstated' := hstated' none (.inl rfl)
    refine ⟨_, rfl, (hdone none).recorded.symm ▸ hstated', .returned (hdone none).1 ((hdone none).recorded.symm ▸ ⟨hstated'.outcomes, .inl hstated'.records, nofun, fun _ => ?_⟩)⟩
    exact ⟨_, List.getLast?_concat, .inl rfl⟩
  · exact incomplete_ensures (hdone (some .redirectRefused)) (.inl rfl) (hstated' (some .redirectRefused) (.inr ⟨rfl, rfl⟩))
  · exact refused_ensures (hdone none) rfl (hstated' none (.inl rfl))

/-- The body of a response is archived, and the attempt is finished. -/
theorem capture_ensures (http : HttpRequest) {deadline limit : ℚ} {requestedAt receivedAt : Instant} {response : Response} {fields : ResponseHeaders}
    (hopen : finishes events = []) (hstated : Stated request.cachedRecord (recorded past) v) (hsend : answered (.send http) response ∈ events)
    (hdispatched : answered (.dispatched id requestedAt) () ∈ events) :
    Ensures (t.monitor request) (t.capture request deadline limit id requestedAt receivedAt response fields)
      (Inner request True opening sequence validator id past) v ⟨opening, ⟨sequence, validator, id, events⟩ :: past⟩ := by
  unfold capture
  rw [Action.ensures_bind, Action.ensures_ofExcept]
  cases hcontent : contentLength response with
  | error e =>
    refine inner_left (.inr ?_) hopen hstated
    unfold contentLength at hcontent
    split at hcontent
    · cases hcontent
    · split at hcontent
      · cases hcontent
      · cases hcontent
        rfl
  | ok length =>
    refine ensures_silent rfl fun captureId _ => ?_
    refine ensures_ask_bind trivial (fun body _ => ?_) fun e he _ => inner_left (left_raised he _) hopen hstated
    refine Action.ensures_bind.mpr (checkDeadline_ensures (fun reading => ?_) fun reading => inner_left (.inr rfl) hopen hstated)
    refine ensures_silent rfl fun instant hregular => ?_
    have hvalid : (t.captureRecord request captureId requestedAt instant response.status body fields).Valid :=
      hregular.record _ _ reading _ body _ http response instant requestedAt fields rfl rfl rfl
        (List.mem_cons_of_mem _ hsend) (List.mem_cons_of_mem _ hdispatched)
    rw [Action.ensures_bind, Action.ensures_ofExcept, RawRecord.make, if_pos hvalid]
    exact conclude_ensures hopen ⟨requestedAt, .tail _ (.tail _ (.tail _ (.tail _ hdispatched)))⟩ hstated

/-- A part of an attempt ended, and its response is closed or fails to close. -/
theorem inner_closed {r : Except Fault Turn} (h : Inner request True opening sequence validator id past r v l) :
    Inner request True opening sequence validator id past r v (l.observe (answered .close ())) ∧
      ∀ e, raises l .close e → t.Regular request l ⟨.close, .error e⟩ →
        Inner request True opening sequence validator id past (.error e) v (l.observe ⟨.close, .error e⟩) := by
  obtain ⟨events, rfl, hstated, hended⟩ := h
  constructor
  · refine ⟨_, rfl, hstated, ?_⟩
    cases hended with
    | returned hsettled htruthful => exact .returned hsettled htruthful
    | continued hdone hfailure => exact .continued (hdone.cons _ rfl) hfailure
    | retried hdone houtcome => exact .retried (hdone.cons _ rfl) houtcome
    | leaseLost hraised =>
      obtain ⟨event, hevent, hanswer⟩ := hraised
      exact .leaseLost ⟨event, .tail _ hevent, hanswer⟩
    | refused hhandlers => exact absurd trivial hhandlers
    | left _ he hopen => exact .left trivial he hopen
  · intro e he hregular
    by_cases hopen : finishes events = []
    · rw [recorded_open hopen] at hstated
      exact inner_left (left_raised he _) hopen hstated
    · exact absurd rfl (hregular.closes _ _ rfl hopen rfl e)

/-- What is made of a response ends the attempt, or leaves it open to the handlers. -/
theorem receive_ensures (http : HttpRequest) {deadline limit : ℚ} {requestedAt : Instant} {response : Response} (hopen : finishes events = [])
    (hstated : Stated request.cachedRecord (recorded past) v) (hsend : answered (.send http) response ∈ events)
    (hdispatched : answered (.dispatched id requestedAt) () ∈ events) :
    Ensures (t.monitor request) (t.receive request deadline limit id requestedAt response)
      (Inner request True opening sequence validator id past) v ⟨opening, ⟨sequence, validator, id, events⟩ :: past⟩ := by
  unfold receive
  rw [Action.ensures_assign_bind]
  have hstated' : Stated request.cachedRecord (recorded past) { v with currentStatus := some response.status } :=
    ⟨hstated.outcomes, hstated.records, hstated.validator⟩
  refine ensures_silent rfl fun receivedAt _ => ?_
  rw [Action.ensures_bind, Action.ensures_ofExcept]
  cases hevidence : t.evidence response with
  | error e => exact inner_left (.inr (evidence_error hevidence)) hopen hstated'
  | ok fields =>
    refine ensures_ask_bind trivial (fun _ _ => ?_) fun e he _ => inner_left (left_raised he _) hopen hstated'
    refine Action.ensures_bind.mpr (checkDeadline_ensures (fun reading => ?_) fun reading => inner_left (.inr rfl) hopen hstated')
    refine Action.ensures_ite.mpr ⟨fun _ => ?_, fun _ => ?_⟩
    · exact notModified_ensures hopen ⟨requestedAt, .tail _ (.tail _ (.tail _ hdispatched))⟩ hstated'
    · exact capture_ensures http hopen hstated' (.tail _ (.tail _ (.tail _ hsend))) (.tail _ (.tail _ (.tail _ hdispatched)))

/-- The block of an attempt takes a permit, confirms it and sends a request, at most once. -/
theorem block_ensures {deadline : ℚ} (hstated : Stated request.cachedRecord (recorded past) v)
    (hkey : t.descriptor.provider = .fred → t.apiKey ≠ none) (hbuilds : ∀ timeout, ∃ http, t.httpRequest request v.validator timeout = .ok http) :
    Ensures (t.monitor request) (t.block request deadline id) (Inner request True opening sequence validator id past) v
      ⟨opening, ⟨sequence, validator, id, []⟩ :: past⟩ := by
  unfold block
  refine ensures_ask_bind trivial (fun permit _ => ?_) fun e he _ => inner_left (left_raised he _) rfl hstated
  refine ensures_ask_bind trivial (fun _ _ => ?_) fun e he _ => inner_left (left_raised he _) rfl hstated
  refine ensures_silent rfl fun requestedAt _ => ?_
  refine ensures_ask_bind trivial (fun _ _ => ?_) fun e he _ => inner_left (left_raised he _) rfl hstated
  refine ensures_silent rfl fun started _ => ?_
  refine Action.ensures_bind.mpr (checkDeadline_ensures (fun checked => ?_) fun checked => inner_left (.inr rfl) rfl hstated)
  refine Action.ensures_ite.mpr ⟨fun h => absurd h.2 (hkey h.1), fun _ => ensures_silent rfl fun reading _ => ?_⟩
  rw [Action.ensures_read_bind, Action.ensures_bind, Action.ensures_ofExcept]
  obtain ⟨http, hhttp⟩ := hbuilds (max (binary64 (1 / 1000)) (binary64 (min deadline (plus started 120) - reading)))
  rw [hhttp]
  refine ensures_ask_bind trivial (fun confirmedAt _ => ?_) fun e he _ => inner_left (left_raised he _) rfl hstated
  refine ensures_ask_bind ⟨_, _, rfl, ?_, rfl, ?_⟩ (fun response _ => ?_) fun e he _ => inner_left (left_raised he _) rfl hstated
  · exact ⟨permit, deadline, requestedAt, confirmedAt, _, rfl, .cons _ (.cons _ (.cons _ (.cons_cons _ (.cons _ (.refl _)))))⟩
  · simp [isSend]
  · refine ensures_closing (Action.Ensures.mono ?_ fun r v l h => inner_closed h)
    exact receive_ensures http rfl hstated (.head _) (.tail _ (.tail _ (.tail _ (.tail _ (.tail _ (.head _))))))

/-- The handlers finish an attempt that was left open. -/
theorem handle_ensures {e : Fault} (h : Inner request True opening sequence validator id past (.error e) v l) :
    Ensures (t.monitor request) (handle id e) (Inner request False opening sequence validator id past) v l := by
  obtain ⟨events, rfl, hstated, hended⟩ := h
  unfold handle
  rw [Action.ensures_read_bind]
  cases hended with
  | leaseLost hraised => exact ⟨_, rfl, hstated, .leaseLost hraised⟩
  | refused hhandlers => exact absurd trivial hhandlers
  | left _ he hopen =>
    rw [recorded_open hopen] at hstated
    have hfailed : ∀ outcome status failure eligible, Ensures (t.monitor request) (failed id outcome status failure >>= fun _ => do
        return .returned (← incomplete failure eligible)) (Inner request False opening sequence validator id past) v
        ⟨opening, ⟨sequence, validator, id, events⟩ :: past⟩ := fun outcome status failure eligible =>
      failed_ensures hopen (fun h => h.elim) hstated fun _ finish _ hfailure hdone hstated => incomplete_ensures hdone (.inl hfailure) hstated
    split
    case h_1 reason _ => exact hfailed _ _ _ _
    case h_2 hnone =>
      refine Action.ensures_ite.mpr ⟨fun _ => hfailed _ _ _ _, fun _ => Action.ensures_ite.mpr ⟨fun _ => hfailed _ _ _ _, fun htransfer => ?_⟩⟩
      rcases of_decide_eq_true he with h | h
      · rw [hnone] at h
        cases h
      · exact absurd h htransfer

end Parts

end ProviderTransport

end EquityEval.Transport
