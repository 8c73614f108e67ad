import EquityEval.Transport.Sec
import EquityEval.Transport.Agreement

/-!
# The parts of an attempt of the SEC transport

Each part of an attempt is given by what it ensures of the ledger: whether the attempt was finished, by which
exceptions it may end, and what its result says.
-/

namespace EquityEval.Transport

open FloatArithmetic Interaction
open Workflow (Uuid Instant isSha256 seconds)
open Interaction.Action (Ensures)

/-- The exceptions that the handlers of a dispatch catch. -/
def Fault.handled (e : Fault) : Bool := e = .transportError ∨ e.isArchiveError ∨ e.isOSError

/-- The variables agree with the ledger: the records were captured, and the validator is the cached record. -/
structure Standing (cachedRecord : Option RawRecord) (attempts : List Attempt) (v : Locals) : Prop where
  records : ∀ record ∈ v.records, ∃ a ∈ attempts, ∃ outcome, Captured a outcome record
  validator : ∀ record, v.validator = some record → cachedRecord = some record

/-- A result agrees with the ledger: its records were captured or cached, and a usable one ends with a record that the last attempt earned. -/
structure Reported (cachedRecord : Option RawRecord) (attempts : List Attempt) (r : FetchResult) : Prop where
  records : ∀ record ∈ r.records, cachedRecord = some record ∨ ∃ a ∈ attempts, ∃ outcome, Captured a outcome record
  usable : r.usable → ∃ a past record, attempts = a :: past ∧ r.records.getLast? = some record ∧ Earned a record

section Agreement

variable {cachedRecord : Option RawRecord} {sequence : ℕ} {validator : Option RawRecord} {id : Uuid} {events : List Event} {past : List Attempt}
  {v : Locals} {r : FetchResult}

/-- Variables that agree with the attempts so far agree with those and another. -/
theorem Standing.cons (h : Standing cachedRecord past v) (a : Attempt) : Standing cachedRecord (a :: past) v where
  records record hrecord := by
    obtain ⟨b, hb, hcaptured⟩ := h.records record hrecord
    exact ⟨b, List.mem_cons_of_mem _ hb, hcaptured⟩
  validator := h.validator

/-- Captures stay captured when more happens. -/
theorem captured_extend (event : Event) {record : RawRecord}
    (h : ∃ a ∈ (⟨sequence, validator, id, events⟩ :: past : List Attempt), ∃ outcome, Captured a outcome record) :
    ∃ a ∈ (⟨sequence, validator, id, event :: events⟩ :: past : List Attempt), ∃ outcome, Captured a outcome record := by
  obtain ⟨a, ha, outcome, hcaptured⟩ := h
  cases List.mem_cons.mp ha with
  | inl heq =>
    subst heq
    exact ⟨_, List.mem_cons_self, outcome, hcaptured.cons event⟩
  | inr hpast => exact ⟨a, List.mem_cons_of_mem _ hpast, outcome, hcaptured⟩

/-- Variables agree when more happens. -/
theorem Standing.extend (event : Event) (h : Standing cachedRecord (⟨sequence, validator, id, events⟩ :: past) v) :
    Standing cachedRecord (⟨sequence, validator, id, event :: events⟩ :: past) v where
  records record hrecord := captured_extend event (h.records record hrecord)
  validator := h.validator

/-- A result agrees when more happens. -/
theorem Reported.extend (event : Event) (h : Reported cachedRecord (⟨sequence, validator, id, events⟩ :: past) r) :
    Reported cachedRecord (⟨sequence, validator, id, event :: events⟩ :: past) r where
  records record hrecord := (h.records record hrecord).imp_right (captured_extend event)
  usable husable := by
    obtain ⟨a, past', record, hattempts, hlast, hearned⟩ := h.usable husable
    obtain ⟨rfl, rfl⟩ := List.cons.inj hattempts
    exact ⟨_, _, record, rfl, hlast, hearned.cons event⟩

/-- A result with a gap agrees if its records do. -/
theorem Standing.reported {attempts : List Attempt} (h : Standing cachedRecord attempts v) (hrecords : r.records = v.records)
    (hgaps : r.gaps ≠ []) : Reported cachedRecord attempts r where
  records record hrecord := .inr (h.records record (hrecords ▸ hrecord))
  usable husable := by
    have hempty := (Bool.and_eq_true _ _ ▸ husable : _ ∧ _).2
    exact absurd (List.isEmpty_iff.mp hempty) hgaps

/-- A result that ends with a record that was earned agrees. -/
theorem Standing.reported_earned {a : Attempt} {record : RawRecord} (h : Standing cachedRecord past v) (hrecords : r.records = v.records ++ [record])
    (hlast : cachedRecord = some record ∨ ∃ outcome, Captured a outcome record) (hearned : Earned a record) : Reported cachedRecord (a :: past) r where
  records record' hrecord := by
    rw [hrecords] at hrecord
    cases List.mem_append.mp hrecord with
    | inl hold => exact .inr ((h.cons a).records record' hold)
    | inr hnew =>
      cases List.mem_singleton.mp hnew
      exact hlast.imp_right fun hcaptured => ⟨a, List.mem_cons_self, hcaptured⟩
  usable _ := ⟨a, past, record, rfl, by rw [hrecords, List.getLast?_concat], hearned⟩

end Agreement

namespace SecTransport

variable (t : SecTransport) (request : FetchRequest)

/-- The exceptions that a call of a SEC fetch raises: those of the store say that the lease is lost. -/
def raises (_ : Ledger) (c : Call) (e : Fault) : Prop := c.raises e ∨ (c.ofStore ∧ e = .leaseLost)

/-- What is asked of an answer: a response closes once its attempt was finished, the declared length of a body that is
archived has at most 4300 digits, and the record of an archived body is accepted. -/
structure Regular (l : Ledger) (event : Event) : Prop where
  closes : ∀ a past, l.attempts = a :: past → finishes a.events ≠ [] → event.call = .close → ∀ e, event.answer ≠ .error e
  length : event.call = .uuid4 → ∀ a past http response, l.attempts = a :: past → answered (.send http) response ∈ a.events →
    contentLength response ≠ .error .valueError
  record : ∀ a past reading written body before http response instant requestedAt url fields, l.attempts = a :: past →
    a.events = answered .monotonic reading :: answered (.write written) body :: before → event = answered .now instant →
    answered (.send http) response ∈ before → answered (.dispatched a.id requestedAt) () ∈ before →
    (t.captureRecord request written.captureId url requestedAt instant response.status body fields).Valid

/-- The monitor of a fetch of the SEC transport. -/
abbrev monitor : Monitor (Answered Fault Value) Ledger := fetchMonitor raises (t.Regular request)

/-- How a part of an attempt ends: the attempt was finished if the part returned or the coordinator failed; it was
not if an exception is left to the handlers, where there are any. -/
inductive Ended (handlers : Prop) (past : List Attempt) (a : Attempt) : Except Fault Turn → Prop
  | returned {result : FetchResult} (hsettled : a.Settled) (hreported : Reported request.cachedRecord (a :: past) result) : Ended handlers past a (.ok (.returned result))
  | continued (hsettled : a.Settled) : Ended handlers past a (.ok .continued)
  | retried (hsettled : a.Settled) : Ended handlers past a (.ok .retried)
  | leaseLost : Ended handlers past a (.error .leaseLost)
  | coordinationUnavailable (hsettled : a.Settled) : Ended handlers past a (.error .coordinationUnavailable)
  | handled {e : Fault} (hhandlers : handlers) (he : e.handled) (hopen : finishes a.events = []) : Ended handlers past a (.error e)

/-- What holds when a part of an attempt ends. -/
def Inner (handlers : Prop) (opening : List Event) (sequence : ℕ) (validator : Option RawRecord) (id : Uuid) (past : List Attempt) (r : Except Fault Turn)
    (v : Locals) (l : Ledger) : Prop :=
  ∃ events, l = ⟨opening, ⟨sequence, validator, id, events⟩ :: past⟩ ∧
    Standing request.cachedRecord (⟨sequence, validator, id, events⟩ :: past) v ∧ Ended request handlers past ⟨sequence, validator, id, events⟩ r

section Parts

variable {t request} {opening : List Event} {sequence : ℕ} {validator : Option RawRecord} {id : Uuid} {events : List Event} {past : List Attempt}
  {v : Locals} {l : Ledger} {α β : Type}

/-- The calls of the limiter. -/
def ofLimiter : Call → Bool
  | .acquire _ | .confirm _ | .cooldown _ => true
  | _ => false

/-- The handlers catch what the calls raise, apart from those of the limiter and lost leases. -/
theorem raises_handled {c : Call} {e : Fault} (h : raises l c e) (hlimiter : ofLimiter c = false) : e = .leaseLost ∨ e.handled := by
  cases h with
  | inr h => exact .inl h.2
  | inl h =>
    right
    cases c with
    | acquire _ | confirm _ | cooldown _ => cases hlimiter
    | write request =>
      have hcases := of_decide_eq_true h
      rcases hcases with harchive | rfl | rfl | rfl | rfl
      · exact decide_eq_true (.inr (.inl harchive))
      all_goals rfl
    | validateRecord _ =>
      cases of_decide_eq_true h
      rfl
    | send _ | close | readBlob _ _ _ =>
      rcases of_decide_eq_true h with rfl | rfl | rfl <;> rfl
    | guard | prepare _ _ _ | dispatched _ _ | headers _ _ _ _ | payload _ _ | finish _ | now | monotonic | sleep _ | jitter | uuid4 => cases h

/-- A call that raises nothing, before something else. -/
theorem ensures_silent {c : Call} (hc : silent c) {f : Value c → Fetching β} {post : Except Fault β → Locals → Ledger → Prop}
    (h : ∀ value, t.Regular request l (answered c value) → Ensures (t.monitor request) (f value) post v (l.extend [answered c value])) :
    Ensures (t.monitor request) (ask c >>= f) post v l := by
  refine ensures_silent_bind hc (fun e he => ?_) h
  cases c with
  | now | monotonic | sleep _ | jitter | uuid4 => rcases he with he | ⟨he, -⟩ <;> cases he
  | _ => cases hc

/-- Verifying a record either calls the store and the archive, or fails as the handlers expect. -/
theorem verify_ensures {record : RawRecord} {post : Except Fault Unit → Locals → Ledger → Prop}
    (hvalue : post (.ok ()) v (l.extend (verification record)))
    (herror : ∀ e events, e = .leaseLost ∨ e.handled → finishes events = [] → post (.error e) v (l.extend events)) :
    Ensures (t.monitor request) (t.verify request record) post v l := by
  unfold verify
  rw [Action.ensures_ite]
  constructor
  · intro _
    have h := herror .archiveError [] (.inr rfl) rfl
    rwa [Ledger.extend_nil] at h
  · intro _
    refine ensures_ask_bind trivial (fun _ _ => ?_) (fun e he _ => herror e [_] (raises_handled he rfl) rfl)
    refine ensures_ask trivial (fun _ _ => ?_) (fun e he _ => ?_)
    · change post (.ok ()) v ((l.extend [_]).extend [_])
      rw [Ledger.extend_extend]
      exact hvalue
    · change post (.error e) v ((l.extend [_]).extend [_])
      rw [Ledger.extend_extend]
      exact herror e _ (raises_handled he rfl) rfl

/-- A deadline is either kept, or an exception is raised that the handlers expect. -/
theorem checkDeadline_ensures {limit : ℚ} {post : Except Fault Unit → Locals → Ledger → Prop}
    (hvalue : ∀ reading, post (.ok ()) v (l.extend [answered .monotonic reading]))
    (herror : ∀ reading, post (.error .dispatchDeadline) v (l.extend [answered .monotonic reading])) :
    Ensures (t.monitor request) (checkDeadline limit) post v l := by
  refine ensures_silent rfl fun reading _ => ?_
  rw [Action.ensures_ite]
  exact ⟨fun _ => herror reading, fun _ => hvalue reading⟩

/-- An attempt that is open is finished, or the lease is lost. -/
theorem finished_ensures {arguments : Finish} {status : Option ℕ} {reason : Option Reason} {post : Except Fault Unit → Locals → Ledger → Prop}
    (hid : arguments.attemptId = id) (hopen : finishes events = [])
    (hvalue : post (.ok ()) { v with outcomes := v.outcomes ++ [⟨arguments.attemptId, arguments.outcome, status, reason⟩] }
      ⟨opening, ⟨sequence, validator, id, answered (.finish arguments) () :: events⟩ :: past⟩)
    (herror : post (.error .leaseLost) v ⟨opening, ⟨sequence, validator, id, ⟨.finish arguments, .error .leaseLost⟩ :: events⟩ :: past⟩) :
    Ensures (t.monitor request) (finished arguments status reason) post v ⟨opening, ⟨sequence, validator, id, events⟩ :: past⟩ := by
  refine ensures_ask_bind ⟨_, _, rfl, hid, hopen⟩ (fun _ _ => hvalue) fun e he _ => ?_
  rcases he with he | ⟨-, rfl⟩
  · cases he
  · exact herror

/-- Finishing an open attempt without a capture settles it. -/
theorem failed_ensures {handlers : Prop} {outcome : Outcome} {status : Option ℕ} {failure : Reason} {f : Unit → Fetching Turn}
    (hopen : finishes events = []) (hstanding : Standing request.cachedRecord (⟨sequence, validator, id, events⟩ :: past) v)
    (hvalue : ∀ events outcomes, (finishes events).length = 1 →
      Standing request.cachedRecord (⟨sequence, validator, id, events⟩ :: past) { v with outcomes := outcomes } →
      Ensures (t.monitor request) (f ()) (Inner request handlers opening sequence validator id past) { v with outcomes := outcomes }
        ⟨opening, ⟨sequence, validator, id, events⟩ :: past⟩) :
    Ensures (t.monitor request) (failed id outcome status failure >>= f) (Inner request handlers opening sequence validator id past) v
      ⟨opening, ⟨sequence, validator, id, events⟩ :: past⟩ := by
  rw [Action.ensures_bind]
  refine ensures_silent rfl fun instant _ => finished_ensures rfl hopen ?_ ?_
  · have hstanding' := (hstanding.extend (answered .now instant)).extend (answered (.finish ⟨id, outcome, instant, none, none, some failure⟩) ())
    refine hvalue _ _ ?_ ⟨hstanding'.records, hstanding'.validator⟩
    rw [finishes_cons]
    exact congrArg (fun l => List.length (_ :: l)) hopen
  · exact ⟨_, rfl, (hstanding.extend _).extend _, .leaseLost⟩

/-- A result that is incomplete agrees with the ledger if the variables do. -/
theorem incomplete_ensures {handlers : Prop} {reason : Reason} {eligible : Option Instant} (hsettled : (finishes events).length = 1)
    (hstanding : Standing request.cachedRecord (⟨sequence, validator, id, events⟩ :: past) v) :
    Ensures (t.monitor request) (incomplete reason eligible >>= fun result => pure (.returned result)) (Inner request handlers opening sequence validator id past) v
      ⟨opening, ⟨sequence, validator, id, events⟩ :: past⟩ :=
  ⟨_, rfl, hstanding, .returned hsettled (hstanding.reported rfl (List.cons_ne_nil _ _))⟩

/-- Header fields that are not kept are left to the handlers. -/
theorem evidence_error {response : Response} {target : Option String} {e : Fault} (h : evidence response target = .error e) : e = .contentDecodingError := by
  have hheader : ∀ name e, header response name = .error e → e = .contentDecodingError := by
    intro name e h
    unfold header at h
    split at h
    · cases h
    · split at h
      · exact (Except.error.inj h).symm
      · cases h
  unfold evidence at h
  iterate 5
    rcases bind_eq_error.mp h with h | ⟨_, -, h⟩
    · exact hheader _ _ h
  cases h

/-- The header fields are recorded, or the attempt is left to the handlers. -/
theorem recordHeaders_ensures {instant : Instant} {response : Response} {target : Option String} {post : Except Fault ResponseHeaders → Locals → Ledger → Prop}
    (hvalue : ∀ fields events, finishes events = [] → post (.ok fields) v (l.extend events))
    (herror : ∀ e events, e = .leaseLost ∨ e.handled → finishes events = [] → post (.error e) v (l.extend events)) :
    Ensures (t.monitor request) (recordHeaders id instant response target) post v l := by
  unfold recordHeaders
  split
  case h_1 e hevidence =>
    refine ensures_ask_bind trivial (fun _ _ => herror e [_] ?_ rfl) fun e he _ => herror e [_] (raises_handled he rfl) rfl
    exact .inr (evidence_error hevidence ▸ rfl)
  case h_2 fields _ =>
    exact ensures_ask_bind trivial (fun _ _ => hvalue fields [_] rfl) fun e he _ => herror e [_] (raises_handled he rfl) rfl

/-- The validator is verified, or the attempt is left open. -/
theorem verifiedValidator_ensures {limit : ℚ} {post : Except Fault RawRecord → Locals → Ledger → Prop}
    (hvalue : ∀ record reading, v.validator = some record → post (.ok record) v (l.extend (answered .monotonic reading :: verification record)))
    (herror : ∀ e events, e = .leaseLost ∨ e.handled → finishes events = [] → post (.error e) v (l.extend events)) :
    Ensures (t.monitor request) (t.verifiedValidator request limit) post v l := by
  unfold verifiedValidator
  rw [Action.ensures_read_bind]
  split
  case h_1 => exact (Ledger.extend_nil l) ▸ herror .archiveError [] (.inr rfl) rfl
  case h_2 record hrecord =>
    rw [Action.ensures_bind]
    refine verify_ensures (Action.ensures_bind.mpr (checkDeadline_ensures (fun reading => ?_) fun reading => ?_)) herror
    · rw [Ledger.extend_extend]
      exact hvalue record reading hrecord
    · rw [Ledger.extend_extend]
      exact herror .dispatchDeadline _ (.inr rfl) rfl

/-- A response 304 ends its attempt. -/
theorem notModified_ensures (http : HttpRequest) {limit : ℚ} {response : Response} (hopen : finishes events = [])
    (hstanding : Standing request.cachedRecord past v) (hvalidator : v.validator = validator) (hstatus : response.status = 304)
    (hsend : answered (.send http) response ∈ events) :
    Ensures (t.monitor request) (t.notModified request id limit) (Inner request True opening sequence validator id past) v
      ⟨opening, ⟨sequence, validator, id, events⟩ :: past⟩ := by
  unfold notModified
  rw [Action.ensures_outcome_bind]
  refine verifiedValidator_ensures (fun record reading hrecord => ?_) fun e new he hnew => ?_
  · refine ensures_silent rfl fun instant _ => Action.ensures_bind.mpr (finished_ensures rfl hopen ?_ ⟨_, rfl, hstanding.cons _, .leaseLost⟩)
    have hearned : Earned ⟨sequence, validator, id,
        answered (.finish _) () :: answered .now instant :: answered .monotonic reading :: (verification record ++ events)⟩ record :=
      .notModified http response ⟨id, .notModified, instant, none, some record.captureId, none⟩ (hvalidator ▸ hrecord) hstatus rfl rfl
        (.cons_cons _ (.cons _ (.cons _ (.append_left (List.singleton_sublist.mpr hsend) _))))
    exact ⟨_, rfl, ⟨(hstanding.cons _).records, hstanding.validator⟩,
      .returned (settled_of_open (answered .now instant :: answered .monotonic reading :: verification record) rfl hopen)
        (hstanding.reported_earned rfl (.inl (hstanding.validator record hrecord)) hearned)⟩
  · have hopen' : finishes (new ++ events) = [] := by rw [finishes_append, hnew, hopen]; rfl
    rw [Action.ensures_ite]
    constructor
    · intro _
      exact failed_ensures hopen' (hstanding.cons _) fun events' outcomes hsettled hstanding =>
        ⟨_, rfl, ⟨hstanding.records, nofun⟩, .continued hsettled⟩
    · intro _
      refine ⟨_, rfl, hstanding.cons _, ?_⟩
      rcases he with rfl | he
      · exact .leaseLost
      · exact .handled trivial he hopen'

/-- The bytes of a monitored response are retained; they may be those of the cached capture, which is then verified again. -/
theorem monitored_ensures (http : HttpRequest) (written : WriteRequest) {cached : Option RawRecord} {response : Response} {body : ArchivedBody}
    {instant : Instant} {post : Except Fault (Option Turn) → Locals → Ledger → Prop} (hcached : ∀ record, cached = some record → request.cachedRecord = some record)
    (hopen : finishes events = []) (hstanding : Standing request.cachedRecord past v) (hstatus : response.status = 200)
    (hwritten : [answered (.write written) body, answered (.send http) response].Sublist events)
    (hnone : ∀ new, finishes new = [] → post (.ok none) v ⟨opening, ⟨sequence, validator, id, new ++ events⟩ :: past⟩)
    (hturn : ∀ turn v l, Inner request True opening sequence validator id past (.ok turn) v l → post (.ok (some turn)) v l)
    (herror : ∀ e v l, Inner request True opening sequence validator id past (.error e) v l → post (.error e) v l) :
    Ensures (t.monitor request) (t.monitored request cached id body instant) post v ⟨opening, ⟨sequence, validator, id, events⟩ :: past⟩ := by
  have hleft : ∀ e events, e = .leaseLost ∨ e.handled → finishes events = [] →
      post (.error e) v ⟨opening, ⟨sequence, validator, id, events⟩ :: past⟩ := by
    intro e events he hopen
    refine herror e v _ ⟨_, rfl, hstanding.cons _, ?_⟩
    rcases he with rfl | he
    · exact .leaseLost
    · exact .handled trivial he hopen
  unfold monitored
  refine ensures_ask_bind trivial (fun _ _ => ?_) fun e he _ => hleft e _ (raises_handled he rfl) hopen
  refine ensures_ask_bind trivial (fun _ _ => ?_) fun e he _ => hleft e _ (raises_handled he rfl) hopen
  split
  case h_1 => exact hnone [_, _] rfl
  case h_2 record =>
    rw [Action.ensures_ite]
    refine ⟨fun hbytes => ?_, fun _ => hnone [_, _] rfl⟩
    rw [Action.ensures_bind]
    refine verify_ensures ?_ fun e new he hnew => ?_
    · refine ensures_silent rfl fun now _ => Action.ensures_bind.mpr (finished_ensures rfl hopen ?_ (herror _ _ _ ⟨_, rfl, hstanding.cons _, .leaseLost⟩))
      have hearned : Earned ⟨sequence, validator, id, answered (.finish _) () :: answered .now now :: (verification record ++
          (answered (.payload id ⟨instant, body.bodySha256, body.byteCount, body.blobKey⟩) () ::
            answered (.readBlob body.blobKey body.bodySha256 body.byteCount) () :: events))⟩ record :=
        .contentUnchanged http response written body ⟨id, .contentUnchanged, now, none, some record.captureId, none⟩ hstatus hbytes rfl rfl
          (.cons_cons _ (.cons _ (.append_left (.cons _ (.cons _ hwritten)) _)))
      exact hturn _ _ _ ⟨_, rfl, ⟨(hstanding.cons _).records, hstanding.validator⟩,
        .returned (settled_of_open (_ :: verification record ++ [_, _]) rfl hopen)
          (hstanding.reported_earned rfl (.inl (hcached record rfl)) hearned)⟩
    · refine hleft e _ he ?_
      rw [finishes_append, hnew]
      exact hopen

/-- After an attempt was finished, a pause may be asked for. -/
theorem coolDown_ensures {deadline : ℚ} {status : ℕ} {delay : ℚ} {post : Except Fault (Option Turn) → Locals → Ledger → Prop}
    (hsettled : (finishes events).length = 1) (hstanding : Standing request.cachedRecord (⟨sequence, validator, id, events⟩ :: past) v)
    (hnone : ∀ events, (finishes events).length = 1 → Standing request.cachedRecord (⟨sequence, validator, id, events⟩ :: past) v →
      post (.ok none) v ⟨opening, ⟨sequence, validator, id, events⟩ :: past⟩)
    (hturn : ∀ turn v l, Inner request True opening sequence validator id past (.ok turn) v l → post (.ok (some turn)) v l)
    (herror : ∀ e v l, Inner request True opening sequence validator id past (.error e) v l → post (.error e) v l) :
    Ensures (t.monitor request) (coolDown deadline status delay) post v ⟨opening, ⟨sequence, validator, id, events⟩ :: past⟩ := by
  unfold coolDown
  rw [Action.ensures_ite]
  refine ⟨fun _ => ?_, fun _ => hnone events hsettled hstanding⟩
  refine ensures_ask_bind trivial (fun eligible _ => ?_) fun e he _ => ?_
  · rw [Action.ensures_ite]
    constructor
    · exact fun _ => hturn _ _ _ ⟨_, rfl, hstanding.extend _, .returned hsettled ((hstanding.extend _).reported rfl (List.cons_ne_nil _ _))⟩
    · refine fun _ => ensures_silent rfl fun reading _ => ?_
      have hstanding' := (hstanding.extend (answered (.cooldown _) eligible)).extend (answered .monotonic reading)
      rw [Action.ensures_ite]
      constructor
      · exact fun _ => hturn _ _ _ ⟨_, rfl, hstanding', .returned hsettled (hstanding'.reported rfl (List.cons_ne_nil _ _))⟩
      · exact fun _ => hnone _ hsettled hstanding'
  · rcases he with he | ⟨he, -⟩
    · cases of_decide_eq_true he
      exact herror _ _ _ ⟨_, rfl, hstanding.extend _, .coordinationUnavailable hsettled⟩
    · cases he

/-- A response that is an error: its attempt was finished before. -/
theorem refused_ensures {deadline : ℚ} {status : ℕ} {retryAfter : Option String} (hsettled : (finishes events).length = 1)
    (hstanding : Standing request.cachedRecord (⟨sequence, validator, id, events⟩ :: past) v) :
    Ensures (t.monitor request) (t.refused deadline status retryAfter) (Inner request True opening sequence validator id past) v
      ⟨opening, ⟨sequence, validator, id, events⟩ :: past⟩ := by
  unfold refused
  refine ensures_silent rfl fun instant _ => ?_
  have hstanding' := hstanding.extend (answered .now instant)
  split
  case h_1 =>
    refine ensures_ask_bind trivial (fun eligible _ => ?_) fun e he _ => ?_
    · exact incomplete_ensures hsettled (hstanding'.extend _)
    · rcases he with he | ⟨he, -⟩
      · cases of_decide_eq_true he
        exact ⟨_, rfl, hstanding'.extend _, .coordinationUnavailable hsettled⟩
      · cases he
  case h_2 delay =>
    rw [Action.ensures_bind]
    refine coolDown_ensures hsettled hstanding' (fun events hsettled hstanding => ?_) (fun turn v l h => h) fun e v l h => h
    exact Action.ensures_ite.mpr ⟨fun _ => ⟨_, rfl, hstanding, .retried hsettled⟩, fun _ => incomplete_ensures hsettled hstanding⟩

/-- An attempt whose response was archived is finished with its capture. -/
theorem conclude_ensures {deadline : ℚ} {capture : RawRecord} {target retryAfter : Option String} {written : WriteRequest}
    (hopen : finishes events = []) (hstanding : Standing request.cachedRecord past v) (hcapture : written.captureId = capture.captureId)
    (hwritten : answered (.write written) ⟨capture.blobKey, capture.bodySha256, capture.byteCount⟩ ∈ events) :
    Ensures (t.monitor request) (t.conclude deadline sequence id capture target retryAfter) (Inner request True opening sequence validator id past) v
      ⟨opening, ⟨sequence, validator, id, events⟩ :: past⟩ := by
  have hcaptured : ∀ outcome failure, Captured ⟨sequence, validator, id,
      answered (.finish ⟨id, outcome, capture.completedAt, some capture, none, failure⟩) () :: events⟩ outcome capture := fun outcome failure =>
    ⟨written, _, .cons_cons _ (List.singleton_sublist.mpr hwritten), hcapture, rfl, rfl⟩
  -- The variables after the attempt was finished and the capture was added.
  have hadded : ∀ outcome failure (v' : Locals), v'.records = v.records ++ [capture] → (v'.validator = v.validator ∨ v'.validator = none) →
      Standing request.cachedRecord (⟨sequence, validator, id,
        answered (.finish ⟨id, outcome, capture.completedAt, some capture, none, failure⟩) () :: events⟩ :: past) v' := by
    intro outcome failure v' hrecords hvalidator
    refine ⟨fun record hrecord => ?_, fun record hrecord => ?_⟩
    · rw [hrecords] at hrecord
      cases List.mem_append.mp hrecord with
      | inl hold => exact (hstanding.cons _).records record hold
      | inr hnew =>
        cases List.mem_singleton.mp hnew
        exact ⟨_, List.mem_cons_self, outcome, hcaptured outcome failure⟩
    · rcases hvalidator with h | h
      · exact hstanding.validator record (h ▸ hrecord)
      · cases h ▸ hrecord
  have hsettled : ∀ outcome failure, Attempt.Settled ⟨sequence, validator, id,
      answered (.finish ⟨id, outcome, capture.completedAt, some capture, none, failure⟩) () :: events⟩ := fun _ _ => settled_of_open [] rfl hopen
  have hlost : ∀ arguments, Inner request True opening sequence validator id past (.error .leaseLost) v
      ⟨opening, ⟨sequence, validator, id, ⟨.finish arguments, .error .leaseLost⟩ :: events⟩ :: past⟩ := fun _ => ⟨_, rfl, hstanding.cons _, .leaseLost⟩
  unfold conclude
  refine Action.ensures_ite.mpr ⟨fun hstatus => ?_, fun _ => Action.ensures_ite.mpr ⟨fun _ => ?_, fun _ => ?_⟩⟩
  case refine_1 =>
    refine Action.ensures_bind.mpr (finished_ensures rfl hopen ?_ (hlost _))
    have hearned : Earned _ capture := .captured (hcaptured .complete none) (by simp [RawRecord.successful, hstatus])
    exact ⟨_, rfl, hadded .complete none _ rfl (.inl rfl),
      .returned (hsettled .complete none) (hstanding.reported_earned rfl (.inr ⟨.complete, hcaptured .complete none⟩) hearned)⟩
  case refine_2 =>
    split
    case h_1 target _ =>
      refine Action.ensures_bind.mpr (finished_ensures rfl hopen ?_ (hlost _))
      exact ⟨_, rfl, hadded .redirected none _ rfl (.inr rfl), .continued (hsettled .redirected none)⟩
    case h_2 =>
      refine Action.ensures_bind.mpr (finished_ensures rfl hopen ?_ (hlost _))
      refine Action.ensures_assign_bind.mpr (incomplete_ensures (hsettled .redirectRefused (some .redirectRefused)) ?_)
      exact hadded .redirectRefused (some .redirectRefused) _ rfl (.inl rfl)
  case refine_3 =>
    refine Action.ensures_bind.mpr (finished_ensures rfl hopen ?_ (hlost _))
    exact Action.ensures_assign_bind.mpr (refused_ensures (hsettled .httpError none) (hadded .httpError none _ rfl (.inl rfl)))

/-- A part of an attempt that left it open and raised something that is left to the handlers. -/
theorem inner_left {e : Fault} (he : e = .leaseLost ∨ e.handled) (hopen : finishes events = []) (hstanding : Standing request.cachedRecord past v) :
    Inner request True opening sequence validator id past (.error e) v ⟨opening, ⟨sequence, validator, id, events⟩ :: past⟩ := by
  refine ⟨_, rfl, hstanding.cons _, ?_⟩
  rcases he with rfl | he
  · exact .leaseLost
  · exact .handled trivial he hopen

/-- The body of a response is archived, and the attempt is finished. -/
theorem capture_ensures (http : HttpRequest) {cached : Option RawRecord} {deadline limit : ℚ} {requestedAt headersAt : Instant} {response : Response}
    {target : Option String} {fields : ResponseHeaders} (hcached : ∀ record, cached = some record → request.cachedRecord = some record)
    (hopen : finishes events = []) (hstanding : Standing request.cachedRecord past v) (hsend : answered (.send http) response ∈ events)
    (hdispatched : answered (.dispatched id requestedAt) () ∈ events) :
    Ensures (t.monitor request) (t.capture request cached deadline limit sequence id requestedAt headersAt response target fields)
      (Inner request True opening sequence validator id past) v ⟨opening, ⟨sequence, validator, id, events⟩ :: past⟩ := by
  unfold capture
  refine ensures_silent rfl fun captureId hregular => ?_
  have hlength := hregular.length rfl _ _ http response rfl hsend
  rw [Action.ensures_bind, Action.ensures_ofExcept]
  cases hcontent : contentLength response with
  | error e =>
    refine inner_left (.inr ?_) hopen hstanding
    unfold contentLength at hcontent hlength
    split at hcontent
    · cases hcontent
    · split at hcontent
      · cases hcontent
        rfl
      · split at hcontent
        · simp_all
        · cases hcontent
  | ok length =>
    refine ensures_ask_bind trivial (fun body _ => ?_) fun e he _ => inner_left (raises_handled he rfl) hopen hstanding
    refine Action.ensures_bind.mpr (checkDeadline_ensures (fun reading => ?_) fun reading => inner_left (.inr rfl) hopen hstanding)
    refine ensures_silent rfl fun instant hregular => ?_
    have hvalid : ∀ url, (t.captureRecord request captureId url requestedAt instant response.status body fields).Valid := fun url =>
      hregular.record _ _ reading _ body _ http response instant requestedAt url fields rfl rfl rfl
      (List.mem_cons_of_mem _ hsend) (List.mem_cons_of_mem _ hdispatched)
    -- What follows the bytes of the response, unless they are those of the cached capture.
    have hrest : ∀ new, finishes new = [] → Ensures (t.monitor request) (do
        let v ← Action.read
        let record ← Action.ofExcept (t.captureRecord request captureId v.url requestedAt instant response.status body fields).make
        t.conclude deadline sequence id record target fields.retryAfter) (Inner request True opening sequence validator id past) v
        ⟨opening, ⟨sequence, validator, id, new ++ (answered .now instant :: answered .monotonic reading ::
          answered (.write (t.writeRequest request captureId headersAt limit fields length)) body :: answered .uuid4 captureId :: events)⟩ :: past⟩ := by
      intro new hnew
      rw [Action.ensures_read_bind, Action.ensures_bind, Action.ensures_ofExcept, RawRecord.make, if_pos (hvalid v.url)]
      refine conclude_ensures ?_ hstanding rfl (List.mem_append_right _ (.tail _ (.tail _ (.head _))))
      rw [finishes_append, hnew]
      exact hopen
    rw [Action.ensures_bind]
    refine Action.ensures_ite.mpr ⟨fun hmonitored => ?_, fun _ => hrest [] rfl⟩
    have hwritten : [answered (.write (t.writeRequest request captureId headersAt limit fields length)) body, answered (.send http) response].Sublist
        (answered .now instant :: answered .monotonic reading ::
          answered (.write (t.writeRequest request captureId headersAt limit fields length)) body :: answered .uuid4 captureId :: events) :=
      .cons _ (.cons _ (.cons_cons _ (.cons _ (List.singleton_sublist.mpr hsend))))
    exact monitored_ensures http _ hcached hopen hstanding hmonitored.2 hwritten hrest (fun turn v l h => h) fun e v l h => h

/-- A part of an attempt ended, and its response is closed or fails to close. -/
theorem inner_closed {r : Except Fault Turn} (h : Inner request True opening sequence validator id past r v l) :
    Inner request True opening sequence validator id past r v (l.observe (answered .close ())) ∧
      ∀ e, raises l .close e → t.Regular request l ⟨.close, .error e⟩ →
        Inner request True opening sequence validator id past (.error e) v (l.observe ⟨.close, .error e⟩) := by
  obtain ⟨events, rfl, hstanding, hended⟩ := h
  constructor
  · refine ⟨_, rfl, hstanding.extend _, ?_⟩
    cases hended with
    | returned hsettled hreported => exact .returned hsettled (hreported.extend _)
    | continued hsettled => exact .continued hsettled
    | retried hsettled => exact .retried hsettled
    | leaseLost => exact .leaseLost
    | coordinationUnavailable hsettled => exact .coordinationUnavailable hsettled
    | handled _ he hopen => exact .handled trivial he hopen
  · intro e he hregular
    by_cases hopen : finishes events = []
    · refine ⟨_, rfl, hstanding.extend _, ?_⟩
      rcases raises_handled he rfl with rfl | he
      · exact .leaseLost
      · exact .handled trivial he hopen
    · exact absurd rfl (hregular.closes _ _ rfl hopen rfl e)

/-- What is made of a response ends the attempt, or leaves it open to the handlers. -/
theorem receive_ensures (http : HttpRequest) {cached : Option RawRecord} {deadline limit : ℚ} {requestedAt : Instant} {response : Response}
    (hcached : ∀ record, cached = some record → request.cachedRecord = some record) (hopen : finishes events = [])
    (hstanding : Standing request.cachedRecord past v) (hvalidator : v.validator = validator) (hsend : answered (.send http) response ∈ events)
    (hdispatched : answered (.dispatched id requestedAt) () ∈ events) :
    Ensures (t.monitor request) (t.receive request cached deadline limit sequence id requestedAt response)
      (Inner request True opening sequence validator id past) v ⟨opening, ⟨sequence, validator, id, events⟩ :: past⟩ := by
  unfold receive
  rw [Action.ensures_assign_bind]
  have hstanding' : Standing request.cachedRecord past { v with currentStatus := some response.status } := ⟨hstanding.records, hstanding.validator⟩
  refine ensures_silent rfl fun headersAt _ => ?_
  rw [Action.ensures_read_bind, Action.ensures_bind]
  refine recordHeaders_ensures (fun fields new hnew => ?_) fun e new he hnew => ?_
  · have hopen' : finishes (new ++ (answered .now headersAt :: events)) = [] := by rw [finishes_append, hnew]; exact hopen
    have hmem : ∀ event ∈ events, event ∈ new ++ (answered .now headersAt :: events) := fun event h => List.mem_append_right _ (.tail _ h)
    refine Action.ensures_bind.mpr (checkDeadline_ensures (fun reading => ?_) fun reading => inner_left (.inr rfl) hopen' hstanding')
    refine Action.ensures_ite.mpr ⟨fun hstatus => ?_, fun _ => ?_⟩
    · exact notModified_ensures http hopen' hstanding' hvalidator hstatus (.tail _ (hmem _ hsend))
    · exact capture_ensures http hcached hopen' hstanding' (.tail _ (hmem _ hsend)) (.tail _ (hmem _ hdispatched))
  · refine inner_left he ?_ hstanding'
    rw [finishes_append, hnew]
    exact hopen

/-- A permit is confirmed and a request is sent, at most once. -/
theorem dispatch_ensures {cached : Option RawRecord} {deadline limit timeout acquiredBy : ℚ} {requestedAt : Instant} {permit : String}
    (hcached : ∀ record, cached = some record → request.cachedRecord = some record) (hopen : finishes events = [])
    (hstanding : Standing request.cachedRecord past v) (hvalidator : v.validator = validator)
    (hbuilds : ∃ http, t.httpRequest request v.url v.validator timeout = .ok http) (hunsent : ∀ event ∈ events, isSend event = false)
    (hdispatched : [answered (.dispatched id requestedAt) (), answered .guard (), answered (.acquire acquiredBy) permit].Sublist events) :
    Ensures (t.monitor request) (t.dispatch request cached deadline limit timeout sequence id permit requestedAt)
      (Inner request True opening sequence validator id past) v ⟨opening, ⟨sequence, validator, id, events⟩ :: past⟩ := by
  unfold dispatch
  refine Action.ensures_bind.mpr (checkDeadline_ensures (fun reading => ?_) fun reading => inner_left (.inr rfl) hopen hstanding)
  obtain ⟨http, hhttp⟩ := hbuilds
  refine Action.ensures_read_bind.mpr (Action.ensures_bind.mpr (Action.ensures_ofExcept.mpr ?_))
  rw [hhttp]
  refine Action.ensures_outcome_bind.mpr (ensures_ask trivial (fun confirmedAt _ => ?_) fun e he _ => ?_)
  · refine ensures_ask_bind ⟨_, _, rfl, ?_, hopen, ?_⟩ (fun response _ => ?_) fun e he _ => inner_left (raises_handled he rfl) hopen hstanding
    · exact ⟨permit, acquiredBy, requestedAt, confirmedAt, _, rfl, .cons _ hdispatched⟩
    · exact fun event hevent => by
        rcases List.mem_cons.mp hevent with rfl | hevent
        · rfl
        · rcases List.mem_cons.mp hevent with rfl | hevent
          · rfl
          · exact hunsent event hevent
    · refine ensures_closing (Action.Ensures.mono ?_ fun r v l h => inner_closed h)
      refine receive_ensures http hcached hopen hstanding hvalidator (.head _) ?_
      exact .tail _ (.tail _ (.tail _ (hdispatched.subset (.head _))))
  · rcases he with he | ⟨he, -⟩
    · rcases of_decide_eq_true he with rfl | rfl
      · exact failed_ensures hopen (hstanding.cons _) fun _ _ hsettled hstanding => incomplete_ensures hsettled hstanding
      · exact failed_ensures hopen (hstanding.cons _) fun _ _ hsettled hstanding => incomplete_ensures hsettled hstanding
    · cases he

/-- The handlers finish an attempt that was left open. -/
theorem handle_ensures {e : Fault} (h : Inner request True opening sequence validator id past (.error e) v l) :
    Ensures (t.monitor request) (handle id e) (Inner request False opening sequence validator id past) v l := by
  obtain ⟨events, rfl, hstanding', hended⟩ := h
  unfold handle
  rw [Action.ensures_read_bind]
  cases hended with
  | leaseLost => exact ⟨_, rfl, hstanding', .leaseLost⟩
  | coordinationUnavailable hsettled => exact ⟨_, rfl, hstanding', .coordinationUnavailable hsettled⟩
  | handled _ he hopen =>
    have hcases := of_decide_eq_true he
    refine Action.ensures_ite.mpr ⟨fun _ => ?_, fun htransfer => Action.ensures_ite.mpr ⟨fun _ => ?_, fun hother => ?_⟩⟩
    · exact failed_ensures hopen hstanding' fun _ _ hsettled hstanding => ⟨_, rfl, hstanding, .retried hsettled⟩
    · exact failed_ensures hopen hstanding' fun _ _ hsettled hstanding => incomplete_ensures hsettled hstanding
    · rcases hcases with rfl | h
      · exact absurd (.inl rfl) htransfer
      · exact absurd h hother

/-- A permit is taken and the attempt is marked dispatched; what is raised before that leaves it open. -/
theorem takePermit_ensures {deadline : ℚ} {post : Except Fault (String × Instant) → Locals → Ledger → Prop} (hopen : finishes events = [])
    (hvalue : ∀ permit requestedAt events', finishes events' = [] → (∀ event ∈ events', isSend event = false) →
      [answered (.dispatched id requestedAt) (), answered .guard (), answered (.acquire deadline) permit].Sublist events' →
      post (.ok (permit, requestedAt)) v ⟨opening, ⟨sequence, validator, id, events' ++ events⟩ :: past⟩)
    (herror : ∀ e events, e = .leaseLost ∨ e.limiterReason.isSome → finishes events = [] →
      post (.error e) v ⟨opening, ⟨sequence, validator, id, events⟩ :: past⟩) :
    Ensures (t.monitor request) (takePermit id deadline) post v ⟨opening, ⟨sequence, validator, id, events⟩ :: past⟩ := by
  unfold takePermit
  have hstore : ∀ {l : Ledger} {c : Call} {e : Fault}, raises l c e → (∀ e, c.raises e = false) → e = .leaseLost := by
    intro l c e he hc
    rcases he with he | he
    · exact absurd he (by simp [hc e])
    · exact he.2
  refine ensures_ask_bind trivial (fun permit _ => ?_) fun e he _ => herror e _ (.inr ?_) hopen
  · refine ensures_ask_bind trivial (fun _ _ => ?_) fun e he _ => herror e _ (.inl (hstore he fun _ => rfl)) hopen
    refine ensures_silent rfl fun requestedAt _ => ?_
    refine ensures_ask_bind trivial (fun _ _ => ?_) fun e he _ => herror e _ (.inl (hstore he fun _ => rfl)) hopen
    refine hvalue permit requestedAt [answered (.dispatched id requestedAt) (), answered .now requestedAt, answered .guard (),
      answered (.acquire deadline) permit] rfl ?_ (.cons_cons _ (.cons _ (.refl _)))
    simp [isSend]
  · rcases he with he | ⟨he, -⟩
    · cases e with
      | rateDeferred _ | coordinationUnavailable | permitExpired => rfl
      | _ => cases he
    · cases he

end Parts

end SecTransport

end EquityEval.Transport
