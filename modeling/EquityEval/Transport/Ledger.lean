import EquityEval.Transport.Calls

/-!
# The ledger of a fetch

The events of a fetch are kept by attempt. An attempt begins when it is prepared; what follows belongs to it
until the next one is prepared. The ledger says which calls are allowed: attempts are numbered in order, a
request is sent once and only with a permit that was just confirmed, and an attempt is finished once, before
the next one is prepared.
-/

namespace EquityEval.Transport

open Interaction
open Workflow (Uuid Instant)

/-- An attempt: its number, the validator that it was prepared with, its identifier and, newest first, its events. -/
structure Attempt where
  sequence : ℕ
  validator : Option RawRecord
  id : Uuid
  events : List Event

/-- The events of a fetch: those before the first attempt, and the attempts. The newest come first. -/
structure Ledger where
  opening : List Event
  attempts : List Attempt

namespace Ledger

/-- Nothing happened. -/
def empty : Ledger := ⟨[], []⟩

/-- Add events to the newest attempt. -/
def extend (l : Ledger) (events : List Event) : Ledger :=
  match l.attempts with
  | [] => { l with opening := events ++ l.opening }
  | a :: past => { l with attempts := { a with events := events ++ a.events } :: past }

/-- Add an event; one that prepares an attempt begins it. -/
def observe (l : Ledger) : Event → Ledger
  | ⟨.prepare sequence _ validator, .ok id⟩ => { l with attempts := ⟨sequence, validator, id, []⟩ :: l.attempts }
  | event => l.extend [event]

end Ledger

/-- The arguments of a call that finishes an attempt. -/
def finishOf (event : Event) : Option Finish :=
  match event.call with
  | .finish arguments => some arguments
  | _ => none

/-- The event sends a request. -/
def isSend (event : Event) : Bool :=
  match event.call with
  | .send _ => true
  | _ => false

/-- The calls that finish the attempt of some events. -/
def finishes (events : List Event) : List Finish := events.filterMap finishOf

/-- The attempt was finished by one call. -/
def Attempt.Settled (a : Attempt) : Prop := (finishes a.events).length = 1

/-- The events of an attempt after which its request may be sent: a permit was acquired for it, the lease was
checked, the attempt was marked dispatched, and the last event confirms that permit. -/
def Cleared (id : Uuid) (events : List Event) : Prop :=
  ∃ (permit : String) (deadline : ℚ) (instant confirmedAt : Instant) (before : List Event),
    events = answered (.confirm permit) confirmedAt :: before ∧
      [answered (.dispatched id instant) (), answered .guard (), answered (.acquire deadline) permit].Sublist before

/-- The calls that a ledger allows. -/
def Ledger.permits (l : Ledger) : Call → Prop
  | .prepare sequence _ _ => sequence = l.attempts.length + 1 ∧ sequence ≤ 3 ∧ ∀ a ∈ l.attempts, a.Settled
  | .send _ => ∃ a past, l.attempts = a :: past ∧ Cleared a.id a.events ∧ finishes a.events = [] ∧ ∀ event ∈ a.events, isSend event = false
  | .finish arguments => ∃ a past, l.attempts = a :: past ∧ arguments.attemptId = a.id ∧ finishes a.events = []
  | _ => True

/-- A record was captured by an attempt: its body was archived, and the attempt was finished with it. -/
def Captured (a : Attempt) (outcome : Outcome) (record : RawRecord) : Prop :=
  ∃ (written : WriteRequest) (arguments : Finish),
    [answered (.finish arguments) (), answered (.write written) ⟨record.blobKey, record.bodySha256, record.byteCount⟩].Sublist a.events ∧
      written.captureId = record.captureId ∧ arguments.outcome = outcome ∧ arguments.capture = some record

/-- The capture of a record was verified: the store knows the record, and its body can be read. -/
def verification (record : RawRecord) : List Event :=
  [answered (.readBlob record.blobKey record.bodySha256 record.byteCount) (), answered (.validateRecord record) ()]

/-- A record is what an attempt was for: it was captured by the attempt with a status of success; or the attempt was
answered that its validator is not modified, or by the bytes of the record, and its capture was verified after that. -/
inductive Earned (a : Attempt) (record : RawRecord) : Prop
  | captured (h : Captured a .complete record) (hsuccessful : record.successful)
  | notModified (http : HttpRequest) (response : Response) (arguments : Finish) (hvalidator : a.validator = some record)
      (hstatus : response.status = 304) (houtcome : arguments.outcome = .notModified) (hreused : arguments.reused = some record.captureId)
      (h : (answered (.finish arguments) () :: verification record ++ [answered (.send http) response]).Sublist a.events)
  | contentUnchanged (http : HttpRequest) (response : Response) (written : WriteRequest) (body : ArchivedBody) (arguments : Finish)
      (hstatus : response.status = 200) (hbytes : body.bodySha256 = record.bodySha256 ∧ body.byteCount = record.byteCount)
      (houtcome : arguments.outcome = .contentUnchanged) (hreused : arguments.reused = some record.captureId)
      (h : (answered (.finish arguments) () :: verification record ++
        [answered (.write written) body, answered (.send http) response]).Sublist a.events)

/-- The call is one of the attempt store. -/
def Call.ofStore : Call → Bool
  | .validateRecord _ | .guard | .prepare .. | .dispatched .. | .headers .. | .payload .. | .finish _ => true
  | _ => false

/-- The exceptions that the calls other than those of the store raise. -/
def Call.raises : Call → Fault → Bool
  | .acquire _, e => match e with
    | .rateDeferred _ | .coordinationUnavailable | .permitExpired => true
    | _ => false
  | .confirm _, e => e = .coordinationUnavailable ∨ e = .permitExpired
  | .cooldown _, e => e = .coordinationUnavailable
  | .send _, e | .close, e => e = .transportError ∨ e = .osError ∨ e = .permissionError
  | .write _, e => e.isArchiveError ∨ e = .transportError ∨ e = .dispatchDeadline ∨ e = .osError ∨ e = .permissionError
  | .readBlob .., e => e = .archiveError ∨ e = .osError ∨ e = .permissionError
  | .validateRecord _, e => e = .archiveError
  | _, _ => false

section Ledgers

variable {opening : List Event} {sequence : ℕ} {validator : Option RawRecord} {id : Uuid} {events : List Event} {past : List Attempt}

/-- No events change nothing. -/
theorem Ledger.extend_nil (l : Ledger) : l.extend [] = l := by
  obtain ⟨opening, attempts⟩ := l
  cases attempts <;> rfl

/-- Events in two parts. -/
theorem Ledger.extend_extend (l : Ledger) (events events' : List Event) : (l.extend events).extend events' = l.extend (events' ++ events) := by
  obtain ⟨opening, attempts⟩ := l
  cases attempts <;> simp [Ledger.extend]

@[simp] theorem finishes_nil : finishes [] = [] := rfl

@[simp] theorem finishes_cons (event : Event) (events : List Event) :
    finishes (event :: events) = (finishOf event).toList ++ finishes events := by
  unfold finishes
  cases h : finishOf event with
  | none => rw [List.filterMap_cons_none h]; rfl
  | some f => rw [List.filterMap_cons_some h]; rfl

/-- A record that was captured stays so when more happens. -/
theorem Captured.cons {outcome : Outcome} {record : RawRecord} (event : Event) (h : Captured ⟨sequence, validator, id, events⟩ outcome record) :
    Captured ⟨sequence, validator, id, event :: events⟩ outcome record := by
  obtain ⟨written, arguments, hsub, hrest⟩ := h
  exact ⟨written, arguments, hsub.cons event, hrest⟩

theorem finishes_append (events events' : List Event) : finishes (events ++ events') = finishes events ++ finishes events' :=
  List.filterMap_append

/-- What an attempt was for stays so when more happens. -/
theorem Earned.cons {record : RawRecord} (event : Event) (h : Earned ⟨sequence, validator, id, events⟩ record) :
    Earned ⟨sequence, validator, id, event :: events⟩ record := by
  cases h with
  | captured h hsuccessful => exact .captured (h.cons event) hsuccessful
  | notModified http response arguments hvalidator hstatus houtcome hreused h =>
    exact .notModified http response arguments hvalidator hstatus houtcome hreused (h.cons event)
  | contentUnchanged http response written body arguments hstatus hbytes houtcome hreused h =>
    exact .contentUnchanged http response written body arguments hstatus hbytes houtcome hreused (h.cons event)

end Ledgers

end EquityEval.Transport
