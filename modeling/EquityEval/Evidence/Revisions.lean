import EquityEval.PointInTime.Tables
import EquityEval.Relational.Reachability
import EquityEval.Relational.Transactions
import EquityEval.Transition.System
import EquityEval.Vintage.Manifest

/-!
# Links between revisions

A link says which resolution revises which earlier one. The trigger of the table reads both
resolutions, waits for the lock of their issuer, searches the links for a path back and checks the
event that the link cites; the foreign keys are checked when the statement ends. Statements of
different transactions interleave at each of these points.
-/

namespace EquityEval.Evidence

open Workflow PointInTime Relational
open Vintage (hasText)

/-- A resolution with what it takes from its coverage, its batch and its filing version. -/
structure Resolution where
  id : Uuid
  issuerId : Uuid
  conceptStd : Concept
  periodId : Uuid
  unitId : Uuid
  semanticScopeId : Uuid
  instrumentId : Option Uuid
  statementFamily : StatementFamily
  reportingBasis : String
  filingId : Uuid
deriving DecidableEq

/-- What the resolutions of a link share. -/
structure LinkKey where
  issuerId : Uuid
  conceptStd : Concept
  periodId : Uuid
  unitId : Uuid
  semanticScopeId : Uuid
  instrumentId : Option Uuid
  statementFamily : StatementFamily
  reportingBasis : String
deriving DecidableEq

/-- What a resolution shares with those that it is linked to. -/
def Resolution.key (r : Resolution) : LinkKey :=
  ⟨r.issuerId, r.conceptStd, r.periodId, r.unitId, r.semanticScopeId, r.instrumentId, r.statementFamily, r.reportingBasis⟩

/-- What happened to a filing. -/
inductive EventKind where
  | nonReliance
  | withdrawal
  | formalCorrection
  | accountingRecast
  | sourceCorrection
  | reinstatement
deriving DecidableEq, Repr

/-- An event of a filing. -/
structure FilingEvent where
  id : Uuid
  issuerId : Uuid
  eventKind : EventKind
deriving DecidableEq

/-- What an event is about. -/
structure EventScope where
  eventId : Uuid
  filingId : Option Uuid
  periodId : Option Uuid
  conceptStd : Option Concept
deriving DecidableEq

/-- The scope covers a resolution. -/
def EventScope.Covers (scope : EventScope) (r : Resolution) : Prop :=
  (∀ filing ∈ scope.filingId, filing = r.filingId) ∧ (∀ period ∈ scope.periodId, period = r.periodId) ∧
    ∀ concept ∈ scope.conceptStd, concept = r.conceptStd

instance (scope : EventScope) (r : Resolution) : Decidable (scope.Covers r) := inferInstanceAs (Decidable (_ ∧ _))

/-- Why a resolution revises another one. -/
inductive RelationKind where
  | errorRestatement
  | accountingRecast
  | sourceCorrection
  | comparativeRevision
deriving DecidableEq, Repr

/-- A link from an earlier to a later resolution. -/
structure RevisionLink where
  earlierResolutionId : Uuid
  laterResolutionId : Uuid
  relationKind : RelationKind
  filingEventId : Option Uuid
  rationale : String
  evidenceReference : String
deriving DecidableEq

/-- The checks of the table of links. -/
def RevisionLink.Admissible (link : RevisionLink) : Prop :=
  link.earlierResolutionId ≠ link.laterResolutionId ∧
    (link.relationKind = .errorRestatement → link.filingEventId ≠ none) ∧
    hasText link.rationale = true ∧ hasText link.evidenceReference = true

instance (link : RevisionLink) : Decidable link.Admissible := inferInstanceAs (Decidable (_ ∧ _))

/-- The ends of a link. -/
def RevisionLink.edge (link : RevisionLink) : Uuid × Uuid := (link.earlierResolutionId, link.laterResolutionId)

/-- Where a transaction is in the trigger, with the link and the earlier resolution that it has read. -/
inductive Phase where
  | idle
  | compared (link : RevisionLink) (earlier : Option Resolution)
  | locked (link : RevisionLink) (earlier : Option Resolution)
  | searched (link : RevisionLink) (earlier : Option Resolution)
deriving DecidableEq

/-- The tables, the locks, and where every transaction is. -/
structure State where
  outcome : Outcomes
  readCommitted : ℕ → Bool
  resolutions : List (Row Resolution)
  events : List (Row FilingEvent)
  scopes : List (Row EventScope)
  links : List (Row RevisionLink)
  locks : Locks
  phase : ℕ → Phase
  unchecked : ℕ → List RevisionLink

/-- What a transaction does next. -/
inductive Action where
  | insertResolution (x : ℕ) (resolution : Resolution)
  | insertEvent (x : ℕ) (event : FilingEvent)
  | insertScope (x : ℕ) (scope : EventScope)
  | compare (x : ℕ) (link : RevisionLink)
  | lock (x : ℕ)
  | search (x : ℕ)
  | insert (x : ℕ)
  | endStatement (x : ℕ)
  | commit (x : ℕ)
  | abort (x : ℕ)

namespace State

variable (s : State)

/-- The resolution with an identifier that a transaction sees. -/
def resolution? (x : ℕ) (id : Uuid) : Option Resolution :=
  (visible s.outcome x s.resolutions).find? fun r => decide (r.id = id)

/-- The event with an identifier that a transaction sees. -/
def event? (x : ℕ) (id : Uuid) : Option FilingEvent :=
  (visible s.outcome x s.events).find? fun e => decide (e.id = id)

/-- A resolution that is found is visible and has the identifier. -/
theorem resolution?_eq_some {s : State} {x : ℕ} {id : Uuid} {r : Resolution} (h : s.resolution? x id = some r) :
    r ∈ visible s.outcome x s.resolutions ∧ r.id = id := by
  unfold resolution? at h
  have hid := List.find?_some h
  exact ⟨List.mem_of_find?_eq_some h, of_decide_eq_true hid⟩

/-- An event that is found is visible and has the identifier. -/
theorem event?_eq_some {s : State} {x : ℕ} {id : Uuid} {e : FilingEvent} (h : s.event? x id = some e) :
    e ∈ visible s.outcome x s.events ∧ e.id = id := by
  unfold event? at h
  have hid := List.find?_some h
  exact ⟨List.mem_of_find?_eq_some h, of_decide_eq_true hid⟩

/-- A transaction ends; its locks are released. -/
def finish (x : ℕ) (outcome : TransactionOutcome) : State :=
  { s with
    outcome := Function.update s.outcome x outcome
    locks := s.locks.release x
    phase := Function.update s.phase x .idle
    unchecked := Function.update s.unchecked x [] }

/-- An exception ends the transaction. -/
def raise (x : ℕ) : State := s.finish x .aborted

/-- A transaction is in a phase of the trigger. -/
def enter (x : ℕ) (phase : Phase) : State := { s with phase := Function.update s.phase x phase }

/-- The event that a link cites is evidence of the revision of the earlier resolution. -/
def Evidenced (x : ℕ) (link : RevisionLink) (earlier : Option Resolution) : Prop :=
  ∀ id ∈ link.filingEventId,
    (s.event? x id).map (·.issuerId) = earlier.map (·.issuerId) ∧
    (∀ event ∈ s.event? x id, link.relationKind = .errorRestatement → event.eventKind = .formalCorrection) ∧
    ∃ event ∈ s.event? x id, ∃ scope ∈ visible s.outcome x s.scopes, scope.eventId = event.id ∧
      (∀ filing ∈ scope.filingId, earlier.map (·.filingId) = some filing) ∧
      (∀ period ∈ scope.periodId, earlier.map (·.periodId) = some period) ∧
      ∀ concept ∈ scope.conceptStd, earlier.map (·.conceptStd) = some concept

instance (x : ℕ) (link : RevisionLink) (earlier : Option Resolution) : Decidable (s.Evidenced x link earlier) :=
  inferInstanceAs (Decidable (∀ _ ∈ _, _))

/-- The rows that a link refers to are there. -/
def References (x : ℕ) (link : RevisionLink) : Prop :=
  (s.resolution? x link.earlierResolutionId).isSome = true ∧ (s.resolution? x link.laterResolutionId).isSome = true ∧
    ∀ id ∈ link.filingEventId, (s.event? x id).isSome = true

instance (x : ℕ) (link : RevisionLink) : Decidable (s.References x link) := inferInstanceAs (Decidable (_ ∧ _))

/-- `evidence_revision_integrity` up to the lock: both resolutions are read and compared. -/
def compare (x : ℕ) (link : RevisionLink) : State :=
  let earlier := s.resolution? x link.earlierResolutionId
  let later := s.resolution? x link.laterResolutionId
  if s.readCommitted x = true ∧ earlier.map (·.key) = later.map (·.key) then s.enter x (.compared link earlier) else s.raise x

/-- `pg_advisory_xact_lock`: it waits while another transaction holds the lock; there is none for no issuer. -/
def lock (hash : Uuid → ℤ) (x : ℕ) (link : RevisionLink) : Option Resolution → Option State
  | none => some (s.enter x (.locked link none))
  | some earlier =>
    let key := hash earlier.issuerId
    if s.locks.Free key x then
      some { s.enter x (.locked link (some earlier)) with locks := (key, x) :: s.locks }
    else none

/-- The search for a path back. -/
def search (x : ℕ) (link : RevisionLink) (earlier : Option Resolution) : State :=
  let edges := (visible s.outcome x s.links).map (·.edge)
  if link.earlierResolutionId ∈ reachableFrom edges link.laterResolutionId then s.raise x
  else s.enter x (.searched link earlier)

/-- The rest of the trigger, and the row; it waits while another transaction has a row with its key. -/
def insertLink (x : ℕ) (link : RevisionLink) (earlier : Option Resolution) : Option State :=
  if ∃ row ∈ s.links, row.Live s.outcome ∧ row.value.edge = link.edge ∧ row.writer ≠ x ∧ s.outcome row.writer = .active then
    none
  else if s.Evidenced x link earlier ∧ link.Admissible ∧
      ∀ row ∈ s.links, row.Live s.outcome → row.value.edge ≠ link.edge then
    some { s.enter x .idle with
      links := s.links ++ [⟨x, link⟩]
      unchecked := Function.update s.unchecked x (s.unchecked x ++ [link]) }
  else some (s.raise x)

/-- What an active transaction does; nothing while it waits, or where it cannot do this. -/
def performActive (hash : Uuid → ℤ) : Action → Option State
  | .insertResolution x r =>
    if ∀ row ∈ s.resolutions, row.Live s.outcome → row.value.id ≠ r.id then
      some { s with resolutions := s.resolutions ++ [⟨x, r⟩] }
    else none
  | .insertEvent x e =>
    if ∀ row ∈ s.events, row.Live s.outcome → row.value.id ≠ e.id then some { s with events := s.events ++ [⟨x, e⟩] }
    else none
  | .insertScope x scope =>
    if (∃ row ∈ s.events, row.writer = x ∧ row.value.id = scope.eventId) ∧ (scope.filingId ≠ none ∨ scope.periodId ≠ none) then
      some { s with scopes := s.scopes ++ [⟨x, scope⟩] }
    else none
  | .compare x link => if s.phase x = .idle then some (s.compare x link) else none
  | .lock x => match s.phase x with | .compared link earlier => s.lock hash x link earlier | _ => none
  | .search x => match s.phase x with | .locked link earlier => some (s.search x link earlier) | _ => none
  | .insert x => match s.phase x with | .searched link earlier => s.insertLink x link earlier | _ => none
  | .endStatement x =>
    if s.phase x = .idle then
      if ∀ link ∈ s.unchecked x, s.References x link then some { s with unchecked := Function.update s.unchecked x [] }
      else some (s.raise x)
    else none
  | .commit x => if s.phase x = .idle ∧ s.unchecked x = [] then some (s.finish x .committed) else none
  | .abort x => some (s.raise x)

end State

/-- The transaction that acts. -/
def Action.transaction : Action → ℕ
  | insertResolution x _ | insertEvent x _ | insertScope x _ | compare x _ | lock x | search x | insert x
  | endStatement x | commit x | abort x => x

/-- What a transaction does. -/
def perform (hash : Uuid → ℤ) (s : State) (a : Action) : Option State :=
  if s.outcome a.transaction = .active then s.performActive hash a else none

/-- The tables are empty and no transaction has begun. -/
def State.Initial (s : State) : Prop :=
  (∀ x, s.outcome x = .active) ∧ s.resolutions = [] ∧ s.events = [] ∧ s.scopes = [] ∧ s.links = [] ∧ s.locks = [] ∧
    (∀ x, s.phase x = .idle) ∧ ∀ x, s.unchecked x = []

/-- The system of the tables; the lock of an issuer is that of a hash of its identifier. -/
def system (hash : Uuid → ℤ) : TransitionSystem.System State Action where
  initial := State.Initial
  step s a s' := perform hash s a = some s'

/-- The trigger finds a resolution of the link that it compares. -/
def Guarded (s : State) : Action → Prop
  | .compare x link =>
    (s.resolution? x link.earlierResolutionId).isSome = true ∨ (s.resolution? x link.laterResolutionId).isSome = true
  | _ => True

instance (s : State) (a : Action) : Decidable (Guarded s a) := by
  cases a <;> unfold Guarded <;> infer_instance

/-- The runs in which the trigger never finds neither of the resolutions of a link. -/
def guardedSystem (hash : Uuid → ℤ) : TransitionSystem.System State Action where
  initial := State.Initial
  step s a s' := perform hash s a = some s' ∧ Guarded s a

end EquityEval.Evidence
