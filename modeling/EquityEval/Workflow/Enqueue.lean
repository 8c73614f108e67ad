import EquityEval.Workflow.Leases
import Mathlib.Data.List.Sort

/-!
# Enqueueing requests

An idempotency key names a request within a workspace, and a hash of the normalized parameters
guards its reuse. An Add of a stock that is already on the watchlist binds its key to the request
of the active membership; otherwise it opens the next generation of the membership. The hash and
the registry of quotes and sources are parameters.
-/

namespace EquityEval.Workflow

open Relational

/-- The text of a retrieval vintage: whether it names its time zone, and its instant if it is finite. -/
structure VintageText where
  explicitTimezone : Bool
  instant : Option Instant
deriving DecidableEq, Repr

/-- A market plan as a request gives it. -/
structure MarketPlanInput where
  unknownField : Bool := false
  marketPlanRevision : Option String
  priceSourceId : Option Uuid := none
  priceStart : Option Day := none
  priceEnd : Option Day := none
  macroSourceId : Option Uuid := none
  macroSeriesKeys : Option (List String) := none
  macroStart : Option Day := none
  macroEnd : Option Day := none
  macroSourceAsOfDate : Option Day := none
deriving DecidableEq, Repr

/-- The options of a request before they are normalized. -/
structure EnqueueOptions where
  unknownField : Bool := false
  historyMode : Option HistoryMode := none
  filedCutoff : Option Day := none
  requestedPeriods : Option (List RequestedPeriod) := none
  retrievalVintage : Option VintageText := none
  maxAttempts : Option ℤ := none
  marketPlan : Option MarketPlanInput := none
deriving DecidableEq, Repr

/-- What the hash of a request covers. -/
inductive RequestParameters where
  | listed (workspace : Uuid) (watchlist : Option Uuid) (security quote : Uuid) (trigger : Trigger)
      (parent : Option Uuid) (options : RequestOptions)
  | monitor (workspace security : Uuid) (plan : MonitorPlan) (maxAttempts : ℤ)
deriving DecidableEq, Repr

/-- The validity of a quote of a security. -/
structure QuoteValidity where
  quoteIdentifierId : Uuid
  securityId : Uuid
  validFrom : Day
  currentValidTo : Option Day
deriving DecidableEq, Repr

/-- What the workflow reads of the registered securities and sources. -/
structure Registry where
  quotes : List (Uuid × Uuid)
  validity : List QuoteValidity
  sources : List Uuid
deriving DecidableEq, Repr

/-- The calendar day of an instant. -/
def dayOf (instant : Instant) : Day := instant / 86400000000

/-! ### Normalized options -/

/-- `market_keys_valid(keys,false)`. -/
abbrev MarketKeysValid (keys : List String) : Prop :=
  keys ≠ [] ∧ (∀ key ∈ keys, trimmedLength key ≠ 0 ∧ trimmedLength key = key.length) ∧ keys.Nodup

/-- A first day that is given, and not after a last day that is given. -/
abbrev Ordered (first last : Option Day) : Prop := ∃ a ∈ first, ∃ b ∈ last, a ≤ b

/-- Check and normalize a market plan. -/
def marketRequestPlan (registry : Registry) (input : Option MarketPlanInput) : Except SqlError (Option MarketPlan) :=
  match input with
  | none => return none
  | some p => do
    raiseIf (p.unknownField ∨ p.marketPlanRevision ≠ some "s4-market-data-v1")
      ⟨.invalidParameterValue, "unknown market request plan revision or field"⟩
    let keys := p.macroSeriesKeys.map fun keys => keys.insertionSort (· ≤ ·)
    raiseIf ((p.priceSourceId = none ∧ p.macroSourceId = none) ∨
      (p.priceSourceId = none ∧ (p.priceStart ≠ none ∨ p.priceEnd ≠ none)) ∨
      (p.priceSourceId ≠ none ∧ ¬ Ordered p.priceStart p.priceEnd) ∨
      (p.macroSourceId = none ∧ (p.macroStart ≠ none ∨ p.macroEnd ≠ none ∨ p.macroSourceAsOfDate ≠ none ∨
        keys.getD [] ≠ [])) ∨
      (p.macroSourceId ≠ none ∧ (¬ Ordered p.macroStart p.macroEnd ∨ ¬ ∃ k ∈ keys, MarketKeysValid k)))
      ⟨.invalidParameterValue, "market request plan source, dates or series are inconsistent"⟩
    raiseIf ((∃ source ∈ p.priceSourceId, source ∉ registry.sources) ∨
      ∃ source ∈ p.macroSourceId, source ∉ registry.sources)
      ⟨.foreignKeyViolation, "market request source must be provisioned"⟩
    return some
      { priceSourceId := p.priceSourceId, priceStart := p.priceStart, priceEnd := p.priceEnd,
        macroSourceId := p.macroSourceId, macroSeriesKeys := if p.macroSourceId = none then none else keys,
        macroStart := p.macroStart, macroEnd := p.macroEnd, macroSourceAsOfDate := p.macroSourceAsOfDate }

/-- Check and normalize the options of a request. -/
def normalizedOptions (registry : Registry) (options : EnqueueOptions) : Except SqlError RequestOptions := do
  raiseIf (∃ vintage ∈ options.retrievalVintage, ¬ vintage.explicitTimezone)
    ⟨.invalidParameterValue, "retrieval vintage requires explicit timezone"⟩
  raiseIf (∃ vintage ∈ options.retrievalVintage, vintage.instant = none)
    ⟨.invalidParameterValue, "retrieval vintage must be finite"⟩
  let marketPlan ← marketRequestPlan registry options.marketPlan
  return {
    historyMode := options.historyMode.getD .latestReported
    filedCutoff := options.filedCutoff
    requestedPeriods := options.requestedPeriods.getD []
    retrievalVintage := options.retrievalVintage.bind (·.instant)
    maxAttempts := options.maxAttempts.getD 3
    marketPlan }

/-! ### Requests and their keys -/

/-- What a caller learns about a request. -/
structure RequestResult where
  requestId : Uuid
  requestSequence : ℕ
  membershipId : Option Uuid
  generation : Option ℕ
deriving DecidableEq, Repr

/-- The membership with an identifier. -/
def Database.membership? (db : Database) (id : Uuid) : Option Membership := db.memberships.lookup Membership.id id

/-- The key with a name, within a workspace. -/
def Database.key? (db : Database) (workspace : Uuid) (key : String) : Option RequestKey :=
  db.keys.lookup RequestKey.identity (workspace, key)

/-- What a caller learns about a request. -/
def workflowRequestResult (db : Database) (request : Uuid) : Option RequestResult := do
  let r ← db.request? request
  return ⟨r.id, r.requestSequence, r.membershipId,
    (r.membershipId.bind fun id => db.membership? id).map (·.generation)⟩

/-- The checks of a requested period. -/
def RequestedPeriod.valid (p : RequestedPeriod) : Bool :=
  match p.kind, p.start, p.finish with
  | .instant, none, some _ => true
  | .duration, some first, some last => decide (first ≤ last)
  | _, _, _ => false

/-- The trigger that checks the links of a new request. -/
def workflowValidateRequest (db : Database) (r : AnalysisRequest) : Except SqlError Unit := do
  raiseIf (∃ id ∈ r.membershipId, ¬ ∃ m ∈ db.memberships.rows, ∃ w ∈ db.watchlists.rows,
    m.id = id ∧ w.id = m.watchlistId ∧ m.securityId = r.securityId ∧
      some m.quoteIdentifierId = r.quoteIdentifierId ∧ w.workspaceId = r.workspaceId)
    ⟨.checkViolation, "membership does not match workspace/security/quote"⟩
  raiseIf (∃ id ∈ r.parentRequestId, ¬ ∃ p ∈ db.requests.rows,
    p.id = id ∧ p.workspaceId = r.workspaceId ∧ p.securityId = r.securityId)
    ⟨.checkViolation, "parent request does not match workspace/security"⟩
  raiseIf (200 < r.options.requestedPeriods.length) ⟨.invalidParameterValue, "too many requested periods"⟩
  raiseIf (¬ r.options.requestedPeriods.all (·.valid)) ⟨.invalidParameterValue, "invalid requested period dates"⟩

/-- Bind a key to a request. -/
def insertKey (db : Database) (workspace : Uuid) (key : String) (request : Uuid) (hash : String) :
    Except SqlError Database := do
  let keys ← db.keys.insert ⟨workspace, key, request, hash⟩ (violates "analysis_request_keys")
  return { db with keys }

/-- Insert a request with its key, its first execution and its state. -/
def createRequest (db : Database) (now : Instant) (r : AnalysisRequest) (execution : Uuid) :
    Except SqlError Database := do
  workflowValidateRequest db r
  let requests ← db.requests.insert r (violates "analysis_requests")
  let db ← insertKey { db with requests, nextSequence := db.nextSequence + 1 } r.workspaceId r.idempotencyKey r.id
    r.parametersHash
  let db ← db.insertExecution
    { id := execution, requestId := r.id, attemptNo := 1, state := .queued, availableAt := now }
  let requestStates ← db.requestStates.insert
    { requestId := r.id, currentExecutionId := execution, attemptEpoch := 1 } (violates "analysis_request_state")
  { db with requestStates }.workflowEvent execution (.queued r.trigger)

/-- The arguments of an enqueue. -/
structure EnqueueArguments where
  workspace : Option Uuid
  watchlist : Option Uuid
  security : Uuid
  quote : Uuid
  key : String
  options : EnqueueOptions
  trigger : Trigger
  parent : Option Uuid
deriving DecidableEq, Repr

/-- The identifiers that an enqueue generates. -/
structure FreshIds where
  membership : Uuid
  request : Uuid
  execution : Uuid
deriving DecidableEq, Repr

/-- The workspace of an enqueue. -/
def enqueueWorkspace (db : Database) (a : EnqueueArguments) : Except SqlError Uuid := do
  raiseIf (a.trigger ∉ [.watchlistAdd, .manualRefresh] ∨ ¬ KeyLength a.key ∨ a.options.unknownField)
    ⟨.invalidParameterValue, "unknown request option or invalid intent"⟩
  let unknown : SqlError := ⟨.foreignKeyViolation, "unknown workspace/watchlist"⟩
  let workspace ←
    if a.trigger = .watchlistAdd then do
      raiseIf (a.workspace ≠ none ∨ a.watchlist = none ∨ a.parent ≠ none)
        ⟨.invalidParameterValue, "add requires a watchlist and no manual parent"⟩
      orRaise (a.watchlist.bind fun id => (db.watchlists.lookup Watchlist.id id).map (·.workspaceId)) unknown
    else do
      raiseIf (a.workspace = none ∨ a.watchlist ≠ none) ⟨.invalidParameterValue, "refresh requires a workspace"⟩
      orRaise a.workspace unknown
  raiseIf (db.workspaces.lookup Workspace.id workspace = none) unknown
  return workspace

/-- The parameters that the hash of an enqueue covers. -/
def EnqueueArguments.parameters (a : EnqueueArguments) (workspace : Uuid) (options : RequestOptions) :
    RequestParameters := .listed workspace a.watchlist a.security a.quote a.trigger a.parent options

/-- The quote belongs to the security and is valid today. -/
def checkQuote (registry : Registry) (now : Instant) (a : EnqueueArguments) : Except SqlError Unit := do
  raiseIf ((a.quote, a.security) ∉ registry.quotes) ⟨.foreignKeyViolation, "quote does not belong to security"⟩
  raiseIf (¬ ∃ v ∈ registry.validity, v.quoteIdentifierId = a.quote ∧ v.securityId = a.security ∧
    v.validFrom ≤ dayOf now ∧ ∀ last ∈ v.currentValidTo, dayOf now < last)
    ⟨.checkViolation, "quote identifier is not currently valid"⟩

/-- The active membership of a stock. -/
def activeMembership (db : Database) (watchlist security : Uuid) : Option Membership :=
  db.memberships.rows.find? fun m => decide (m.stock = (watchlist, security) ∧ m.Active)

/-- The request that the Add of a membership made. -/
def initialRequest (db : Database) (membership : Uuid) : Option AnalysisRequest :=
  db.requests.rows.find? fun r => decide (r.membershipId = some membership ∧ r.trigger = .watchlistAdd)

/-- Bind the key of a repeated Add to the request of the active membership. -/
def joinMembership (db : Database) (workspace : Uuid) (a : EnqueueArguments) (hash : String) (m : Membership) :
    Except SqlError (Database × Uuid) := do
  raiseIf (m.quoteIdentifierId ≠ a.quote)
    ⟨.invalidParameterValue, "existing stock has another quote; use explicit refresh"⟩
  let request ← orRaise (initialRequest db m.id)
    ⟨.objectNotInPrerequisiteState, "membership has no atomic initial request"⟩
  raiseIf (request.parametersHash ≠ hash)
    ⟨.invalidParameterValue, "existing Add has different options; use explicit refresh"⟩
  let db ← insertKey db workspace a.key request.id hash
  return (db, request.id)

/-- Open the next generation of a membership. -/
def openMembership (db : Database) (now : Instant) (watchlist security quote id : Uuid) :
    Except SqlError Database := do
  let generation := nextNumber ((db.memberships.select fun m => m.stock = (watchlist, security)).map (·.generation))
  let memberships ← db.memberships.insert
    { id, watchlistId := watchlist, securityId := security, quoteIdentifierId := quote, addedAt := now, generation }
    (violates "watchlist_memberships")
  return { db with memberships }

/-- The request of an enqueue. -/
def EnqueueArguments.request (a : EnqueueArguments) (db : Database) (workspace : Uuid) (options : RequestOptions)
    (hash : String) (membership : Option Uuid) (id : Uuid) : AnalysisRequest where
  id
  workspaceId := workspace
  securityId := a.security
  quoteIdentifierId := some a.quote
  trigger := a.trigger
  membershipId := membership
  parentRequestId := a.parent
  requestSequence := db.nextSequence
  idempotencyKey := a.key
  options
  parametersHash := hash

/-- Make the request of an enqueue whose key is new. -/
def enqueueNew (db : Database) (now : Instant) (workspace : Uuid) (a : EnqueueArguments) (options : RequestOptions)
    (hash : String) (ids : FreshIds) : Except SqlError (Database × Uuid) :=
  match a.trigger, a.watchlist with
  | .watchlistAdd, some watchlist =>
    match activeMembership db watchlist a.security with
    | some m => joinMembership db workspace a hash m
    | none => do
      let db ← openMembership db now watchlist a.security a.quote ids.membership
      let db ← createRequest db now (a.request db workspace options hash (some ids.membership) ids.request)
        ids.execution
      return (db, ids.request)
  | _, _ => do
    let db ← createRequest db now (a.request db workspace options hash none ids.request) ids.execution
    return (db, ids.request)

/-- Enqueue a request, or find the one that its key names. -/
def workflowEnqueue (digest : RequestParameters → String) (registry : Registry) (db : Database) (now : Instant)
    (a : EnqueueArguments) (ids : FreshIds) : Except SqlError (Database × Option RequestResult) := do
  let workspace ← enqueueWorkspace db a
  let options ← normalizedOptions registry a.options
  let hash := digest (a.parameters workspace options)
  match db.key? workspace a.key with
  | some existing => do
    raiseIf (existing.parametersHash ≠ hash)
      ⟨.invalidParameterValue, "idempotency key reused with different parameters"⟩
    return (db, workflowRequestResult db existing.requestId)
  | none => do
    checkQuote registry now a
    let (db, request) ← enqueueNew db now workspace a options hash ids
    return (db, workflowRequestResult db request)

/-- Remove a stock from its watchlist. -/
def workflowRemoveMembership (db : Database) (now : Instant) (membership : Uuid) :
    Except SqlError (Database × Bool) := do
  let m ← orRaise (db.membership? membership) ⟨.foreignKeyViolation, "unknown membership"⟩
  raiseIf (db.watchlists.lookup Watchlist.id m.watchlistId = none) ⟨.foreignKeyViolation, "unknown membership"⟩
  let memberships ← db.memberships.update (fun m => m.id = membership ∧ m.Active)
    (fun m => { m with removedAt := some now }) (violates "watchlist_memberships")
  return ({ db with memberships }, decide (m.Active))

/-- Make a workspace with its watchlist; the name and the time zone are checked elsewhere. -/
def workflowCreateWorkspace (db : Database) (workspace watchlist : Uuid) : Except SqlError Database := do
  let workspaces ← db.workspaces.insert ⟨workspace⟩ (violates "workspaces")
  let watchlists ← db.watchlists.insert ⟨watchlist, workspace⟩ (violates "watchlists")
  return { db with workspaces, watchlists }

end EquityEval.Workflow
