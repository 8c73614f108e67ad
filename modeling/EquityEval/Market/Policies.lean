import EquityEval.Ingestion.Attempts

/-!
# Source policies

A capability records what a reviewed policy of a source grants: which objects and series, and for how
long they may be kept. It is inserted inactive, activated once and disabled once. The triggers of
attempts and of capture links ask it for permission; they lock it `FOR SHARE`, and a change of it waits
for the end of their transactions, so that a call and a change of its capability do not overlap.
-/

namespace EquityEval.Market

open Relational Workflow Ingestion

/-! ### Capabilities -/

/-- What the keys of a scope are. -/
inductive ScopeKind where
  | source
  | sourceObjects
  | macroSeries
deriving DecidableEq, Repr

/-- `market_keys_valid`. -/
abbrev MarketKeysValid (keys : List String) (emptyOk : Prop) : Prop :=
  (emptyOk ∨ keys ≠ []) ∧ (∀ key ∈ keys, Nonblank key ∧ trimmedLength key = key.length) ∧ keys.Nodup

/-- The resources of a source that a grant is about. -/
structure Scope where
  kind : ScopeKind
  keys : List String
deriving DecidableEq, Repr

/-- The checks of a scope. -/
abbrev Scope.Valid (s : Scope) : Prop := MarketKeysValid s.keys (s.kind = .source) ∧ (s.kind = .source ↔ s.keys = [])

/-- The scope covers an object and a series of it; of raw content only a series that is an object. -/
def Scope.Covers (s : Scope) (normalized : Bool) (objectKey : String) (seriesKey : Option String) : Prop :=
  match s.kind with
  | .source => True
  | .sourceObjects => objectKey ∈ s.keys
  | .macroSeries => ∃ series ∈ seriesKey, series ∈ s.keys ∧ (normalized = true ∨ series = objectKey)

instance (s : Scope) (normalized : Bool) (objectKey : String) (seriesKey : Option String) :
    Decidable (s.Covers normalized objectKey seriesKey) := by
  unfold Scope.Covers
  split <;> infer_instance

/-- How long content may be kept. -/
inductive Retention where
  | indefiniteWithoutRequiredDeletion
  | timeLimited
  | forbidden
  | unreviewed
deriving DecidableEq, Repr

/-- When, by whom and why something was done. -/
structure Occasion where
  at' : Instant
  actor : String
  reason : String
deriving DecidableEq, Repr

/-- A row of `source_policy_capabilities`. -/
structure Capability where
  policyRevisionId : Uuid
  sourceId : Uuid
  rawScope : Scope
  normalizedScope : Scope
  rawRetention : Retention
  normalizedRetention : Retention
  internalAnalysisAllowed : Bool
  reviewValidUntil : Option Instant
  reviewBasis : String
  activated : Option Occasion := none
  disabled : Option Occasion := none
deriving DecidableEq, Repr

namespace Capability

/-- The capability is active: it has been activated and not been disabled. -/
abbrev Active (c : Capability) : Prop := c.activated ≠ none ∧ c.disabled = none

/-- The checks of a row of `source_policy_capabilities`. -/
abbrev Checked (c : Capability) : Prop :=
  c.rawScope.Valid ∧ c.normalizedScope.Valid ∧ Nonblank c.reviewBasis ∧
    (∀ activated ∈ c.activated, Nonblank activated.actor ∧ Nonblank activated.reason) ∧
    ∀ disabled ∈ c.disabled, (∃ activated ∈ c.activated, activated.at' ≤ disabled.at') ∧ Nonblank disabled.actor ∧
      Nonblank disabled.reason

set_option synthInstance.maxSize 400 in
instance (c : Capability) : Decidable c.Checked := inferInstance

/-- The capability grants that raw and normalized content is kept, for internal analysis. -/
abbrev Retains (c : Capability) : Prop :=
  c.rawRetention = .indefiniteWithoutRequiredDeletion ∧ c.normalizedRetention = .indefiniteWithoutRequiredDeletion ∧
    c.internalAnalysisAllowed = true

/-- The capability is active at an instant, and its review has not expired. -/
abbrev InForce (c : Capability) (now : Instant) : Prop :=
  (∃ activated ∈ c.activated, activated.at' ≤ now) ∧ c.disabled = none ∧ ∀ until' ∈ c.reviewValidUntil, now < until'

/-- The scope of raw or of normalized content. -/
def scope (c : Capability) (normalized : Bool) : Scope := if normalized then c.normalizedScope else c.rawScope

end Capability

/-- The constraints of `source_policy_capabilities`. -/
abbrev CapabilitiesValid (rows : List Capability) : Prop :=
  UniqueBy Capability.policyRevisionId rows ∧ UniqueBy Capability.sourceId (rows.filter fun c => decide c.Active) ∧
    ∀ c ∈ rows, c.Checked

/-- No capabilities satisfy the constraints. -/
theorem capabilitiesValid_nil : CapabilitiesValid [] := by decide

/-- The table of capabilities. -/
abbrev Capabilities : Type := Table Capability CapabilitiesValid

/-- The capability of a policy. -/
def capability? (capabilities : Capabilities) (policy : Uuid) : Option Capability :=
  capabilities.lookup Capability.policyRevisionId policy

/-! ### Changes -/

/-- `market_capability_guard` at an insertion. -/
def capabilityInsertGuard (new : Capability) : Except SqlError Unit :=
  raiseIf (new.activated ≠ none ∨ new.disabled ≠ none) ⟨.checkViolation, "capability must start inactive"⟩

/-- `market_capability_guard` at an update. -/
def capabilityUpdateGuard (old new : Capability) : Except SqlError Unit :=
  raiseIf ({ new with activated := none, disabled := none } ≠ { old with activated := none, disabled := none } ∨
      (old.activated ≠ none ∧ new.activated ≠ old.activated) ∨ old.disabled ≠ none ∨
      (old.activated = none ∧ new.activated = none) ∨ (old.activated ≠ none ∧ new.disabled = none))
    ⟨.objectNotInPrerequisiteState, "market capability only activates or disables once"⟩

/-- Insert a capability. -/
def insertCapability (capabilities : Capabilities) (new : Capability) : Except SqlError Capabilities := do
  capabilityInsertGuard new
  capabilities.insert new (violates "source_policy_capabilities")

/-- Put a row in the place of a capability. -/
def updateCapability (capabilities : Capabilities) (old new : Capability) : Except SqlError Capabilities := do
  capabilityUpdateGuard old new
  capabilities.update (fun c => c.policyRevisionId = old.policyRevisionId) (fun _ => new) (violates "source_policy_capabilities")

/-- Disable the active capabilities of a source. -/
def disableActive (capabilities : Capabilities) (source : Uuid) (occasion : Occasion) : Except SqlError Capabilities :=
  (capabilities.rows.filter fun c => decide (c.sourceId = source ∧ c.Active)).foldlM
    (fun capabilities c => updateCapability capabilities c { c with disabled := some occasion }) capabilities

/-- `market_activate_policy`. -/
def marketActivatePolicy (capabilities : Capabilities) (now : Instant) (policy : Uuid) (actor reason : String) :
    Except SqlError Capabilities := do
  let c ← orRaise (capability? capabilities policy) ⟨.foreignKeyViolation, "unknown market capability"⟩
  raiseIf (c.activated ≠ none ∨ c.disabled ≠ none) ⟨.objectNotInPrerequisiteState, "policy cannot reactivate"⟩
  raiseIf (¬ Nonblank actor ∨ ¬ Nonblank reason ∨ ¬ c.Retains ∨ ∃ until' ∈ c.reviewValidUntil, until' ≤ now)
    ⟨.checkViolation, "invalid activation or retention grant"⟩
  let capabilities ← disableActive capabilities c.sourceId ⟨now, actor, "Replaced: " ++ reason⟩
  updateCapability capabilities c { c with activated := some ⟨now, actor, reason⟩ }

/-- `market_disable_policy`. -/
def marketDisablePolicy (capabilities : Capabilities) (now : Instant) (policy : Uuid) (actor reason : String) :
    Except SqlError Capabilities := do
  let c ← orRaise (capability? capabilities policy) ⟨.foreignKeyViolation, "unknown market capability"⟩
  raiseIf (¬ Nonblank actor ∨ ¬ Nonblank reason) ⟨.checkViolation, "disable requires actor and reason"⟩
  raiseIf (¬ c.Active) ⟨.objectNotInPrerequisiteState, "policy is not active"⟩
  updateCapability capabilities c { c with disabled := some ⟨now, actor, reason⟩ }

/-! ### Permissions -/

/-- What the tables of sources and of policy revisions say of a resource. -/
structure Resources where
  policySource : Uuid → Option Uuid
  secResource : Uuid → Uuid → String → String → Bool
  validateResource : Uuid → String → String → Except SqlError Unit

/-- `market_validate_policy`. -/
def marketValidatePolicy (resources : Resources) (capabilities : Capabilities) (now : Instant) (policy source : Uuid)
    (objectKey : String) (seriesKey : Option String) (normalized requireActive : Bool) : Except SqlError Unit := do
  raiseIf (∃ owner ∈ resources.policySource policy, owner ≠ source) ⟨.checkViolation, "market policy source mismatch"⟩
  let c ← orRaise ((capability? capabilities policy).filter fun c => decide (c.sourceId = source ∧ c.Retains))
    ⟨.checkViolation, "market policy has no compatible retained-content grant"⟩
  raiseIf (requireActive = true ∧ ¬ c.InForce now) ⟨.objectNotInPrerequisiteState, "market source policy is inactive or expired"⟩
  raiseIf (¬ (c.scope normalized).Covers normalized objectKey seriesKey)
    ⟨.checkViolation, "market resource is outside reviewed policy scope"⟩

/-- `market_attempt_policy_guard`. -/
def marketAttemptPolicyGuard (resources : Resources) (capabilities : Capabilities) (now : Instant) : RowTrigger := fun old new =>
  if resources.secResource new.sourceId new.policyRevisionId new.requestUrl new.sourceObjectKey = true then return ()
  else do
    resources.validateResource new.sourceId new.requestUrl new.sourceObjectKey
    if old.all (fun old => old.state = .prepared ∧ new.state = .inProgress) = true then
      marketValidatePolicy resources capabilities now new.policyRevisionId new.sourceId new.sourceObjectKey none false true
    else if new.completedCaptureId ≠ none ∨ new.reusedCaptureId ≠ none then
      marketValidatePolicy resources capabilities now new.policyRevisionId new.sourceId new.sourceObjectKey none false false

/-- `market_capture_policy_guard`. -/
def marketCapturePolicyGuard (resources : Resources) (capabilities : Capabilities) (now : Instant) (c : SourceCapture) (policy : Uuid) :
    Except SqlError Unit :=
  if resources.secResource c.sourceId policy c.requestUrl c.sourceObjectKey = true then return ()
  else do
    resources.validateResource c.sourceId c.requestUrl c.sourceObjectKey
    marketValidatePolicy resources capabilities now policy c.sourceId c.sourceObjectKey none false false

/-! ### What a permission says -/

/-- A capability grants a resource. -/
structure Capability.Grants (c : Capability) (policy source : Uuid) (objectKey : String) (seriesKey : Option String) (normalized : Bool) :
    Prop where
  policy_eq : c.policyRevisionId = policy
  source_eq : c.sourceId = source
  retains : c.Retains
  covers : (c.scope normalized).Covers normalized objectKey seriesKey

section Effects

variable {resources : Resources} {capabilities capabilities' : Capabilities} {now : Instant}

/-- A permission is granted by a capability, which is in force if it has to be. -/
theorem marketValidatePolicy_eq_ok {policy source : Uuid} {objectKey : String} {seriesKey : Option String}
    {normalized requireActive : Bool}
    (h : marketValidatePolicy resources capabilities now policy source objectKey seriesKey normalized requireActive = .ok ()) :
    ∃ c ∈ capabilities.rows, c.Grants policy source objectKey seriesKey normalized ∧ (requireActive = true → c.InForce now) := by
  simp only [marketValidatePolicy, bind_eq_ok, raiseIf_eq_ok, orRaise_eq_ok, Option.filter_eq_some_iff, decide_eq_true_eq, not_not] at h
  obtain ⟨-, -, c, ⟨hlookup, hsource, hretains⟩, _, hinForce, hcovers⟩ := h
  obtain ⟨hmem, hpolicy⟩ := Table.lookup_eq_some hlookup
  exact ⟨c, hmem, ⟨hpolicy, hsource, hretains, hcovers⟩, fun hactive => not_not.mp fun hnot => hinForce ⟨hactive, hnot⟩⟩

/-- An update of a capability passes the guard and rewrites one row. -/
theorem updateCapability_eq_ok {old new : Capability} (h : updateCapability capabilities old new = .ok capabilities') :
    capabilityUpdateGuard old new = .ok () ∧
      capabilities'.rows = capabilities.rows.map fun c => if c.policyRevisionId = old.policyRevisionId then new else c := by
  obtain ⟨_, hguard, hupdate⟩ := bind_eq_ok.mp h
  exact ⟨hguard, Table.update_eq_ok hupdate⟩

end Effects

end EquityEval.Market
