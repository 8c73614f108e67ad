import EquityEval.Publication.Payload
import EquityEval.Workflow.Enqueue

/-!
# The tables of published results

Fundamentals and valuations are published alike: a review states the payload that is expected of a
manifest, a request intends a review, the input of a request is frozen, and its result is published
once. The latest requests and results are projected for each context. Both kinds have tables of
their own; the columns that only describe a row are left out.
-/

namespace EquityEval.Publication

open Relational Text
open Workflow (Uuid Lease Outcome SqlError violates)

/-- What is published. -/
inductive Kind where
  | fundamentals
  | valuation
deriving DecidableEq, Repr

/-- A row of `fundamentals_input_reviews` or `valuation_input_reviews`; only the latter name a source. -/
structure Review where
  id : Uuid
  workspaceId : Uuid
  issuerId : Uuid
  securityId : Uuid
  quoteIdentifierId : Uuid
  sourceSnapshotId : Option Uuid := none
  manifestText : List CodePoint
  manifestHash : String
  compatibilityHash : String
  expectedPayloadHash : String
deriving DecidableEq

/-- A row of `fundamentals_request_intents` or `valuation_request_intents`. -/
structure Intent where
  requestId : Uuid
  reviewId : Uuid
  membershipId : Option Uuid
  membershipGeneration : Option ℕ
  scopeId : Uuid
deriving DecidableEq, Repr

/-- A row of `analysis_input_snapshots` or `valuation_input_snapshots`. -/
structure InputSnapshot where
  id : Uuid
  requestId : Uuid
  creatingExecutionId : Uuid
  reviewId : Uuid
  membershipId : Option Uuid
  membershipGeneration : Option ℕ
  scopeId : Uuid
deriving DecidableEq, Repr

/-- A row of `fundamentals_calculation_payloads`, which has no workspace, or of `valuation_payloads`. -/
structure PayloadRow where
  workspaceId : Option Uuid
  payloadHash : String
  dependencyHash : String
  payloadText : List CodePoint
deriving DecidableEq

/-- The constraints of the tables of payloads. -/
abbrev PayloadsValid (rows : List PayloadRow) : Prop :=
  UniqueBy (fun p => (p.workspaceId, p.payloadHash)) rows ∧ UniqueBy (fun p => (p.workspaceId, p.dependencyHash)) rows

/-- A row of `analysis_snapshots` or `valuation_model_runs`; only the latter have a parent. -/
structure ResultRow where
  id : Uuid
  requestId : Uuid
  executionId : Uuid
  inputSnapshotId : Uuid
  payloadHash : String
  leaseIdentity : Lease
  stageId : Uuid
  outcome : Outcome
  parentRunId : Option Uuid := none
deriving DecidableEq

/-- The constraints of the tables of results. -/
abbrev ResultsValid (rows : List ResultRow) : Prop :=
  UniqueBy ResultRow.id rows ∧ UniqueBy ResultRow.requestId rows ∧ UniqueBy ResultRow.executionId rows ∧
    UniqueBy ResultRow.inputSnapshotId rows ∧ ∀ s ∈ rows, s.outcome ∈ [.completed, .completedWithGaps]

/-- A row of `valuation_scenario_results`. -/
structure ScenarioRow where
  runId : Uuid
  ordinal : ℕ
  name : List CodePoint
  state : List CodePoint
  resultText : List CodePoint
deriving DecidableEq

/-- The states of a scenario that was solved for. -/
def solveStates : List (List CodePoint) :=
  ["converged", "no_solution_in_domain", "non_unique", "inconclusive", "unavailable"].map named

/-- The constraints of `valuation_scenario_results`. -/
abbrev ScenariosValid (rows : List ScenarioRow) : Prop :=
  UniqueBy (fun s => (s.runId, s.ordinal)) rows ∧ UniqueBy (fun s => (s.runId, s.name)) rows ∧
    ∀ s ∈ rows, 0 < s.ordinal ∧ s.state ∈ solveStates

/-- A row of `valuation_sensitivity_results`. -/
structure SensitivityRow where
  runId : Uuid
  ordinal : ℕ
  name : List CodePoint
  resultText : List CodePoint
deriving DecidableEq

/-- The constraints of `valuation_sensitivity_results`. -/
abbrev SensitivitiesValid (rows : List SensitivityRow) : Prop :=
  UniqueBy (fun s => (s.runId, s.ordinal)) rows ∧ UniqueBy (fun s => (s.runId, s.name)) rows ∧ ∀ s ∈ rows, 0 < s.ordinal

/-- A row of `valuation_conclusions`. -/
structure ConclusionRow where
  runId : Uuid
  ordinal : ℕ
  conclusion : List CodePoint
deriving DecidableEq

/-- The constraints of `valuation_conclusions`. -/
abbrev ConclusionsValid (rows : List ConclusionRow) : Prop :=
  UniqueBy (fun s => (s.runId, s.ordinal)) rows ∧ ∀ s ∈ rows, 0 < s.ordinal

/-- The context of a projection: a workspace, a security, a compatibility hash and a scope. -/
abbrev Context : Type := Uuid × Uuid × String × Uuid

/-- A row of `latest_fundamentals` or `latest_valuation`; the snapshot comes with its sequence. -/
structure LatestRow where
  context : Context
  latestRequestId : Uuid
  latestRequestSequence : ℕ
  snapshot : Option (Uuid × ℕ) := none
deriving DecidableEq, Repr

/-- The constraints of the tables of projections. -/
abbrev LatestValid (rows : List LatestRow) : Prop :=
  UniqueBy LatestRow.context rows ∧ ∀ row ∈ rows, ∀ snapshot ∈ row.snapshot, snapshot.2 ≤ row.latestRequestSequence

/-- The tables of one kind of results. Only valuations have children. -/
structure Store where
  reviews : Table Review fun rows => UniqueBy Review.id rows ∧ UniqueBy (fun v => (v.workspaceId, v.manifestHash)) rows
  intents : Table Intent (UniqueBy Intent.requestId)
  inputs : Table InputSnapshot fun rows => UniqueBy InputSnapshot.id rows ∧ UniqueBy InputSnapshot.requestId rows
  payloads : Table PayloadRow PayloadsValid
  results : Table ResultRow ResultsValid
  scenarios : Table ScenarioRow ScenariosValid
  sensitivities : Table SensitivityRow SensitivitiesValid
  conclusions : Table ConclusionRow ConclusionsValid
  latest : Table LatestRow LatestValid

namespace Store

/-- The tables before anything was written. -/
def empty : Store where
  reviews := ⟨[], by decide⟩
  intents := ⟨[], by decide⟩
  inputs := ⟨[], by decide⟩
  payloads := ⟨[], by decide⟩
  results := ⟨[], by decide⟩
  scenarios := ⟨[], by decide⟩
  sensitivities := ⟨[], by decide⟩
  conclusions := ⟨[], by decide⟩
  latest := ⟨[], by decide⟩

variable (store : Store)

/-- The review with an identifier. -/
def review? (id : Uuid) : Option Review := store.reviews.lookup Review.id id

/-- The intent of a request. -/
def intent? (request : Uuid) : Option Intent := store.intents.lookup Intent.requestId request

/-- The frozen input of a request. -/
def inputOf? (request : Uuid) : Option InputSnapshot := store.inputs.lookup InputSnapshot.requestId request

/-- The published result of a request. -/
def resultOf? (request : Uuid) : Option ResultRow := store.results.lookup ResultRow.requestId request

end Store

/-- The tables of the workflow and those of both kinds of results. -/
structure Database where
  workflow : Workflow.Database
  fundamentals : Store
  valuation : Store

namespace Database

/-- The tables before anything was written. -/
def empty : Database := ⟨.empty, .empty, .empty⟩

variable (db : Database)

/-- The tables of a kind. -/
def store : Kind → Store
  | .fundamentals => db.fundamentals
  | .valuation => db.valuation

/-- The tables of a kind are replaced. -/
def withStore (kind : Kind) (store : Store) : Database :=
  match kind with
  | .fundamentals => { db with fundamentals := store }
  | .valuation => { db with valuation := store }

variable {db}

@[simp] theorem store_withStore (kind : Kind) (store : Store) : (db.withStore kind store).store kind = store := by
  cases kind <;> rfl

@[simp] theorem workflow_withStore (kind : Kind) (store : Store) : (db.withStore kind store).workflow = db.workflow := by
  cases kind <;> rfl

/-- The tables of the other kind stay. -/
theorem store_withStore_of_ne {kind kind' : Kind} (h : kind' ≠ kind) (store : Store) : (db.withStore kind store).store kind' = db.store kind' := by
  cases kind <;> cases kind' <;> first | rfl | exact absurd rfl h

@[simp] theorem store_workflow (kind : Kind) (workflow : Workflow.Database) : ({ db with workflow } : Database).store kind = db.store kind := by
  cases kind <;> rfl

end Database

end EquityEval.Publication
