import EquityEval.Discovery.Comparison
import EquityEval.Workflow.Monitor

/-!
# A poll for filings

A poll reads the baseline inventory from the archive, fetches the submissions and the older documents
that overlap the window, compares the two inventories and assembles a result. What it archives,
fetches and parses is answered by arguments. An exception of the acquisition becomes a flag of the
result; each fetch leaves a stage of the execution behind.
-/

namespace EquityEval.Discovery

open Relational Workflow

/-- An exception that a poll turns into a flag: an `ArchiveError`, or one of `ValueError`, `KeyError`
and `TypeError`. -/
inductive Raised where
  | archive
  | value
deriving DecidableEq, Repr

/-- A capture with the resource that it was made of. -/
structure RawRecord where
  captureId : Uuid
  sourceObjectKey : String
deriving DecidableEq, Repr

/-- What came of fetching a resource. The attempts that finished are given by their instants. A usable
record is a capture of the resource by an attempt that finished. -/
inductive Fetched (sourceObjectKey : Uuid → String) (key : String) where
  /-- Preparing the fetch raised, before its stage was started. -/
  | refused (e : Raised)
  /-- The source raised. -/
  | raised (e : Raised) (finished : List Instant)
  /-- No single successful record without gaps. -/
  | unusable (gaps : List String) (finished : List Instant)
  /-- One successful record. -/
  | usable (captureId : Uuid) (finished : List Instant) (owned : sourceObjectKey captureId = key)
      (checked : finished ≠ [])

/-- What the archive, the source and the parser answer to a poll. -/
structure Acquisition where
  sourceObjectKey : Uuid → String
  baseline : Except Raised (List RawRecord)
  parse : RawRecord → Except Raised SubmissionDocument
  fetch : (key : String) → Fetched sourceObjectKey key
  earlierAttempts : List Instant
  baselineCaptureIds : List Uuid
  manifestId : Uuid
  manifestSha256 : String

/-- The older documents of a window, by their resources. -/
structure HistoryScope where
  required : List String
  excludedNonoverlap : List String
deriving DecidableEq, Repr

/-- Whether the inventories were complete. -/
structure PollCoverage where
  baseline : Completeness
  current : Completeness
deriving DecidableEq, Repr

/-- Which older documents the inventories advertise. -/
structure PollHistory where
  baseline : Option HistoryScope
  current : Option HistoryScope
deriving DecidableEq, Repr

/-- The variables of a poll; the stages are those it started, with their outcomes once finished. -/
structure Progress where
  current : List RawRecord
  flags : List String
  histories : PollHistory
  coverage : PollCoverage
  comparison : Comparison
  failed : Bool
  stages : List (Option StageOutcome)
  finished : List Instant
deriving DecidableEq, Repr

/-- The comparison of a poll that compares nothing. -/
def noComparison : Comparison := ⟨.incomplete, false, [], [], [], [], [], [], [], [], []⟩

/-- The variables at the start of a poll. -/
def Progress.start : Progress where
  current := []
  flags := []
  histories := ⟨none, none⟩
  coverage := ⟨.incomplete, .incomplete⟩
  comparison := noComparison
  failed := false
  stages := []
  finished := []

namespace Progress

/-- `flags.extend(more)`. -/
def flag (p : Progress) (more : List String) : Progress := { p with flags := p.flags ++ more }

/-- Start a stage and finish it, or leave it running. -/
def stage (p : Progress) (outcome : Option StageOutcome) (finished : List Instant) : Progress :=
  { p with stages := p.stages ++ [outcome], finished := p.finished ++ finished }

/-- `current[key] = record`. -/
def put (p : Progress) (record : RawRecord) : Progress :=
  { p with current := p.current.filter (·.sourceObjectKey ≠ record.sourceObjectKey) ++ [record] }

end Progress

/-- The variables of a poll after a part of it, with what the part returned or raised. -/
abbrev Part (α : Type) : Type := Except Raised α × Progress

namespace Acquisition

variable (a : Acquisition) (plan : MonitorPlan)

/-- The resource of an older document. -/
def historyKey (document : OlderDocument) : String := "submissions_history/" ++ plan.cik ++ "/" ++ document.name

/-- The older documents that overlap the window, and the others. -/
def historyScope (root : SubmissionDocument) : HistoryScope :=
  let overlaps (d : OlderDocument) : Bool := d.overlaps plan.inventoryStart plan.inventoryEnd
  { required := ((root.olderDocuments.filter overlaps).map (historyKey plan)).insertionSort (· ≤ ·)
    excludedNonoverlap := ((root.olderDocuments.filter fun d => ¬ overlaps d).map (historyKey plan)).insertionSort (· ≤ ·) }

/-- The inventory of the records of a root and of the older documents that it requires. -/
def inventory (records : List RawRecord) : Except Raised (FilingInventory × HistoryScope) := do
  raiseIf (¬ (records.map (·.sourceObjectKey)).Nodup) .value
  let record ← orRaise (records.find? (·.sourceObjectKey = submissionsKey plan.cik)) .value
  let root ← a.parse record
  let history := historyScope plan root
  let older ← (history.required.filterMap fun key => records.find? (·.sourceObjectKey = key)).mapM a.parse
  match assembleInventory root older plan.inventoryStart plan.inventoryEnd with
  | .ok inventory => return (inventory, history)
  | .error _ => throw .value

/-- `compare_inventories`, raising a `ValueError`. -/
def compare (baseline current : FilingInventory) : Except Raised Comparison :=
  match compareInventories baseline current plan with
  | .ok comparison => .ok comparison
  | .error _ => .error .value

/-- Fetch a resource within a stage of its own; the stage of a source that raises stays running. -/
def fetchResource (key : String) (p : Progress) : Part (Option RawRecord) :=
  match a.fetch key with
  | .refused e => (.error e, p)
  | .raised e finished => (.error e, p.stage none finished)
  | .unusable gaps finished =>
    let flags := if gaps = [] then ["source_unavailable"] else gaps
    (.ok none, { (p.stage (some .blocked) finished).flag flags with failed := true })
  | .usable captureId finished _ _ =>
    (.ok (some ⟨captureId, key⟩), (p.stage (some .completed) finished).put ⟨captureId, key⟩)

/-- Fetch the required older documents that the plan provides for. -/
def fetchHistory : List String → Progress → Part Unit
  | [], p => (.ok (), p)
  | key :: rest, p =>
    if key ∉ plan.resources then
      fetchHistory rest (p.flag ["unplanned_overlapping_history"])
    else
      match a.fetchResource key p with
      | (.error e, p) => (.error e, p)
      | (.ok _, p) => fetchHistory rest p

/-- Fetch the required older documents, if they are not too many. -/
def fetchRequired (required : List String) (p : Progress) : Part Unit :=
  if 10 < required.length then (.ok (), p.flag ["history_limit_exceeded"]) else a.fetchHistory plan required p

/-- Compare the inventory of what was fetched with the baseline's. -/
def compareCurrent (old : FilingInventory) (p : Progress) : Part Unit :=
  match a.inventory plan p.current with
  | .error .value => (.ok (), p.flag ["current_submissions_invalid"])
  | .error .archive => (.error .archive, p)
  | .ok (new, _) =>
    let p := { p with coverage := { p.coverage with current := new.completeness } }
    match compare plan old new with
    | .error e => (.error e, p)
    | .ok comparison => (.ok (), { p with comparison })

/-- Fetch the submissions and the older documents, and compare. -/
def acquireCurrent (old : FilingInventory) (p : Progress) : Part Unit :=
  match a.fetchResource (submissionsKey plan.cik) p with
  | (.error e, p) => (.error e, p)
  | (.ok none, p) => (.ok (), p)
  | (.ok (some record), p) =>
    match a.parse record with
    | .error .value => (.ok (), p.flag ["current_submissions_invalid"])
    | .error .archive => (.error .archive, p)
    | .ok root =>
      let history := historyScope plan root
      let p := { p with histories := { p.histories with current := some history } }
      match a.fetchRequired plan history.required p with
      | (.error e, p) => (.error e, p)
      | (.ok _, p) => a.compareCurrent plan old p

/-- The flags of a comparison that are about its baseline: `f.startswith("baseline")`. -/
def baselineFlags (comparison : Comparison) : List String :=
  comparison.flags.filter fun f => "baseline".toList <+: f.toList

/-- Read the baseline, and unless something is wrong with it, acquire what is current. -/
def acquire (p : Progress) : Part Unit :=
  match a.baseline with
  | .error e => (.error e, p)
  | .ok records =>
    match a.inventory plan records with
    | .error e => (.error e, p)
    | .ok (old, history) =>
      let p := { p with
        histories := { p.histories with baseline := some history }
        coverage := { p.coverage with baseline := old.completeness } }
      let p := if 10 < history.required.length then p.flag ["baseline_history_limit_exceeded"] else p
      match compare plan old old with
      | .error e => (.error e, p)
      | .ok check =>
        let p := p.flag (baselineFlags check)
        if p.flags = [] then
          a.acquireCurrent plan old p
        else
          (.ok (), { p with comparison := { p.comparison with baselineFilings := check.baselineFilings } })

/-- An exception becomes a flag. -/
def handle : Part Unit → Progress
  | (.ok _, p) => p
  | (.error .archive, p) => { p.flag ["archive_verification_failed"] with failed := true }
  | (.error .value, p) => p.flag ["baseline_submissions_invalid"]

/-- A flag or a failure makes the comparison incomplete. -/
def settle (p : Progress) : Progress :=
  if p.flags ≠ [] ∨ p.failed = true then
    { p with comparison := { p.comparison with
      outcome := if p.failed = true then .error else .incomplete
      baselineEligible := false
      flags := sortedSet (p.comparison.flags ++ p.flags) } }
  else
    p

/-- The variables at the end of a poll. -/
def progress : Progress := settle (handle (a.acquire plan .start))

end Acquisition

/-- The result of a poll. -/
structure PollResult where
  plan : MonitorPlan
  outcome : MonitorOutcome
  baselineEligible : Bool
  baselineCaptureIds : List Uuid
  currentCaptureIds : List Uuid
  checkedAt : Option Instant
  coverage : PollCoverage
  history : PollHistory
  comparison : Comparison
  manifestId : Uuid
  manifestSha256 : String
deriving DecidableEq, Repr

/-- `SELECT max(a.finished_at)` over the attempts of a request. -/
def lastFinished (finished : List Instant) : Option Instant := finished.max?

/-- The result that a poll assembles. -/
def runFilingMonitor (a : Acquisition) (plan : MonitorPlan) : PollResult :=
  let p := a.progress plan
  { plan
    outcome := p.comparison.outcome
    baselineEligible := p.comparison.baselineEligible
    baselineCaptureIds := a.baselineCaptureIds
    currentCaptureIds := (p.current.map (·.captureId)).insertionSort (· ≤ ·)
    checkedAt := lastFinished (a.earlierAttempts ++ p.finished)
    coverage := p.coverage
    history := p.histories
    comparison := p.comparison
    manifestId := a.manifestId
    manifestSha256 := a.manifestSha256 }

/-- The outcome of the execution after a result, with its reason. -/
def finishOutcome (result : PollResult) : Outcome × Option String :=
  if result.outcome = .error then (.failed, some "monitor_source_error")
  else (if result.baselineEligible = true then .completed else .completedWithGaps, none)

/-- The typed result that the result stage refers to. -/
def PollResult.typed (result : PollResult) : MonitorResult where
  outcome := result.outcome
  baselineEligible := result.baselineEligible
  flags := result.comparison.flags
  manifestId := result.manifestId
  manifestSha256 := result.manifestSha256
  checkedAt := result.checkedAt

end EquityEval.Discovery
