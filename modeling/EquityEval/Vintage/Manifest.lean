import EquityEval.Discovery.Inventory
import EquityEval.Ingestion.Tables

/-!
# Capture manifests

A manifest chooses for each required source object the newest successful captures that are known
at a cutoff. It lists the attempts that are known at the cutoff, those that failed after the chosen
captures, and flags what is missing, ambiguous or unresolved.
-/

namespace EquityEval.Vintage

open Relational Workflow Ingestion
open Discovery (ValueError sortedSet)

/-- `c.isspace()`. -/
def isSpace (c : Char) : Bool :=
  decide (9 ≤ c.toNat ∧ c.toNat ≤ 13) || decide (28 ≤ c.toNat ∧ c.toNat ≤ 32) ||
    decide (0x2000 ≤ c.toNat ∧ c.toNat ≤ 0x200a) ||
    [0x85, 0xa0, 0x1680, 0x2028, 0x2029, 0x202f, 0x205f, 0x3000].contains c.toNat

/-- `bool(text.strip())`. -/
def hasText (text : String) : Bool := text.toList.any fun c => !isSpace c

/-- A source and the key of one of its objects. -/
abbrev ObjectKey : Type := Uuid ×ₗ String

/-- A source object and why it is needed. -/
structure SourceObject where
  sourceId : Uuid
  sourceObjectKey : String
  role : String
  explicit : hasText sourceObjectKey ∧ hasText role
deriving DecidableEq

/-- The source object of given fields. -/
def SourceObject.make (sourceId : Uuid) (sourceObjectKey role : String) : Except ValueError SourceObject :=
  if h : hasText sourceObjectKey ∧ hasText role then
    .ok ⟨sourceId, sourceObjectKey, role, h⟩
  else
    .error ⟨"Source object key and role must be explicit"⟩

/-- The object without its role. -/
def SourceObject.identity (o : SourceObject) : ObjectKey := toLex (o.sourceId, o.sourceObjectKey)

/-- The object that a capture archived. -/
def captureObject (row : SourceCapture) : ObjectKey := toLex (row.sourceId, row.sourceObjectKey)

/-- The object that an attempt was made for. -/
def attemptObject (attempt : FetchAttempt) : ObjectKey := toLex (attempt.sourceId, attempt.sourceObjectKey)

/-- A time stamp of a caller; a naive one has no offset from UTC. -/
inductive DateTime where
  | aware (instant : Instant)
  | naive
deriving DecidableEq, Repr

/-- The captures and the attempts of a set of requirements as a cutoff knows them. -/
structure CaptureManifest where
  requirements : List SourceObject
  capturedBefore : Instant
  captureIds : List Uuid
  failedCaptureIds : List Uuid
  flags : List String
  usable : Bool
  attemptIds : List Uuid := []
  failedAttemptIds : List Uuid := []
deriving DecidableEq

/-- The archived rows, with the clock of the database. -/
structure Archive where
  clock : Instant
  captures : Table SourceCapture CapturesValid
  attempts : Table FetchAttempt AttemptsValid

/-- The capture holds a body of a successful response that was retrieved by the cutoff. -/
def successful (cutoff : Instant) (row : SourceCapture) : Bool :=
  row.httpStatus.any (fun status => decide (200 ≤ status ∧ status < 300)) &&
    row.fetchedAt.any (fun fetched => decide (fetched ≤ cutoff)) && row.bodySha256.isSome &&
    row.blobKey.any hasText && row.byteCount.isSome

/-- The states of an attempt that failed. -/
def failedState (state : AttemptState) : Bool :=
  state ∈ [.httpError, .transportError, .bodyLimit, .redirectRefused, .archiveError, .cancelled]

/-- The attempt is known to have finished by the cutoff. -/
def finishedBy (cutoff : Instant) (attempt : FetchAttempt) : Bool :=
  attempt.finishedAt.any fun finished => decide (finished ≤ cutoff)

/-- The outcome of the attempt is not known at the cutoff. -/
def outcomeUnknown (cutoff : Instant) (attempt : FetchAttempt) : Bool :=
  attempt.finishedAt.all (fun finished => decide (cutoff < finished)) || attempt.state = .interruptedUnknown

/-- What was found for the objects examined so far. -/
structure Findings where
  selected : List Uuid := []
  failed : List Uuid := []
  flags : List String := []
  failedAttempts : List Uuid := []
deriving DecidableEq

/-- The newest retrieval of successful captures. -/
def newestFetch (successes : List SourceCapture) : Option Instant := (successes.filterMap (·.fetchedAt)).max?

/-- The captures of the newest retrieval. -/
def latestCaptures (successes : List SourceCapture) : List SourceCapture :=
  successes.filter fun row => row.fetchedAt = newestFetch successes

/-- Captures of one retrieval with several bodies. -/
def ambiguous (latest : List SourceCapture) : Bool := decide (1 < (latest.map (·.bodySha256)).dedup.length)

/-- The captures that an object contributes to the selection. -/
def chosenCaptures (successes : List SourceCapture) : List Uuid :=
  if newestFetch successes = none ∨ ambiguous (latestCaptures successes) then [] else
    (latestCaptures successes).map (·.id)

/-- The instants at which known attempts found a selected capture unmodified. -/
def validations (selected : List Uuid) (known : List FetchAttempt) : List Instant :=
  (known.filter fun attempt =>
    attempt.state = .notModified && attempt.reusedCaptureId.any fun reused => decide (reused ∈ selected)).filterMap
      (·.finishedAt)

/-- `freshness_boundary is None or instant >= freshness_boundary`. -/
def current (boundary instant : Option Instant) : Bool :=
  boundary.all fun b => instant.any fun i => decide (b ≤ i)

/-- The newest retrieval of an object, or a later validation of a selected capture. -/
def freshnessBoundary (successes : List SourceCapture) (selected : List Uuid) (known : List FetchAttempt) :
    Option Instant := (newestFetch successes).map fun newest => (validations selected known).foldr max newest

/-- The attempts that failed since the boundary. -/
def currentAttemptFailures (boundary : Option Instant) (known : List FetchAttempt) : List FetchAttempt :=
  known.filter fun attempt => failedState attempt.state && current boundary attempt.finishedAt

/-- The unsuccessful captures since the boundary. -/
def laterFailures (cutoff : Instant) (boundary : Option Instant) (captures : List SourceCapture) : List SourceCapture :=
  captures.filter fun row => !successful cutoff row && row.httpStatus ≠ some 304 && current boundary row.completedAt

/-- The flags of an object. -/
def objectFlags (successes : List SourceCapture) (unresolved failed : Bool) : List String :=
  (if newestFetch successes = none then ["capture_unavailable"]
    else if ambiguous (latestCaptures successes) then ["ambiguous_capture_vintage"] else []) ++
    (if unresolved then ["source_attempt_outcome_unknown"] else []) ++
    (if failed then [if newestFetch successes = none then "capture_failed" else "newer_capture_failed"] else [])

/-- Examine the rows of one object. -/
def examine (cutoff : Instant) (rows : List SourceCapture) (attempts : List FetchAttempt) (found : Findings)
    (identity : ObjectKey) : Findings :=
  let captures := rows.filter fun row => captureObject row = identity
  let group := attempts.filter fun attempt => attemptObject attempt = identity
  let successes := captures.filter (successful cutoff)
  let selected := found.selected ++ chosenCaptures successes
  let known := group.filter (finishedBy cutoff)
  let boundary := freshnessBoundary successes selected known
  let failedAttempts := (currentAttemptFailures boundary known).map (·.id)
  let failed := (laterFailures cutoff boundary captures).map (·.id)
  { selected
    failed := found.failed ++ failed
    flags := found.flags ++
      objectFlags successes (group.any (outcomeUnknown cutoff)) (!failedAttempts.isEmpty || !failed.isEmpty)
    failedAttempts := found.failedAttempts ++ failedAttempts }

/-- The objects of requirements, each once. -/
def requiredObjects (requirements : List SourceObject) : List ObjectKey :=
  sortedSet (requirements.map (·.identity))

/-- The captures of the objects that are complete by the cutoff. -/
def selectedCaptures (objects : List ObjectKey) (cutoff : Instant) (rows : List SourceCapture) : List SourceCapture :=
  rows.filter fun row => captureObject row ∈ objects && row.completedAt.any fun completed => decide (completed ≤ cutoff)

/-- The attempts for the objects that were prepared by the cutoff. -/
def selectedAttempts (objects : List ObjectKey) (cutoff : Instant) (attempts : List FetchAttempt) : List FetchAttempt :=
  attempts.filter fun attempt => decide (attemptObject attempt ∈ objects ∧ attempt.preparedAt ≤ cutoff)

/-- The manifest of the rows that were read for a set of requirements. -/
def manifestOf (requirements : List SourceObject) (cutoff : Instant) (rows : List SourceCapture)
    (attempts : List FetchAttempt) : CaptureManifest :=
  let found := (requiredObjects requirements).foldl (examine cutoff rows attempts) {}
  { requirements
    capturedBefore := cutoff
    captureIds := sortedSet found.selected
    failedCaptureIds := sortedSet found.failed
    flags := sortedSet found.flags
    usable := !found.flags.any fun flag => flag ∈ ["capture_unavailable", "ambiguous_capture_vintage"]
    attemptIds := (attempts.map (·.id)).insertionSort (· ≤ ·)
    failedAttemptIds := sortedSet found.failedAttempts }

/-- The manifest of a set of requirements at a cutoff. -/
def prepareCaptureManifest (archive : Archive) (idle : Bool) (requirements : List SourceObject)
    (capturedBefore : DateTime) : Except ValueError CaptureManifest := do
  let cutoff ← match capturedBefore with
    | .aware instant => pure instant
    | .naive => throw ⟨"Retrieval vintage requires a timezone-aware timestamp"⟩
  raiseIf (requirements = [] ∨ ¬ requirements.Nodup)
    ⟨"requirements must be a nonempty tuple of unique SourceObject values"⟩
  raiseIf (¬ idle) ⟨"Capture preparation requires an idle connection"⟩
  let objects := requiredObjects requirements
  return manifestOf requirements cutoff (selectedCaptures objects cutoff archive.captures.rows)
    (selectedAttempts objects cutoff archive.attempts.rows)

end EquityEval.Vintage
