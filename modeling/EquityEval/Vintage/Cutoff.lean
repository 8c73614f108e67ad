import Mathlib.Data.List.Perm.Basic
import EquityEval.Transition.System
import EquityEval.Vintage.Manifest

/-!
# What a cutoff knows

An archive appends captures and attempts, and an attempt that has not finished may progress. A
manifest depends only on what its cutoff knows of the rows: of a capture nothing unless it is
complete, of an attempt nothing unless it is prepared, and not how it progressed unless it has
finished. Whatever is recorded later than the cutoff leaves this alone.
-/

namespace EquityEval.Vintage

open Relational Workflow Ingestion TransitionSystem
open Discovery (ValueError sortedSet sortedSet_perm)

/-! ### Histories -/

/-- What may be recorded in an archive. -/
inductive Event where
  /-- Time passes. -/
  | pass
  /-- A capture is appended. -/
  | capture (row : SourceCapture)
  /-- An attempt is appended. -/
  | prepare (attempt : FetchAttempt)
  /-- An unfinished attempt is dispatched, receives headers or finishes. -/
  | progress (attempt progressed : FetchAttempt)
  /-- The rows are kept in another order. -/
  | reorder

/-- Recording an event leads from one archive to another. -/
def Archive.Records (s : Archive) (event : Event) (s' : Archive) : Prop :=
  match event with
  | .pass => s.clock ≤ s'.clock ∧ s'.captures.rows = s.captures.rows ∧ s'.attempts.rows = s.attempts.rows
  | .capture row =>
    s'.clock = s.clock ∧ s'.captures.rows = s.captures.rows ++ [row] ∧ s'.attempts.rows = s.attempts.rows
  | .prepare attempt =>
    s'.clock = s.clock ∧ attempt.preparedAt ≤ s.clock ∧ s'.captures.rows = s.captures.rows ∧
      s'.attempts.rows = s.attempts.rows ++ [attempt]
  | .progress attempt progressed =>
    s'.clock = s.clock ∧ attempt ∈ s.attempts.rows ∧ attempt.finishedAt = none ∧
      progressed.identity = attempt.identity ∧ s'.captures.rows = s.captures.rows ∧
      s'.attempts.rows = s.attempts.rows.map fun row => if row = attempt then progressed else row
  | .reorder =>
    s'.clock = s.clock ∧ s'.captures.rows.Perm s.captures.rows ∧ s'.attempts.rows.Perm s.attempts.rows

/-- The completion and finish times that an event records are later than a cutoff. -/
def Event.OutcomesAfter (cutoff : Instant) : Event → Prop
  | .capture row => ∀ completed ∈ row.completedAt, cutoff < completed
  | .prepare attempt => ∀ finished ∈ attempt.finishedAt, cutoff < finished
  | .progress _ progressed => ∀ finished ∈ progressed.finishedAt, cutoff < finished
  | _ => True

/-- The preparation time that an event records is later than a cutoff. -/
def Event.PreparedAfter (cutoff : Instant) : Event → Prop
  | .prepare attempt => cutoff < attempt.preparedAt
  | _ => True

/-- The histories of admitted events. -/
def history (admitted : Event → Prop) : System Archive Event where
  initial _ := True
  step s event s' := admitted event ∧ s.Records event s'

/-! ### The rows that a cutoff knows -/

section Known

variable (cutoff : Instant)

/-- What a cutoff knows of an attempt: how it finished, or only how it was prepared. -/
def asKnown (attempt : FetchAttempt) : FetchAttempt :=
  if finishedBy cutoff attempt then attempt else attempt.identity

/-- The captures that a cutoff knows. -/
def Archive.knownCaptures (s : Archive) : List SourceCapture :=
  s.captures.rows.filter fun row => row.completedAt.any fun completed => decide (completed ≤ cutoff)

/-- The attempts that a cutoff knows. -/
def Archive.knownAttempts (s : Archive) : List FetchAttempt :=
  (s.attempts.rows.filter fun attempt => decide (attempt.preparedAt ≤ cutoff)).map (asKnown cutoff)

/-- A cutoff knows the same of two archives. -/
def SameAt (s s' : Archive) : Prop :=
  (s.knownCaptures cutoff).Perm (s'.knownCaptures cutoff) ∧ (s.knownAttempts cutoff).Perm (s'.knownAttempts cutoff)

instance : IsPreorder Archive (SameAt cutoff) where
  refl _ := ⟨.refl _, .refl _⟩
  trans _ _ _ h h' := ⟨h.1.trans h'.1, h.2.trans h'.2⟩

variable {cutoff}

/-- An attempt that has no finish by the cutoff is known as it was prepared. -/
theorem asKnown_of_later {attempt : FetchAttempt} (h : ∀ finished ∈ attempt.finishedAt, cutoff < finished) :
    asKnown cutoff attempt = attempt.identity := by
  have hfinished : ¬ finishedBy cutoff attempt := by
    unfold finishedBy
    cases hcase : attempt.finishedAt with
    | none => simp
    | some finished => simpa using h finished hcase
  simp only [asKnown, hfinished, if_false, Bool.false_eq_true]

/-- An attempt keeps its preparation time when it progresses. -/
theorem preparedAt_of_identity {attempt progressed : FetchAttempt} (h : progressed.identity = attempt.identity) :
    progressed.preparedAt = attempt.preparedAt := (congrArg FetchAttempt.preparedAt h :)

/-- Recording what is later than a cutoff leaves alone what the cutoff knows. -/
theorem Archive.Records.sameAt {s s' : Archive} {event : Event} (h : s.Records event s')
    (houtcomes : event.OutcomesAfter cutoff) (hprepared : event.PreparedAfter cutoff) : SameAt cutoff s s' := by
  cases event with
  | pass =>
    obtain ⟨-, hcaptures, hattempts⟩ := h
    simp only [SameAt, knownCaptures, knownAttempts, hcaptures, hattempts]
    exact ⟨.refl _, .refl _⟩
  | capture row =>
    obtain ⟨-, hcaptures, hattempts⟩ := h
    have hrow : (row.completedAt.any fun completed => decide (completed ≤ cutoff)) = false := by
      cases hcase : row.completedAt with
      | none => rfl
      | some completed => simpa using houtcomes completed hcase
    simp only [SameAt, knownCaptures, knownAttempts, hcaptures, hattempts, List.filter_append]
    simp [hrow]
  | prepare attempt =>
    obtain ⟨-, -, hcaptures, hattempts⟩ := h
    have hlate : ¬ attempt.preparedAt ≤ cutoff := not_le.mpr hprepared
    simp only [SameAt, knownCaptures, knownAttempts, hcaptures, hattempts, List.filter_append]
    simp [hlate]
  | progress attempt progressed =>
    obtain ⟨-, -, hunfinished, hidentity, hcaptures, hattempts⟩ := h
    -- Neither the attempt nor what it progressed to has finished by the cutoff.
    have hsame : asKnown cutoff progressed = asKnown cutoff attempt := by
      rw [asKnown_of_later houtcomes, asKnown_of_later (by simp [hunfinished]), hidentity]
    have hprepared' := preparedAt_of_identity hidentity
    have hkept : s'.knownAttempts cutoff = s.knownAttempts cutoff := by
      simp only [knownAttempts, hattempts, List.filter_map, List.map_map]
      congr 1
      · funext row
        by_cases hrow : row = attempt <;> simp [hrow, hsame]
      · congr 1
        funext row
        by_cases hrow : row = attempt <;> simp [hrow, hprepared']
    simp only [SameAt, knownCaptures, hcaptures, hkept]
    exact ⟨.refl _, .refl _⟩
  | reorder =>
    obtain ⟨-, hcaptures, hattempts⟩ := h
    exact ⟨(hcaptures.filter _).symm, ((hattempts.filter _).map _).symm⟩

end Known

/-! ### A manifest depends on what its cutoff knows -/

section Knowledge

variable {cutoff : Instant}

/-- What is known of an attempt is for the same object. -/
@[simp] theorem attemptObject_asKnown (attempt : FetchAttempt) :
    attemptObject (asKnown cutoff attempt) = attemptObject attempt := by
  unfold asKnown
  split <;> rfl

/-- What is known of an attempt has the same identifier. -/
@[simp] theorem id_asKnown (attempt : FetchAttempt) : (asKnown cutoff attempt).id = attempt.id := by
  unfold asKnown
  split <;> rfl

/-- An attempt that finished is known as it is. -/
theorem asKnown_of_finishedBy {attempt : FetchAttempt} (h : finishedBy cutoff attempt) :
    asKnown cutoff attempt = attempt := if_pos h

/-- Whether an attempt finished is known. -/
@[simp] theorem finishedBy_asKnown (attempt : FetchAttempt) :
    finishedBy cutoff (asKnown cutoff attempt) = finishedBy cutoff attempt := by
  by_cases h : finishedBy cutoff attempt
  · rw [asKnown_of_finishedBy h]
  · simp only [asKnown, h]
    rfl

/-- Whether the outcome of an attempt is unknown is known, unless a later one is. -/
@[simp] theorem outcomeUnknown_asKnown (attempt : FetchAttempt) :
    outcomeUnknown cutoff (asKnown cutoff attempt) = outcomeUnknown cutoff attempt := by
  by_cases h : finishedBy cutoff attempt
  · rw [asKnown_of_finishedBy h]
  · have hlate : attempt.finishedAt.all (fun finished => decide (cutoff < finished)) = true := by
      unfold finishedBy at h
      cases hcase : attempt.finishedAt with
      | none => rfl
      | some finished => simpa [hcase] using h
    simp only [asKnown, h, outcomeUnknown, hlate, Bool.true_or]
    rfl

/-- The attempts that finished are found among what is known. -/
theorem filter_finishedBy_asKnown (attempts : List FetchAttempt) :
    (attempts.map (asKnown cutoff)).filter (finishedBy cutoff) = attempts.filter (finishedBy cutoff) := by
  induction attempts with
  | nil => rfl
  | cons attempt rest ih =>
    by_cases h : finishedBy cutoff attempt
    · simp [h, ih, asKnown_of_finishedBy h]
    · simp [h, ih]

/-- The attempts for an object are found among what is known. -/
theorem filter_attemptObject_asKnown (attempts : List FetchAttempt) (condition : ObjectKey → Bool) :
    (attempts.map (asKnown cutoff)).filter (fun attempt => condition (attemptObject attempt)) =
      (attempts.filter fun attempt => condition (attemptObject attempt)).map (asKnown cutoff) := by
  simp only [List.filter_map, Function.comp_def, attemptObject_asKnown]

/-- An object is examined by what is known of its attempts. -/
theorem examine_asKnown (rows : List SourceCapture) (attempts : List FetchAttempt) :
    examine cutoff rows (attempts.map (asKnown cutoff)) = examine cutoff rows attempts := by
  funext found identity
  simp only [examine, filter_attemptObject_asKnown attempts fun object => decide (object = identity),
    filter_finishedBy_asKnown, List.any_map, Function.comp_def, outcomeUnknown_asKnown]

/-- A manifest is made of what is known of the attempts. -/
theorem manifestOf_asKnown (requirements : List SourceObject) (rows : List SourceCapture)
    (attempts : List FetchAttempt) :
    manifestOf requirements cutoff rows (attempts.map (asKnown cutoff)) = manifestOf requirements cutoff rows attempts := by
  simp only [manifestOf, examine_asKnown, List.map_map, Function.comp_def, id_asKnown]

end Knowledge

/-! ### A manifest does not depend on the order of the rows -/

section Order

/-- The greatest instant is that of the same instants in another order. -/
theorem max?_perm {instants instants' : List Instant} (h : instants.Perm instants') : instants.max? = instants'.max? := by
  cases hmax : instants.max? with
  | none =>
    rw [List.max?_eq_none_iff] at hmax
    rw [hmax, List.nil_perm] at h
    rw [h]
    rfl
  | some greatest =>
    rw [List.max?_eq_some_iff] at hmax
    exact (List.max?_eq_some_iff.mpr ⟨h.mem_iff.mp hmax.1, fun i hi => hmax.2 i (h.mem_iff.mpr hi)⟩).symm

variable {successes successes' : List SourceCapture}

/-- The newest retrieval of captures in another order. -/
theorem newestFetch_perm (h : successes.Perm successes') : newestFetch successes = newestFetch successes' :=
  max?_perm (h.filterMap _)

/-- The captures of the newest retrieval, in another order. -/
theorem latestCaptures_perm (h : successes.Perm successes') :
    (latestCaptures successes).Perm (latestCaptures successes') := by
  unfold latestCaptures
  rw [newestFetch_perm h]
  exact h.filter _

/-- The number of bodies of captures in another order. -/
theorem ambiguous_perm (h : successes.Perm successes') : ambiguous successes = ambiguous successes' := by
  unfold ambiguous
  rw [(h.map _).dedup.length_eq]

/-- The chosen captures, in another order. -/
theorem chosenCaptures_perm (h : successes.Perm successes') :
    (chosenCaptures successes).Perm (chosenCaptures successes') := by
  unfold chosenCaptures
  rw [newestFetch_perm h, ambiguous_perm (latestCaptures_perm h)]
  split
  · exact .refl _
  · exact (latestCaptures_perm h).map _

/-- The validations of selected captures and of attempts in another order. -/
theorem validations_perm {selected selected' : List Uuid} {known known' : List FetchAttempt}
    (h : selected.Perm selected') (hknown : known.Perm known') :
    (validations selected known).Perm (validations selected' known') := by
  unfold validations
  simp only [h.mem_iff]
  exact (hknown.filter _).filterMap _

/-- The boundary of an object whose rows are in another order. -/
theorem freshnessBoundary_perm (h : successes.Perm successes') {selected selected' : List Uuid}
    (hselected : selected.Perm selected') {known known' : List FetchAttempt} (hknown : known.Perm known') :
    freshnessBoundary successes selected known = freshnessBoundary successes' selected' known' := by
  unfold freshnessBoundary
  rw [newestFetch_perm h]
  congr 1
  funext newest
  exact (validations_perm hselected hknown).foldr_eq newest

/-- The failed attempts since a boundary, in another order. -/
theorem currentAttemptFailures_perm (boundary : Option Instant) {known known' : List FetchAttempt}
    (h : known.Perm known') :
    (currentAttemptFailures boundary known).Perm (currentAttemptFailures boundary known') := h.filter _

/-- The unsuccessful captures since a boundary, in another order. -/
theorem laterFailures_perm (cutoff : Instant) (boundary : Option Instant) {captures captures' : List SourceCapture}
    (h : captures.Perm captures') :
    (laterFailures cutoff boundary captures).Perm (laterFailures cutoff boundary captures') := h.filter _

/-- The flags of an object do not depend on the order of its captures. -/
theorem objectFlags_perm (h : successes.Perm successes') (unresolved failed : Bool) :
    objectFlags successes unresolved failed = objectFlags successes' unresolved failed := by
  unfold objectFlags
  rw [newestFetch_perm h, ambiguous_perm (latestCaptures_perm h)]

/-- The same findings in another order. -/
structure Findings.Perm (found found' : Findings) : Prop where
  selected : found.selected.Perm found'.selected
  failed : found.failed.Perm found'.failed
  flags : found.flags.Perm found'.flags
  failedAttempts : found.failedAttempts.Perm found'.failedAttempts

variable {cutoff : Instant} {rows rows' : List SourceCapture} {attempts attempts' : List FetchAttempt}

/-- An object is examined alike when its rows are in another order. -/
theorem examine_perm (hrows : rows.Perm rows') (hattempts : attempts.Perm attempts') {found found' : Findings}
    (h : found.Perm found') (identity : ObjectKey) :
    (examine cutoff rows attempts found identity).Perm (examine cutoff rows' attempts' found' identity) := by
  have hcaptures := hrows.filter fun row => decide (captureObject row = identity)
  have hgroup := hattempts.filter fun attempt => decide (attemptObject attempt = identity)
  have hsuccesses := hcaptures.filter (successful cutoff)
  have hknown := hgroup.filter (finishedBy cutoff)
  have hselected := h.selected.append (chosenCaptures_perm hsuccesses)
  have hboundary := freshnessBoundary_perm hsuccesses hselected hknown
  have hfailedAttempts := fun boundary => (currentAttemptFailures_perm boundary hknown).map FetchAttempt.id
  have hfailed := fun boundary => (laterFailures_perm cutoff boundary hcaptures).map SourceCapture.id
  constructor
  · exact hselected
  · simp only [examine, hboundary]
    exact h.failed.append (hfailed _)
  · simp only [examine, hboundary, objectFlags_perm hsuccesses, hgroup.any_eq, (hfailedAttempts _).isEmpty_eq,
      (hfailed _).isEmpty_eq]
    exact h.flags.append (.refl _)
  · simp only [examine, hboundary]
    exact h.failedAttempts.append (hfailedAttempts _)

/-- The objects are examined alike when the rows are in another order. -/
theorem foldl_examine_perm (hrows : rows.Perm rows') (hattempts : attempts.Perm attempts') (objects : List ObjectKey)
    {found found' : Findings} (h : found.Perm found') :
    (objects.foldl (examine cutoff rows attempts) found).Perm (objects.foldl (examine cutoff rows' attempts') found') := by
  induction objects generalizing found found' with
  | nil => exact h
  | cons identity rest ih => exact ih (examine_perm hrows hattempts h identity)

/-- A manifest does not depend on the order in which its rows were read. -/
theorem manifestOf_perm (requirements : List SourceObject) (hrows : rows.Perm rows') (hattempts : attempts.Perm attempts') :
    manifestOf requirements cutoff rows attempts = manifestOf requirements cutoff rows' attempts' := by
  have hfound : ((requiredObjects requirements).foldl (examine cutoff rows attempts) {}).Perm
      ((requiredObjects requirements).foldl (examine cutoff rows' attempts') {}) :=
    foldl_examine_perm hrows hattempts _ ⟨.refl _, .refl _, .refl _, .refl _⟩
  have hids := ((List.perm_insertionSort (· ≤ ·) _).trans
    ((hattempts.map FetchAttempt.id).trans (List.perm_insertionSort (· ≤ ·) _).symm)).eq_of_pairwise'
      (List.pairwise_insertionSort (· ≤ ·) _) (List.pairwise_insertionSort (· ≤ ·) _)
  simp only [manifestOf, sortedSet_perm hfound.selected, sortedSet_perm hfound.failed, sortedSet_perm hfound.flags,
    sortedSet_perm hfound.failedAttempts, hfound.flags.any_eq, hids]

end Order

/-! ### What becomes known later -/

section Reproducibility

variable {cutoff : Instant} {s s' : Archive}

/-- The captures of objects are read from those that the cutoff knows. -/
theorem selectedCaptures_eq (objects : List ObjectKey) :
    selectedCaptures objects cutoff s.captures.rows =
      (s.knownCaptures cutoff).filter fun row => decide (captureObject row ∈ objects) := by
  simp only [selectedCaptures, Archive.knownCaptures, List.filter_filter]

/-- What is known of the attempts that are read is read from the attempts that the cutoff knows. -/
theorem selectedAttempts_asKnown (objects : List ObjectKey) :
    (selectedAttempts objects cutoff s.attempts.rows).map (asKnown cutoff) =
      (s.knownAttempts cutoff).filter fun attempt => decide (attemptObject attempt ∈ objects) := by
  rw [Archive.knownAttempts, filter_attemptObject_asKnown _ fun object => decide (object ∈ objects)]
  simp only [selectedAttempts, List.filter_filter, Bool.decide_and]

/-- Archives of which a cutoff knows the same have the same manifest. -/
theorem prepareCaptureManifest_sameAt (h : SameAt cutoff s s') (idle : Bool) (requirements : List SourceObject) :
    prepareCaptureManifest s idle requirements (.aware cutoff) =
      prepareCaptureManifest s' idle requirements (.aware cutoff) := by
  have hmanifest : ∀ objects,
      manifestOf requirements cutoff (selectedCaptures objects cutoff s.captures.rows)
          (selectedAttempts objects cutoff s.attempts.rows) =
        manifestOf requirements cutoff (selectedCaptures objects cutoff s'.captures.rows)
          (selectedAttempts objects cutoff s'.attempts.rows) := by
    intro objects
    rw [← manifestOf_asKnown, selectedAttempts_asKnown, selectedCaptures_eq,
      ← manifestOf_asKnown requirements (selectedCaptures objects cutoff s'.captures.rows), selectedAttempts_asKnown,
      selectedCaptures_eq]
    exact manifestOf_perm _ (h.1.filter _) (h.2.filter _)
  simp only [prepareCaptureManifest, pure_bind, hmanifest]

/-- The manifest for a cutoff is the same at any two moments of a history, when every completion,
finish and preparation time that is recorded between them is later than the cutoff. -/
theorem manifest_reproducible (cutoff : Instant) (requirements : List SourceObject) (idle : Bool) {first later : Archive}
    (h : (history fun event => event.OutcomesAfter cutoff ∧ event.PreparedAfter cutoff).Run first later) :
    prepareCaptureManifest first idle requirements (.aware cutoff) =
      prepareCaptureManifest later idle requirements (.aware cutoff) := by
  refine prepareCaptureManifest_sameAt (h.follows (R := SameAt cutoff) ?_) idle requirements
  rintro s event s' ⟨⟨houtcomes, hprepared⟩, hrecords⟩
  exact hrecords.sameAt houtcomes hprepared

end Reproducibility

/-! ### An attempt that is prepared at the cutoff -/

/-- An empty archive at an instant. -/
def emptyArchive (clock : Instant) : Archive where
  clock
  captures := ⟨[], capturesValid_nil⟩
  attempts := ⟨[], attemptsValid_nil⟩

/-- An attempt for the submissions of an issuer. -/
def preparedAttempt (preparedAt : Instant) : FetchAttempt where
  id := 1
  logicalFetchId := 1
  sequenceNo := 1
  sourceId := 1
  policyRevisionId := 1
  sourceObjectKey := "submissions/0000320193"
  requestUrl := "https://data.sec.gov/submissions/CIK0000320193.json"
  requestParamsHash := "e3b0c44298fc1c149afbf4c8996fb92427ae41e4649b934ca495991b7852b855"
  stageAttemptId := 1
  leaseEpoch := 1
  leaseFencingToken := 1
  leaseOwner := "worker"
  creationTransactionId := 1
  preparedAt

/-- An archive at an instant at which the attempt was prepared. -/
def preparedArchive : Archive where
  clock := 0
  captures := ⟨[], capturesValid_nil⟩
  attempts := ⟨[preparedAttempt 0], by decide +kernel⟩

/-- The submissions of an issuer. -/
def submissionsObject : SourceObject := ⟨1, "submissions/0000320193", "monitor", by decide +kernel⟩

/-- The attempt that is prepared later than the cutoff does not change its manifest. -/
theorem manifest_reproducible_sample :
    prepareCaptureManifest (emptyArchive 0) true [submissionsObject] (.aware (-1)) =
      prepareCaptureManifest preparedArchive true [submissionsObject] (.aware (-1)) :=
  manifest_reproducible (-1) [submissionsObject] true (.single (a := .prepare (preparedAttempt 0))
    ⟨⟨nofun, show (-1 : Instant) < 0 by decide⟩, rfl, by decide, rfl, rfl⟩)

/-- An attempt that is prepared at the cutoff after the first moment changes the manifest, although
no completion or finish time is recorded. -/
theorem prepared_at_cutoff_differs :
    ∃ (cutoff : Instant) (first later : Archive), cutoff ≤ first.clock ∧
      (history fun event => event.OutcomesAfter cutoff).Run first later ∧
      prepareCaptureManifest first true [submissionsObject] (.aware cutoff) ≠
        prepareCaptureManifest later true [submissionsObject] (.aware cutoff) :=
  ⟨0, emptyArchive 0, preparedArchive, by decide,
    .single (a := .prepare (preparedAttempt 0)) ⟨nofun, rfl, by decide, rfl, rfl⟩, by decide +kernel⟩

end EquityEval.Vintage
