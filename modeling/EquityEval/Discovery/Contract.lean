import EquityEval.Discovery.Poll

/-!
# The contract of a monitor result

The database accepts a result only when its parts agree. Whatever the acquisition answers, the result
of a poll passes these checks.
-/

namespace EquityEval.Discovery

open Relational Workflow

/-- The outcome that the numbers of new filings and of amendments stand for. -/
def changeOutcome (newFilings amendments : ℕ) : MonitorOutcome :=
  if 0 < newFilings ∧ 0 < amendments then .mixedChanges
  else if 0 < newFilings then .newFiling
  else if 0 < amendments then .amendment
  else .noChange

/-- The checks of `workflow_complete_monitor` that relate the parts of a result to each other, to the
plan, to the captures and to the attempts of the request. -/
def completeMonitorChecks (sourceObjectKey : Uuid → String) (plan : MonitorPlan) (baselineCaptureIds : List Uuid)
    (expected : Option Instant) (result : PollResult) : Except SqlError Unit := do
  raiseIf (result.plan ≠ plan ∨ result.comparison.outcome ≠ result.outcome ∨
    result.comparison.baselineEligible ≠ result.baselineEligible ∨ result.baselineEligible ≠ result.outcome.eligible)
    ⟨.checkViolation, "invalid typed monitor result"⟩
  raiseIf (result.baselineCaptureIds ≠ baselineCaptureIds)
    ⟨.checkViolation, "result baseline differs from reviewed predecessor"⟩
  raiseIf (¬ result.currentCaptureIds.Nodup ∨ ¬ (result.currentCaptureIds.map sourceObjectKey).Nodup)
    ⟨.checkViolation, "duplicate or ambiguous current capture"⟩
  raiseIf (∃ c ∈ result.currentCaptureIds, sourceObjectKey c ∉ plan.resources)
    ⟨.checkViolation, "current capture lacks monitor execution source evidence"⟩
  raiseIf (result.checkedAt ≠ expected) ⟨.checkViolation, "checked time must equal actual attempt completion"⟩
  raiseIf (result.baselineEligible = true ∧ (expected = none ∨ result.comparison.flags ≠ [] ∨
    result.coverage.baseline ≠ .complete ∨ result.coverage.current ≠ .complete ∨
    result.comparison.metadataChanges ≠ [] ∨ result.comparison.missingAccessions ≠ [] ∨
    ¬ ∃ c ∈ result.currentCaptureIds, sourceObjectKey c = submissionsKey plan.cik))
    ⟨.checkViolation, "complete monitor requires complete clean inventories"⟩
  raiseIf (result.baselineEligible = true ∧
    result.outcome ≠ changeOutcome result.comparison.newFilings.length result.comparison.amendments.length)
    ⟨.checkViolation, "change outcome disagrees with observed filings"⟩

/-! ### Comparisons -/

/-- The outcome of a comparison without flags is that of the numbers of its filings. -/
theorem comparisonOutcome_nil (originals amendments : List Observation) :
    comparisonOutcome [] originals amendments = changeOutcome originals.length amendments.length := by
  simp [comparisonOutcome, changeOutcome, List.length_pos_iff]

/-- The change outcomes are the eligible ones. -/
theorem changeOutcome_eligible (n m : ℕ) : (changeOutcome n m).eligible = true := by
  unfold changeOutcome
  split
  · rfl
  split
  · rfl
  split <;> rfl

/-- A flag that stands for a list is missing exactly when the list is empty. -/
theorem flag_eq_nil {α : Type} {l : List α} [Decidable (l ≠ [])] {text : String} :
    (if l ≠ [] then [text] else []) = [] ↔ l = [] := by
  split <;> simp_all

/-- A comparison is incomplete, or it is eligible and clean and both inventories are complete. -/
structure Consistent (c : Comparison) (coverage : PollCoverage) : Prop where
  eligible : c.baselineEligible = c.outcome.eligible
  incomplete : c.baselineEligible = false → c.outcome = .incomplete
  clean : c.baselineEligible = true → c.flags = [] ∧ c.metadataChanges = [] ∧ c.missingAccessions = [] ∧
    c.outcome = changeOutcome c.newFilings.length c.amendments.length ∧
    coverage.baseline = .complete ∧ coverage.current = .complete

/-- What a comparison returns is consistent with the completeness of its inventories. -/
theorem compareInventories_consistent {baseline current : FilingInventory} {plan : MonitorPlan} {c : Comparison}
    (h : compareInventories baseline current plan = .ok c) :
    Consistent c ⟨baseline.completeness, current.completeness⟩ := by
  unfold compareInventories at h
  obtain ⟨old, hold, h⟩ := bind_eq_ok.mp h
  obtain ⟨new, hnew, h⟩ := bind_eq_ok.mp h
  rw [← pure_eq_ok.mp h]
  generalize hflags : sortedSet (α := String) _ = flags
  constructor
  · by_cases hnil : flags = []
    · simp [hnil, comparisonOutcome_nil, changeOutcome_eligible]
    · simp [hnil, comparisonOutcome, MonitorOutcome.eligible]
  · intro hnot
    have hne : flags ≠ [] := by simpa using hnot
    simp [comparisonOutcome, hne]
  · intro heligible
    have hnil : flags = [] := by simpa using heligible
    rw [hnil, sortedSet_eq_nil] at hflags
    simp only [List.append_eq_nil_iff, flag_eq_nil] at hflags
    obtain ⟨⟨⟨holdFlags, hnewFlags⟩, hdisappeared⟩, hchanged⟩ := hflags
    refine ⟨hnil, hchanged, hdisappeared, ?_, (selected_clean hold holdFlags).2.1, (selected_clean hnew hnewFlags).2.1⟩
    rw [hnil, comparisonOutcome_nil]

/-! ### Fetching -/

section

variable {a : Acquisition} {plan : MonitorPlan} {p p' : Progress}

/-- What holds of the variables of a poll at all times. -/
structure Held (a : Acquisition) (plan : MonitorPlan) (p : Progress) : Prop where
  unique : UniqueBy RawRecord.sourceObjectKey p.current
  owned : ∀ r ∈ p.current, a.sourceObjectKey r.captureId = r.sourceObjectKey ∧ r.sourceObjectKey ∈ plan.resources
  stages : p.failed = false → ∀ s ∈ p.stages, s = none ∨ s = some .completed

/-- A part of a poll keeps the comparison and the completeness, and loses nothing fetched. -/
structure Frame (p p' : Progress) : Prop where
  comparison : p'.comparison = p.comparison
  coverage : p'.coverage = p.coverage
  current : ∀ r ∈ p.current, ∃ r' ∈ p'.current, r'.sourceObjectKey = r.sourceObjectKey
  finished : p.finished ≠ [] → p'.finished ≠ []

/-- Nothing changes. -/
theorem Frame.refl (p : Progress) : Frame p p := ⟨rfl, rfl, fun r hr => ⟨r, hr, rfl⟩, id⟩

/-- Parts in sequence. -/
theorem Frame.trans {p'' : Progress} (h : Frame p p') (h' : Frame p' p'') : Frame p p'' := by
  refine ⟨h'.comparison.trans h.comparison, h'.coverage.trans h.coverage, ?_, fun hp => h'.finished (h.finished hp)⟩
  intro r hr
  obtain ⟨r', hr', hkey'⟩ := h.current r hr
  obtain ⟨r'', hr'', hkey''⟩ := h'.current r' hr'
  exact ⟨r'', hr'', hkey''.trans hkey'⟩

/-- A flag changes nothing else. -/
theorem Frame.flag (p : Progress) (more : List String) : Frame p (p.flag more) := ⟨rfl, rfl, fun r hr => ⟨r, hr, rfl⟩, id⟩

/-- A flag keeps what holds. -/
theorem Held.flag (h : Held a plan p) (more : List String) : Held a plan (p.flag more) := ⟨h.unique, h.owned, h.stages⟩

/-- A stage that completed or was left running keeps what holds. -/
theorem Held.stage (h : Held a plan p) {outcome : Option StageOutcome} (hclean : outcome = none ∨ outcome = some .completed)
    (finished : List Instant) : Held a plan (p.stage outcome finished) := by
  refine ⟨h.unique, h.owned, ?_⟩
  intro hfailed s hs
  rcases List.mem_append.mp hs with hs | hs
  · exact h.stages hfailed s hs
  · rw [List.mem_singleton.mp hs]
    exact hclean

/-- A record of a planned resource keeps what holds. -/
theorem Held.put (h : Held a plan p) {r : RawRecord} (howned : a.sourceObjectKey r.captureId = r.sourceObjectKey)
    (hplanned : r.sourceObjectKey ∈ plan.resources) : Held a plan (p.put r) := by
  refine ⟨?_, ?_, h.stages⟩
  · unfold UniqueBy Progress.put
    simp only [List.map_append, List.map_cons, List.map_nil]
    refine List.nodup_append.mpr ⟨h.unique.sublist (List.filter_sublist.map _), List.nodup_singleton _, ?_⟩
    intro key hkey key' hkey' heq
    obtain ⟨r', hr', rfl⟩ := List.mem_map.mp hkey
    rw [List.mem_singleton.mp hkey'] at heq
    simpa [heq] using (List.mem_filter.mp hr').2
  · intro r' hr'
    rcases List.mem_append.mp hr' with hr' | hr'
    · exact h.owned r' (List.mem_of_mem_filter hr')
    · rw [List.mem_singleton.mp hr']
      exact ⟨howned, hplanned⟩

/-- A record under its resource loses no resource. -/
theorem Frame.put (p : Progress) (r : RawRecord) : Frame p (p.put r) := by
  refine ⟨rfl, rfl, ?_, id⟩
  intro r' hr'
  by_cases hkey : r'.sourceObjectKey = r.sourceObjectKey
  · exact ⟨r, List.mem_append.mpr (Or.inr List.mem_cons_self), hkey.symm⟩
  · exact ⟨r', List.mem_append.mpr (Or.inl (List.mem_filter.mpr ⟨hr', decide_eq_true hkey⟩)), rfl⟩

/-- A stage loses nothing. -/
theorem Frame.stage (p : Progress) (outcome : Option StageOutcome) (finished : List Instant) :
    Frame p (p.stage outcome finished) := by
  refine ⟨rfl, rfl, fun r hr => ⟨r, hr, rfl⟩, ?_⟩
  intro hp
  simp [Progress.stage, hp]

/-- The fetch raises after its stage was started. -/
def Fetched.raisesInStage {key : Uuid → String} {resource : String} : Fetched key resource → Bool
  | .raised _ _ => true
  | _ => false

/-- The fetch raises. -/
def Fetched.raises {key : Uuid → String} {resource : String} : Fetched key resource → Bool
  | .refused _ => true
  | .raised _ _ => true
  | _ => false

/-- Fetching a planned resource keeps what holds; it leaves a stage running exactly when the source
raises within it, and the record it returns is among the current ones. -/
theorem fetchResource_spec (h : Held a plan p) {key : String} (hkey : key ∈ plan.resources) :
    Held a plan (a.fetchResource key p).2 ∧ Frame p (a.fetchResource key p).2 ∧
      (none ∈ (a.fetchResource key p).2.stages ↔ none ∈ p.stages ∨ (a.fetch key).raisesInStage = true) ∧
      ((∃ e, (a.fetchResource key p).1 = .error e) ↔ (a.fetch key).raises = true) ∧
      ∀ r, (a.fetchResource key p).1 = .ok (some r) →
        r ∈ (a.fetchResource key p).2.current ∧ r.sourceObjectKey = key ∧ (a.fetchResource key p).2.finished ≠ [] := by
  unfold Acquisition.fetchResource
  cases a.fetch key with
  | refused e => exact ⟨h, .refl p, by simp [Fetched.raisesInStage], by simp [Fetched.raises], by simp⟩
  | raised e finished =>
    exact ⟨h.stage (Or.inl rfl) finished, .stage p none finished, by simp [Fetched.raisesInStage, Progress.stage],
      by simp [Fetched.raises], by simp⟩
  | unusable gaps finished =>
    refine ⟨⟨h.unique, h.owned, fun hfailed => by cases hfailed⟩, ?_, ?_, by simp [Fetched.raises], by simp⟩
    · exact ⟨rfl, rfl, fun r hr => ⟨r, hr, rfl⟩, (Frame.stage p (some .blocked) finished).finished⟩
    · simp [Fetched.raisesInStage, Progress.stage, Progress.flag]
  | usable captureId finished owned checked =>
    refine ⟨(h.stage (Or.inr rfl) finished).put owned hkey, (Frame.stage p _ finished).trans (.put _ _), ?_,
      by simp [Fetched.raises], ?_⟩
    · simp [Fetched.raisesInStage, Progress.stage, Progress.put]
    · intro r hr
      cases hr
      refine ⟨List.mem_append.mpr (Or.inr List.mem_cons_self), rfl, ?_⟩
      simp [Progress.put, Progress.stage, checked]

/-- A fetch of the required older documents raises within a stage, before another one raises. -/
def historyRaises (a : Acquisition) (plan : MonitorPlan) : List String → Bool
  | [] => false
  | key :: rest =>
    if key ∉ plan.resources then historyRaises a plan rest
    else if (a.fetch key).raises then (a.fetch key).raisesInStage
    else historyRaises a plan rest

/-- Fetching the older documents keeps what holds; it leaves a stage running exactly when a source
raises within one. -/
theorem fetchHistory_spec (h : Held a plan p) (keys : List String) :
    Held a plan (a.fetchHistory plan keys p).2 ∧ Frame p (a.fetchHistory plan keys p).2 ∧
      (none ∈ (a.fetchHistory plan keys p).2.stages ↔ none ∈ p.stages ∨ historyRaises a plan keys = true) := by
  induction keys generalizing p with
  | nil => exact ⟨h, .refl p, by simp [Acquisition.fetchHistory, historyRaises]⟩
  | cons key rest ih =>
    unfold Acquisition.fetchHistory historyRaises
    split
    · obtain ⟨hheld, hframe, hstages⟩ := ih (h.flag ["unplanned_overlapping_history"])
      exact ⟨hheld, (Frame.flag p _).trans hframe, hstages⟩
    · next hplanned =>
      obtain ⟨hheld, hframe, hstages, hraises, -⟩ := fetchResource_spec h (not_not.mp hplanned)
      cases hfetch : a.fetchResource key p with
      | mk result p' =>
        rw [hfetch] at hheld hframe hstages hraises
        cases result with
        | error e =>
          rw [if_pos (hraises.mp ⟨e, rfl⟩)]
          exact ⟨hheld, hframe, hstages⟩
        | ok record =>
          have hreturned : (a.fetch key).raises = false := by
            rw [← Bool.not_eq_true, ← hraises]
            simp
          have hquiet : (a.fetch key).raisesInStage = false := by
            cases hkey : a.fetch key <;> simp_all [Fetched.raises, Fetched.raisesInStage]
          obtain ⟨hheld', hframe', hstages'⟩ := ih hheld
          refine ⟨hheld', hframe.trans hframe', ?_⟩
          rw [hstages', hstages, hquiet, hreturned]
          simp

/-- Fetching the older documents if they are not too many. -/
theorem fetchRequired_spec (h : Held a plan p) (required : List String) :
    Held a plan (a.fetchRequired plan required p).2 ∧ Frame p (a.fetchRequired plan required p).2 ∧
      (none ∈ (a.fetchRequired plan required p).2.stages ↔
        none ∈ p.stages ∨ (decide (required.length ≤ 10) && historyRaises a plan required) = true) := by
  unfold Acquisition.fetchRequired
  split
  · next hmany =>
    refine ⟨h.flag _, Frame.flag p _, ?_⟩
    rw [decide_eq_false (not_le.mpr hmany)]
    simp [Progress.flag]
  · next hfew =>
    rw [decide_eq_true (not_lt.mp hfew), Bool.true_and]
    exact fetchHistory_spec h required

/-- What holds of the variables once the acquisition is over. -/
structure Acquired (a : Acquisition) (plan : MonitorPlan) (p : Progress) : Prop where
  held : Held a plan p
  consistent : Consistent p.comparison p.coverage
  fetched : p.comparison.baselineEligible = true →
    (∃ r ∈ p.current, r.sourceObjectKey = submissionsKey plan.cik) ∧ p.finished ≠ []

/-- Nothing was compared yet. -/
structure Uncompared (p : Progress) : Prop where
  ineligible : p.comparison.baselineEligible = false
  incomplete : p.comparison.outcome = .incomplete

/-- Without a comparison the acquisition may be over. -/
theorem Uncompared.acquired (h : Uncompared p) (hheld : Held a plan p) : Acquired a plan p := by
  refine ⟨hheld, ⟨?_, fun _ => h.incomplete, ?_⟩, ?_⟩
  · rw [h.ineligible, h.incomplete]
    rfl
  · intro heligible
    cases h.ineligible.symm.trans heligible
  · intro heligible
    cases h.ineligible.symm.trans heligible

/-- A frame compares nothing. -/
theorem Uncompared.frame (h : Uncompared p) (hframe : Frame p p') : Uncompared p' :=
  ⟨hframe.comparison ▸ h.ineligible, hframe.comparison ▸ h.incomplete⟩

/-- Comparing the current inventory starts no stage and ends the acquisition. -/
theorem compareCurrent_spec {old : FilingInventory} (h : Held a plan p) (huncompared : Uncompared p)
    (hbaseline : p.coverage.baseline = old.completeness)
    (hroot : ∃ r ∈ p.current, r.sourceObjectKey = submissionsKey plan.cik) (hfinished : p.finished ≠ []) :
    Acquired a plan (a.compareCurrent plan old p).2 ∧ (a.compareCurrent plan old p).2.stages = p.stages := by
  unfold Acquisition.compareCurrent
  split
  · exact ⟨(huncompared.frame (Frame.flag p _)).acquired (h.flag _), rfl⟩
  · exact ⟨huncompared.acquired h, rfl⟩
  · next new history hnew =>
    have hheld : Held a plan { p with coverage := { p.coverage with current := new.completeness } } :=
      ⟨h.unique, h.owned, h.stages⟩
    cases hcompare : Acquisition.compare plan old new with
    | error e => exact ⟨Uncompared.acquired ⟨huncompared.ineligible, huncompared.incomplete⟩ hheld, rfl⟩
    | ok comparison =>
      refine ⟨⟨⟨h.unique, h.owned, h.stages⟩, ?_, fun _ => ⟨hroot, hfinished⟩⟩, rfl⟩
      unfold Acquisition.compare at hcompare
      split at hcompare
      · next c hc =>
        cases hcompare
        change Consistent comparison ⟨p.coverage.baseline, new.completeness⟩
        rw [hbaseline]
        exact compareInventories_consistent hc
      · cases hcompare

/-- A fetch of the submissions, or of the older documents that they require, raises within a stage. -/
def currentRaises (a : Acquisition) (plan : MonitorPlan) : Bool :=
  match a.fetch (submissionsKey plan.cik) with
  | .refused _ => false
  | .raised _ _ => true
  | .unusable _ _ => false
  | .usable captureId _ _ _ =>
    match a.parse ⟨captureId, submissionsKey plan.cik⟩ with
    | .error _ => false
    | .ok root =>
      decide ((Acquisition.historyScope plan root).required.length ≤ 10) &&
        historyRaises a plan (Acquisition.historyScope plan root).required

/-- Acquiring what is current ends the acquisition; it leaves a stage running exactly when a source
raises within one. -/
theorem acquireCurrent_spec (old : FilingInventory) (hroot : submissionsKey plan.cik ∈ plan.resources)
    (h : Held a plan p) (huncompared : Uncompared p) (hbaseline : p.coverage.baseline = old.completeness) :
    Acquired a plan (a.acquireCurrent plan old p).2 ∧
      (none ∈ (a.acquireCurrent plan old p).2.stages ↔ none ∈ p.stages ∨ currentRaises a plan = true) := by
  obtain ⟨hheld, hframe, hstages, -, hrecord⟩ := fetchResource_spec h hroot
  have hover := (huncompared.frame hframe).acquired hheld
  unfold Acquisition.acquireCurrent currentRaises
  cases hf : a.fetch (submissionsKey plan.cik) with
  | refused e =>
    simp only [Acquisition.fetchResource, hf] at hover ⊢
    exact ⟨hover, by simp⟩
  | raised e finished =>
    simp only [Acquisition.fetchResource, hf] at hover ⊢
    exact ⟨hover, by simp [Progress.stage]⟩
  | unusable gaps finished =>
    simp only [Acquisition.fetchResource, hf] at hover ⊢
    exact ⟨hover, by simp [Progress.stage, Progress.flag]⟩
  | usable captureId finished owned checked =>
    have hfetched : a.fetchResource (submissionsKey plan.cik) p = (.ok (some ⟨captureId, submissionsKey plan.cik⟩),
        (p.stage (some .completed) finished).put ⟨captureId, submissionsKey plan.cik⟩) := by
      simp only [Acquisition.fetchResource, hf]
    obtain ⟨hmem, -, hfinished⟩ := hrecord _ (by rw [hfetched])
    simp only [hf, Fetched.raisesInStage, Bool.false_eq_true, or_false] at hstages
    simp only [hfetched] at hheld hframe hstages hover hmem hfinished ⊢
    generalize (p.stage (some .completed) finished).put ⟨captureId, submissionsKey plan.cik⟩ = p' at *
    cases hparse : a.parse ⟨captureId, submissionsKey plan.cik⟩ with
    | error e =>
      simp only [Bool.false_eq_true, or_false]
      cases e with
      | archive => exact ⟨hover, hstages⟩
      | value => exact ⟨((huncompared.frame hframe).frame (Frame.flag p' _)).acquired (hheld.flag _), hstages⟩
    | ok root =>
      dsimp only
      generalize Acquisition.historyScope plan root = history
      have hheld' : Held a plan { p' with histories := { p'.histories with current := some history } } :=
        ⟨hheld.unique, hheld.owned, hheld.stages⟩
      have hframe' : Frame p { p' with histories := { p'.histories with current := some history } } :=
        ⟨hframe.comparison, hframe.coverage, hframe.current, hframe.finished⟩
      obtain ⟨hrequired, hrequiredFrame, hrequiredStages⟩ := fetchRequired_spec hheld' history.required
      cases hresult : a.fetchRequired plan history.required
          { p' with histories := { p'.histories with current := some history } } with
      | mk result p'' =>
        rw [hresult] at hrequired hrequiredFrame hrequiredStages
        have hthen := hframe'.trans hrequiredFrame
        have hfinal : none ∈ p''.stages ↔ none ∈ p.stages ∨
            (decide (history.required.length ≤ 10) && historyRaises a plan history.required) = true :=
          hrequiredStages.trans (or_congr_left hstages)
        cases result with
        | error e => exact ⟨(huncompared.frame hthen).acquired hrequired, hfinal⟩
        | ok _ =>
          have hsubmissions : ∃ r ∈ p''.current, r.sourceObjectKey = submissionsKey plan.cik :=
            hrequiredFrame.current _ hmem
          have hcoverage : p''.coverage.baseline = old.completeness := by rw [hthen.coverage, hbaseline]
          obtain ⟨hacquired, hsame⟩ := compareCurrent_spec hrequired (huncompared.frame hthen) hcoverage hsubmissions
            (hrequiredFrame.finished hfinished)
          exact ⟨hacquired, by rw [hsame]; exact hfinal⟩
/-- A source raises within a stage of a poll: the baseline was read without a flag, and a fetch of the
submissions, or of the older documents that they require, raises. -/
def raisesInStage (a : Acquisition) (plan : MonitorPlan) : Bool :=
  match a.baseline with
  | .error _ => false
  | .ok records =>
    match a.inventory plan records with
    | .error _ => false
    | .ok (old, history) =>
      match Acquisition.compare plan old old with
      | .error _ => false
      | .ok check =>
        decide (history.required.length ≤ 10) && decide (Acquisition.baselineFlags check = []) && currentRaises a plan

/-- The variables at the start hold. -/
theorem held_start : Held a plan .start :=
  ⟨List.nodup_nil, by simp [Progress.start], by simp [Progress.start]⟩

/-- The acquisition ends with what holds then; it leaves a stage running exactly when a source raises
within one. -/
theorem acquire_spec (a : Acquisition) (hroot : submissionsKey plan.cik ∈ plan.resources) :
    Acquired a plan (a.acquire plan .start).2 ∧
      (none ∈ (a.acquire plan .start).2.stages ↔ raisesInStage a plan = true) := by
  have hstart : Uncompared .start := ⟨rfl, rfl⟩
  have hinitial : Held a plan .start := held_start
  have hover : Acquired a plan .start := hstart.acquired hinitial
  unfold Acquisition.acquire raisesInStage
  cases a.baseline with
  | error e => exact ⟨hover, by simp [Progress.start]⟩
  | ok records =>
    dsimp only
    cases a.inventory plan records with
    | error e => exact ⟨hover, by simp [Progress.start]⟩
    | ok inventory =>
      obtain ⟨old, history⟩ := inventory
      dsimp only
      generalize hp : (if 10 < history.required.length then Progress.flag _ _ else _ : Progress) = p
      have hheld : Held a plan p := by
        rw [← hp]
        split <;> exact ⟨hinitial.unique, hinitial.owned, hinitial.stages⟩
      have huncompared : Uncompared p := by
        rw [← hp]
        split <;> exact ⟨rfl, rfl⟩
      have hbaseline : p.coverage.baseline = old.completeness := by
        rw [← hp]
        split <;> rfl
      have hstages : p.stages = [] := by
        rw [← hp]
        split <;> rfl
      have hflags : p.flags = [] ↔ history.required.length ≤ 10 := by
        rw [← hp]
        split
        · next hmany => simp [Progress.flag, Progress.start, hmany]
        · next hfew => simp [Progress.start, not_lt.mp hfew]
      cases Acquisition.compare plan old old with
      | error e => exact ⟨huncompared.acquired hheld, by simp [hstages]⟩
      | ok check =>
        dsimp only
        have hclean : (p.flag (Acquisition.baselineFlags check)).flags = [] ↔
            (decide (history.required.length ≤ 10) && decide (Acquisition.baselineFlags check = [])) = true := by
          simp [Progress.flag, hflags]
        split
        · next hnone =>
          rw [hclean.mp hnone, Bool.true_and]
          obtain ⟨hacquired, hstages'⟩ := acquireCurrent_spec old hroot
            (hheld.flag (Acquisition.baselineFlags check)) (huncompared.frame (Frame.flag p _)) hbaseline
          refine ⟨hacquired, hstages'.trans ?_⟩
          simp [Progress.flag, hstages]
        · next hsome =>
          rw [hclean] at hsome
          rw [Bool.not_eq_true _ |>.mp hsome]
          refine ⟨Uncompared.acquired ⟨huncompared.ineligible, huncompared.incomplete⟩
            ⟨hheld.unique, hheld.owned, hheld.stages⟩, ?_⟩
          simp [Progress.flag, hstages]

/-- What holds of the variables at the end of a poll. -/
structure Settled (a : Acquisition) (plan : MonitorPlan) (p : Progress) : Prop where
  held : Held a plan p
  eligible : p.comparison.baselineEligible = p.comparison.outcome.eligible
  incomplete : p.comparison.baselineEligible = false → p.comparison.outcome ≠ .error → p.comparison.outcome = .incomplete
  clean : p.comparison.baselineEligible = true → p.comparison.flags = [] ∧ p.comparison.metadataChanges = [] ∧
    p.comparison.missingAccessions = [] ∧
    p.comparison.outcome = changeOutcome p.comparison.newFilings.length p.comparison.amendments.length ∧
    p.coverage.baseline = .complete ∧ p.coverage.current = .complete
  fetched : p.comparison.baselineEligible = true →
    (∃ r ∈ p.current, r.sourceObjectKey = submissionsKey plan.cik) ∧ p.finished ≠ []
  succeeded : p.comparison.baselineEligible = true → p.failed = false

/-- Settling ends a poll. -/
theorem Acquired.settle (h : Acquired a plan p) : Settled a plan (Acquisition.settle p) := by
  unfold Acquisition.settle
  split
  · refine ⟨⟨h.held.unique, h.held.owned, h.held.stages⟩, ?_, ?_, ?_, ?_, ?_⟩
    · dsimp only
      split <;> rfl
    · dsimp only
      split <;> simp
    all_goals intro heligible; cases heligible
  · next hclean =>
    simp only [not_or, ne_eq, not_not, Bool.not_eq_true] at hclean
    exact ⟨h.held, h.consistent.eligible, fun hnot _ => h.consistent.incomplete hnot, h.consistent.clean, h.fetched,
      fun _ => hclean.2⟩

/-- Handling an exception keeps what holds when the acquisition is over. -/
theorem Acquired.handle {o : Part Unit} (h : Acquired a plan o.2) :
    Acquired a plan (Acquisition.handle o) ∧ (Acquisition.handle o).stages = o.2.stages := by
  obtain ⟨result, p⟩ := o
  unfold Acquisition.handle
  split
  · next heq =>
    cases heq
    exact ⟨h, rfl⟩
  · next heq =>
    cases heq
    exact ⟨⟨⟨h.held.unique, h.held.owned, fun hfailed => by cases hfailed⟩, h.consistent, h.fetched⟩, rfl⟩
  · next heq =>
    cases heq
    exact ⟨⟨⟨h.held.unique, h.held.owned, h.held.stages⟩, h.consistent, h.fetched⟩, rfl⟩

/-- The variables at the end of a poll; a stage is left running exactly when a source raises within one. -/
theorem progress_spec (a : Acquisition) (hroot : submissionsKey plan.cik ∈ plan.resources) :
    Settled a plan (a.progress plan) ∧ (none ∈ (a.progress plan).stages ↔ raisesInStage a plan = true) := by
  obtain ⟨hacquired, hstages⟩ := acquire_spec a hroot
  obtain ⟨hhandled, hsame⟩ := hacquired.handle
  refine ⟨hhandled.settle, ?_⟩
  have hsettled : (a.progress plan).stages = (Acquisition.handle (a.acquire plan .start)).stages := by
    unfold Acquisition.progress Acquisition.settle
    split <;> rfl
  rw [hsettled, hsame, hstages]

/-! ### The checks of the database -/

/-- The result of a poll passes the checks of the database. -/
theorem runFilingMonitor_checks (a : Acquisition) (hroot : submissionsKey plan.cik ∈ plan.resources) :
    completeMonitorChecks a.sourceObjectKey plan a.baselineCaptureIds
      (lastFinished (a.earlierAttempts ++ (a.progress plan).finished)) (runFilingMonitor a plan) = .ok () := by
  obtain ⟨h, -⟩ := progress_spec a hroot
  have hids : ∀ c, c ∈ (runFilingMonitor a plan).currentCaptureIds ↔ ∃ r ∈ (a.progress plan).current, r.captureId = c := by
    simp [runFilingMonitor]
  have hkeys : (((a.progress plan).current.map (·.captureId)).map a.sourceObjectKey).Nodup := by
    have hsame : ((a.progress plan).current.map (·.captureId)).map a.sourceObjectKey =
        (a.progress plan).current.map (·.sourceObjectKey) := by
      rw [List.map_map]
      exact List.map_congr_left fun r hr => (h.held.owned r hr).1
    rw [hsame]
    exact h.held.unique
  have hsorted : ((runFilingMonitor a plan).currentCaptureIds.map a.sourceObjectKey).Nodup :=
    ((List.perm_insertionSort _ _).map _).nodup_iff.mpr hkeys
  unfold completeMonitorChecks
  simp only [bind_eq_ok, raiseIf_eq_ok, exists_const]
  refine ⟨?_, ?_, ?_, ?_, ?_, ?_, ?_⟩
  · simp [runFilingMonitor, h.eligible]
  · simp [runFilingMonitor]
  · simp only [not_or, not_not]
    exact ⟨hsorted.of_map, hsorted⟩
  · rintro ⟨c, hc, hplanned⟩
    obtain ⟨r, hr, rfl⟩ := (hids c).mp hc
    rw [(h.held.owned r hr).1] at hplanned
    exact hplanned (h.held.owned r hr).2
  · simp [runFilingMonitor]
  · rintro ⟨heligible, hdirty⟩
    obtain ⟨hflags, hchanges, hmissing, -, hbaseline, hcurrent⟩ := h.clean heligible
    obtain ⟨⟨r, hr, hkey⟩, hfinished⟩ := h.fetched heligible
    rcases hdirty with hnone | hdirty | hdirty | hdirty | hdirty | hdirty | hsubmissions
    · simp [lastFinished, hfinished] at hnone
    · exact hdirty hflags
    · exact hdirty hbaseline
    · exact hdirty hcurrent
    · exact hdirty hchanges
    · exact hdirty hmissing
    · exact hsubmissions ⟨r.captureId, (hids _).mpr ⟨r, hr, rfl⟩, (h.held.owned r hr).1.trans hkey⟩
  · rintro ⟨heligible, houtcome⟩
    exact houtcome (h.clean heligible).2.2.2.1

end

end EquityEval.Discovery
