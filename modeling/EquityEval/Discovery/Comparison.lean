import EquityEval.Discovery.Inventory
import EquityEval.Relational.Table

/-!
# Comparing two inventories

The filings of a baseline inventory that were accepted by the baseline's cutoff are compared with
those of a current inventory that were accepted by the current cutoff. A comparison is eligible as
the next baseline when nothing about either inventory was flagged.
-/

namespace EquityEval.Discovery

open Relational Workflow

/-- What a filing is compared by. -/
structure FilingMetadata where
  accession : String
  form : String
  filedDate : Day
  reportDate : Option Day
  primaryDocument : Option String
  acceptanceRaw : Option SourceValue
  acceptanceAt : Option Instant
  acceptanceTimeBasis : Option String
deriving DecidableEq, Repr

/-- The form is an amendment: `form.endswith("/A")`. -/
abbrev FilingMetadata.Amends (m : FilingMetadata) : Prop := "/A".toList <:+ m.form.toList

/-- The metadata of a filing. -/
def filingMetadata (f : InventoryFiling) : FilingMetadata where
  accession := f.accession
  form := f.form
  filedDate := f.filedDate
  reportDate := f.reportPeriodEnd
  primaryDocument := f.primaryDocument
  acceptanceRaw := f.rawMetadata.lookup "acceptanceDateTime"
  acceptanceAt := f.acceptanceAt
  acceptanceTimeBasis := f.acceptanceTimeBasis

/-- A filing with where it was observed. -/
structure Observation where
  metadata : FilingMetadata
  captureId : Uuid
  sourceLocator : String
deriving DecidableEq, Repr

/-- The observation of a filing. -/
def observation (f : InventoryFiling) : Observation := ⟨filingMetadata f, f.sourceCaptureId, f.sourceLocator⟩

/-- A filing whose metadata differ between the inventories. -/
structure MetadataChange where
  accession : String
  before : Observation
  after : Observation
deriving DecidableEq, Repr

/-- What a comparison found. -/
structure Comparison where
  outcome : MonitorOutcome
  baselineEligible : Bool
  flags : List String
  newFilings : List Observation
  amendments : List Observation
  metadataChanges : List MetadataChange
  missingAccessions : List String
  baselineFilings : List Observation
  currentFilings : List Observation
  excludedBaseline : List String
  excludedCurrent : List String
deriving DecidableEq, Repr

/-! ### Selecting filings -/

/-- The filings selected from an inventory by their accessions, with what was flagged and excluded. -/
structure Selection where
  flags : List String
  excluded : List String
  filings : List InventoryFiling
deriving DecidableEq, Repr

namespace Selection

/-- Add a flag. -/
def flag (s : Selection) (text : String) : Selection := { s with flags := s.flags ++ [text] }

/-- Leave out a filing that was accepted after the cutoff. -/
def exclude (s : Selection) (f : InventoryFiling) : Selection := { s with excluded := s.excluded ++ [f.accession] }

/-- `result[filing.accession] = filing`. -/
def put (s : Selection) (f : InventoryFiling) : Selection :=
  { s with filings := s.filings.filter (fun g => g.accession ≠ f.accession) ++ [f] }

/-- The filing selected under an accession. -/
def get (s : Selection) (accession : String) : Option InventoryFiling :=
  s.filings.find? fun f => f.accession = accession

/-- The accessions in order. -/
def keys (s : Selection) : List String := sortedSet (s.filings.map (·.accession))

/-- Consider one filing of the inventory. -/
def consider (plan : MonitorPlan) (cutoff : Instant) (label : String) (s : Selection) (f : InventoryFiling) : Selection :=
  if f.form ∉ plan.forms then
    s
  else
    match f.acceptanceAt with
    | none => s.flag (label ++ "_acceptance_unverified")
    | some acceptance =>
      if f.acceptanceTimeBasis ≠ some "verified_timezone" then
        s.flag (label ++ "_acceptance_unverified")
      else if cutoff < acceptance then
        s.exclude f
      else if f.reportPeriodEnd = none ∨ f.primaryDocument = none then
        (s.flag (label ++ "_filing_metadata_incomplete")).put f
      else
        s.put f

end Selection

/-- The flags of an inventory before its filings are considered. -/
def inventoryIssues (inventory : FilingInventory) (label : String) : List String :=
  (if inventory.completeness ≠ .complete then [label ++ "_inventory_incomplete"] else []) ++
    inventory.flags.map (fun flag => label ++ ":" ++ flag) ++
    (if (inventory.filings.map (·.accession)).Nodup then [] else [label ++ "_duplicate_accession"])

/-- The filings of an inventory within the forms of a plan that were accepted by a cutoff. -/
def selected (plan : MonitorPlan) (inventory : FilingInventory) (cutoff : Instant) (label : String) :
    Except ValueError Selection := do
  raiseIf (inventory.cik ≠ plan.cik ∨ inventory.boundaryStart ≠ plan.inventoryStart ∨
    inventory.boundaryEnd ≠ plan.inventoryEnd) ⟨"Inventory differs from pinned issuer/window"⟩
  return inventory.filings.foldl (Selection.consider plan cutoff label) ⟨inventoryIssues inventory label, [], []⟩

/-- The outcome of a comparison with its flags, originals and amendments. -/
def comparisonOutcome (flags : List String) (originals amendments : List Observation) : MonitorOutcome :=
  if flags ≠ [] then .incomplete
  else if originals ≠ [] ∧ amendments ≠ [] then .mixedChanges
  else if originals ≠ [] then .newFiling
  else if amendments ≠ [] then .amendment
  else .noChange

/-- A change of the metadata of a filing that both selections hold. -/
def metadataChange (old new : Selection) (key : String) : Option MetadataChange :=
  match old.get key, new.get key with
  | some before, some after =>
    if filingMetadata before ≠ filingMetadata after then some ⟨key, observation before, observation after⟩ else none
  | _, _ => none

/-- Compare the filings of two inventories by the cutoffs of a plan. -/
def compareInventories (baseline current : FilingInventory) (plan : MonitorPlan) : Except ValueError Comparison := do
  let old ← selected plan baseline plan.baseline.cutoff "baseline"
  let new ← selected plan current plan.cutoff "current"
  let disappeared := old.keys.filter (· ∉ new.keys)
  let changed := (old.keys.filter (· ∈ new.keys)).filterMap (metadataChange old new)
  let flags := sortedSet (old.flags ++ new.flags ++
    (if disappeared ≠ [] then ["baseline_accession_missing"] else []) ++
    (if changed ≠ [] then ["existing_accession_metadata_changed"] else []))
  let additions := (new.keys.filter (· ∉ old.keys)).filterMap fun key => (new.get key).map observation
  let originals := additions.filter fun row => ¬ row.metadata.Amends
  let amendments := additions.filter fun row => row.metadata.Amends
  return {
    outcome := comparisonOutcome flags originals amendments
    baselineEligible := decide (flags = [])
    flags
    newFilings := originals
    amendments
    metadataChanges := changed
    missingAccessions := disappeared
    baselineFilings := old.keys.filterMap fun key => (old.get key).map observation
    currentFilings := new.keys.filterMap fun key => (new.get key).map observation
    excludedBaseline := old.excluded.insertionSort (· ≤ ·)
    excludedCurrent := new.excluded.insertionSort (· ≤ ·) }

/-! ### What a selection holds -/

/-- The filing is within the forms of a plan and was accepted by a cutoff. -/
def InventoryFiling.Visible (forms : List String) (cutoff : Instant) (f : InventoryFiling) : Prop :=
  f.form ∈ forms ∧ ∃ acceptance ∈ f.acceptanceAt, acceptance ≤ cutoff

instance (forms : List String) (cutoff : Instant) : DecidablePred (InventoryFiling.Visible forms cutoff) := by
  intro f
  unfold InventoryFiling.Visible
  infer_instance

section

variable {plan : MonitorPlan} {cutoff : Instant} {label : String}

/-- Considering a filing keeps the flags before it. -/
theorem consider_flags (plan : MonitorPlan) (cutoff : Instant) (label : String) (s : Selection) (f : InventoryFiling) :
    ∃ more, (s.consider plan cutoff label f).flags = s.flags ++ more := by
  unfold Selection.consider
  split
  · exact ⟨[], by simp⟩
  split
  · exact ⟨_, rfl⟩
  split
  · exact ⟨_, rfl⟩
  split
  · exact ⟨[], by simp [Selection.exclude]⟩
  split
  · exact ⟨_, rfl⟩
  · exact ⟨[], by simp [Selection.put]⟩

/-- Considering filings keeps the flags before them. -/
theorem consider_all_flags (plan : MonitorPlan) (cutoff : Instant) (label : String) (fs : List InventoryFiling)
    (s : Selection) :
    ∃ more, (fs.foldl (Selection.consider plan cutoff label) s).flags = s.flags ++ more := by
  induction fs generalizing s with
  | nil => exact ⟨[], by simp⟩
  | cons f rest ih =>
    obtain ⟨here, hhere⟩ := consider_flags plan cutoff label s f
    obtain ⟨later, hlater⟩ := ih (s.consider plan cutoff label f)
    exact ⟨here ++ later, by rw [List.foldl_cons, hlater, hhere, List.append_assoc]⟩

/-- A filing considered without a flag is put exactly when it is visible. -/
theorem consider_clean {s : Selection} {f : InventoryFiling} (h : (s.consider plan cutoff label f).flags = []) :
    (s.consider plan cutoff label f).filings = if f.Visible plan.forms cutoff then (s.put f).filings else s.filings := by
  unfold Selection.consider at h ⊢
  unfold InventoryFiling.Visible
  split at h <;> rename_i hform
  · simp [hform]
  split at h <;> rename_i hacceptance
  · simp [Selection.flag] at h
  split at h <;> rename_i hbasis
  · simp [Selection.flag] at h
  split at h <;> rename_i hcutoff
  · simp [hform, hbasis, hcutoff, hacceptance, Selection.exclude]
  split at h <;> rename_i hmetadata
  · simp [Selection.flag, Selection.put] at h
  · simp only [hform, hacceptance, hbasis, hcutoff, hmetadata, if_false, Option.mem_def, Option.some.injEq,
      exists_eq_left', not_lt.mp hcutoff, and_true]
    rw [if_pos (not_not.mp hform)]

/-- Without a flag, the filings considered are put when they are visible. -/
theorem consider_all_clean {fs : List InventoryFiling} {s : Selection}
    (hnodup : ((s.filings ++ fs).map (·.accession)).Nodup)
    (h : (fs.foldl (Selection.consider plan cutoff label) s).flags = []) :
    (fs.foldl (Selection.consider plan cutoff label) s).filings =
      s.filings ++ fs.filter fun f => decide (f.Visible plan.forms cutoff) := by
  induction fs generalizing s with
  | nil => simp
  | cons f rest ih =>
    rw [List.foldl_cons] at h ⊢
    have hclean : (s.consider plan cutoff label f).flags = [] := by
      obtain ⟨more, hmore⟩ := consider_all_flags plan cutoff label rest
        (s.consider plan cutoff label f)
      rw [hmore] at h
      exact (List.append_eq_nil_iff.mp h).1
    have hhere := consider_clean hclean
    have hput : (s.put f).filings = s.filings ++ [f] := by
      have hnew : ∀ g ∈ s.filings, g.accession ≠ f.accession := by
        intro g hg heq
        simp only [List.map_append, List.map_cons, List.nodup_append] at hnodup
        exact hnodup.2.2 _ (List.mem_map_of_mem hg) _ List.mem_cons_self heq
      simpa [Selection.put] using hnew
    by_cases hvisible : f.Visible plan.forms cutoff
    · rw [if_pos hvisible, hput] at hhere
      rw [ih (by simpa [hhere] using hnodup) h, hhere]
      simp [hvisible]
    · rw [if_neg hvisible] at hhere
      have hrest : ((s.filings ++ rest).map (·.accession)).Nodup := by
        refine hnodup.sublist (List.Sublist.map _ ?_)
        exact List.Sublist.append_left (List.sublist_cons_self f rest) s.filings
      rw [ih (by simpa [hhere] using hrest) h, hhere]
      simp [hvisible]

/-- The inventory is of the issuer and the window of a plan. -/
def FilingInventory.Covers (inventory : FilingInventory) (plan : MonitorPlan) : Prop :=
  inventory.cik = plan.cik ∧ inventory.boundaryStart = plan.inventoryStart ∧ inventory.boundaryEnd = plan.inventoryEnd

/-- Without a flag, an inventory is complete, no filing is in it twice, and its visible filings are
selected. -/
theorem selected_clean {inventory : FilingInventory} {s : Selection}
    (h : selected plan inventory cutoff label = .ok s) (hflags : s.flags = []) :
    inventory.Covers plan ∧ inventory.completeness = .complete ∧ (inventory.filings.map (·.accession)).Nodup ∧
      s.filings = inventory.filings.filter fun f => decide (f.Visible plan.forms cutoff) := by
  unfold selected at h
  obtain ⟨_, hcovers, hs⟩ := bind_eq_ok.mp h
  rw [raiseIf_eq_ok] at hcovers
  rw [← pure_eq_ok.mp hs] at hflags ⊢
  have hissues : inventoryIssues inventory label = [] := by
    obtain ⟨more, hmore⟩ := consider_all_flags plan cutoff label inventory.filings
      ⟨inventoryIssues inventory label, [], []⟩
    rw [hmore] at hflags
    exact (List.append_eq_nil_iff.mp hflags).1
  have hcomplete : inventory.completeness = .complete ∧ (inventory.filings.map (·.accession)).Nodup := by
    unfold inventoryIssues at hissues
    simp only [List.append_eq_nil_iff] at hissues
    obtain ⟨⟨hcomplete, -⟩, hnodup⟩ := hissues
    constructor
    · by_contra hne
      simp [hne] at hcomplete
    · by_contra hne
      simp [hne] at hnodup
  refine ⟨by unfold FilingInventory.Covers; tauto, hcomplete.1, hcomplete.2, ?_⟩
  simpa using consider_all_clean (by simpa using hcomplete.2) hflags

end

end EquityEval.Discovery
