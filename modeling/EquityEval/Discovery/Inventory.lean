import Mathlib.Data.List.Dedup
import Mathlib.Data.List.Pairwise
import Mathlib.Data.List.Sort
import Mathlib.Data.Prod.Lex
import Mathlib.Data.String.Basic
import EquityEval.Workflow.Database

/-!
# Inventories of submissions

The submissions of an issuer are a recent document and older documents that it advertises. An
inventory holds the filings of a window of filing dates; it is complete when every advertised
document that overlaps the window was supplied and nothing supplied contradicts another.
-/

namespace EquityEval.Discovery

open Relational Workflow

/-- A `ValueError`. -/
structure ValueError where
  message : String
deriving DecidableEq, Repr

/-- A value of a submissions column; what is neither a text nor `null` is kept as its source text. -/
inductive SourceValue where
  | null
  | text (value : String)
  | other (json : String)
deriving DecidableEq, Repr

/-- A filing of an inventory; its raw metadata are the columns of its row. -/
structure InventoryFiling where
  accession : String
  filedDate : Day
  form : String
  reportPeriodEnd : Option Day
  primaryDocument : Option String
  acceptanceAt : Option Instant
  acceptanceTimeBasis : Option String
  sourceCaptureId : Uuid
  sourceLocator : String
  rawMetadata : List (String × SourceValue)
deriving DecidableEq, Repr

/-- An older document as the recent one advertises it. -/
structure OlderDocument where
  name : String
  filingCount : ℕ
  filingFrom : Day
  filingTo : Day
deriving DecidableEq, Repr

/-- A parsed submissions document; the recent one has no name. -/
structure SubmissionDocument where
  cik : String
  captureId : Uuid
  documentName : Option String
  filings : List InventoryFiling
  olderDocuments : List OlderDocument
deriving DecidableEq, Repr

/-- Whether every advertised document was read without contradiction. -/
inductive Completeness where
  | complete
  | incomplete
deriving DecidableEq, Repr

/-- The filings of an issuer within a window of filing dates. -/
structure FilingInventory where
  cik : String
  boundaryStart : Day
  boundaryEnd : Day
  filings : List InventoryFiling
  captureIds : List Uuid
  completeness : Completeness
  missingDocuments : List String
  flags : List String
deriving DecidableEq, Repr

/-- `sorted(set(values))`. -/
def sortedSet {α : Type} [LinearOrder α] (values : List α) : List α := values.dedup.insertionSort (· ≤ ·)

@[simp] theorem mem_sortedSet {α : Type} [LinearOrder α] {values : List α} {a : α} :
    a ∈ sortedSet values ↔ a ∈ values := by simp [sortedSet]

@[simp] theorem sortedSet_eq_nil {α : Type} [LinearOrder α] {values : List α} : sortedSet values = [] ↔ values = [] := by
  simp only [List.eq_nil_iff_forall_not_mem, mem_sortedSet]

/-- A sorted set has no value twice. -/
theorem sortedSet_nodup {α : Type} [LinearOrder α] (values : List α) : (sortedSet values).Nodup :=
  (List.perm_insertionSort _ _).nodup_iff.mpr values.nodup_dedup

/-- A sorted set is that of the same values in another order. -/
theorem sortedSet_perm {α : Type} [LinearOrder α] {values values' : List α} (h : values.Perm values') :
    sortedSet values = sortedSet values' := by
  have hsorted : (sortedSet values).Perm (sortedSet values') :=
    (List.perm_insertionSort _ _).trans (h.dedup.trans (List.perm_insertionSort _ _).symm)
  exact hsorted.eq_of_pairwise' (List.pairwise_insertionSort _ _) (List.pairwise_insertionSort _ _)

/-- The order of the filings in an inventory. -/
def InventoryFiling.sortKey (f : InventoryFiling) : Day ×ₗ String ×ₗ Uuid :=
  toLex (f.filedDate, toLex (f.accession, f.sourceCaptureId))

/-- The document overlaps a window. -/
def OlderDocument.overlaps (d : OlderDocument) (boundaryStart boundaryEnd : Day) : Bool :=
  decide (d.filingFrom ≤ boundaryEnd) && decide (boundaryStart ≤ d.filingTo)

/-- The older documents that a document advertises, by their names: the last one of a name counts. -/
def SubmissionDocument.advertised (d : SubmissionDocument) : List OlderDocument :=
  d.olderDocuments.pwFilter fun item later => item.name ≠ later.name

/-- The supplied older documents by their names, each advertised by the recent document. -/
def supply (recent : SubmissionDocument) (supplied : List (OlderDocument × SubmissionDocument))
    (document : SubmissionDocument) : Except ValueError (List (OlderDocument × SubmissionDocument)) :=
  match recent.advertised.find? fun item => some item.name = document.documentName with
  | some reference =>
    if document.cik ≠ recent.cik then
      .error ⟨"Older document was not advertised by this issuer's pinned root"⟩
    else if supplied.any fun s => s.2.documentName = document.documentName then
      .error ⟨"Conflicting duplicate older-document captures require explicit vintage choice"⟩
    else
      .ok (supplied ++ [(reference, document)])
  | none => .error ⟨"Older document was not advertised by this issuer's pinned root"⟩

/-- A supplied document has another number of filings than advertised, or one filed outside its dates. -/
def mismatched (supplied : OlderDocument × SubmissionDocument) : Bool :=
  supplied.2.filings.length ≠ supplied.1.filingCount ||
    supplied.2.filings.any fun f => ¬ (supplied.1.filingFrom ≤ f.filedDate ∧ f.filedDate ≤ supplied.1.filingTo)

/-- What an assembly found missing or contradicted. -/
def inventoryFlags (missing : List String) (documents : List SubmissionDocument)
    (supplied : List (OlderDocument × SubmissionDocument)) (selected : List InventoryFiling) : List String :=
  (if missing ≠ [] then ["missing_advertised_history"] else []) ++
    (if documents.any fun d => ¬ (d.filings.map (·.accession)).Nodup then ["duplicate_accessions_in_document"] else []) ++
    (if supplied.any mismatched then ["older_inventory_metadata_mismatch"] else []) ++
    (if selected.any fun f => selected.any fun g => f.accession = g.accession ∧ f.rawMetadata ≠ g.rawMetadata then
      ["conflicting_filing_metadata"] else [])

/-- The inventory of a window from the recent document and older ones. -/
def assembleInventory (recent : SubmissionDocument) (older : List SubmissionDocument) (boundaryStart boundaryEnd : Day) :
    Except ValueError FilingInventory := do
  raiseIf (recent.documentName ≠ none ∨ boundaryEnd < boundaryStart)
    ⟨"A recent root and ordered explicit boundary are required"⟩
  let supplied ← older.foldlM (supply recent) []
  let needed := (recent.advertised.filter (·.overlaps boundaryStart boundaryEnd)).map (·.name)
  let missing := sortedSet (needed.filter fun name => ¬ supplied.any fun s => s.2.documentName = some name)
  let selected := (recent.filings ++ supplied.flatMap (·.2.filings)).filter fun f =>
    decide (boundaryStart ≤ f.filedDate ∧ f.filedDate ≤ boundaryEnd)
  let flags := inventoryFlags missing (recent :: older) supplied selected
  return {
    cik := recent.cik
    boundaryStart
    boundaryEnd
    filings := selected.insertionSort fun a b => a.sortKey ≤ b.sortKey
    captureIds := sortedSet (recent.captureId :: older.map (·.captureId))
    completeness := if flags = [] then .complete else .incomplete
    missingDocuments := missing
    flags := sortedSet flags }

/-! ### What an inventory holds -/

/-- Every supplied document is kept, each once and with the advertisement that it answers. -/
theorem supply_eq_ok {recent document : SubmissionDocument} {supplied next : List (OlderDocument × SubmissionDocument)}
    (h : supply recent supplied document = .ok next) :
    ∃ reference ∈ recent.olderDocuments, some reference.name = document.documentName ∧
      next = supplied ++ [(reference, document)] := by
  unfold supply at h
  split at h
  · next reference hfind =>
    have hname := List.find?_some hfind
    split at h
    · cases h
    · split at h
      · cases h
      · exact ⟨reference, (List.pwFilter_subset _) (List.mem_of_find?_eq_some hfind), by simpa using hname, by simpa using h.symm⟩
  · cases h

/-- The supplied documents are the older ones in their order. -/
theorem supplied_documents {recent : SubmissionDocument} {older : List SubmissionDocument}
    {start supplied : List (OlderDocument × SubmissionDocument)}
    (h : older.foldlM (supply recent) start = .ok supplied) : supplied.map (·.2) = start.map (·.2) ++ older := by
  induction older generalizing start with
  | nil =>
    cases pure_eq_ok.mp h
    simp
  | cons document rest ih =>
    rw [List.foldlM_cons] at h
    obtain ⟨next, hnext, hrest⟩ := bind_eq_ok.mp h
    obtain ⟨reference, -, -, rfl⟩ := supply_eq_ok hnext
    simpa using ih hrest

/-- An inventory is of the issuer and the window it was asked for; it holds exactly the filings of
the documents that were filed within the window, and it is complete exactly when it has no flag. -/
theorem assembleInventory_eq_ok {recent : SubmissionDocument} {older : List SubmissionDocument}
    {boundaryStart boundaryEnd : Day} {inventory : FilingInventory}
    (h : assembleInventory recent older boundaryStart boundaryEnd = .ok inventory) :
    inventory.cik = recent.cik ∧ inventory.boundaryStart = boundaryStart ∧ inventory.boundaryEnd = boundaryEnd ∧
    (∀ f, f ∈ inventory.filings ↔
      (∃ d ∈ recent :: older, f ∈ d.filings) ∧ boundaryStart ≤ f.filedDate ∧ f.filedDate ≤ boundaryEnd) ∧
    (inventory.completeness = .complete ↔ inventory.flags = []) := by
  unfold assembleInventory at h
  obtain ⟨-, -, hrest⟩ := bind_eq_ok.mp h
  obtain ⟨supplied, hsupplied, hresult⟩ := bind_eq_ok.mp hrest
  cases hresult
  have hdocuments : supplied.map (·.2) = older := by simpa using supplied_documents hsupplied
  refine ⟨rfl, rfl, rfl, ?_, ?_⟩
  · intro f
    have hmem : (∃ s ∈ supplied, f ∈ s.2.filings) ↔ ∃ d ∈ older, f ∈ d.filings := by
      rw [← hdocuments]
      simp only [List.mem_map, exists_exists_and_eq_and]
    simp only [List.mem_insertionSort, List.mem_filter, List.mem_append, List.mem_flatMap, hmem, decide_eq_true_eq,
      List.mem_cons, exists_eq_or_imp]
  · rw [sortedSet_eq_nil]
    split <;> simp_all

end EquityEval.Discovery
