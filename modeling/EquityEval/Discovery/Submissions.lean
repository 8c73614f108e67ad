import EquityEval.Discovery.Inventory
import EquityEval.Normalization.Source
import Mathlib.Data.List.Infix

/-!
# Submissions documents

A submissions document lists filings by columns of equal length. The recent one names the older ones, each once and
with the number of its filings and the dates between which they were filed. An inventory that is complete holds
exactly the filings of a window that its recent document and the advertised ones list.
-/

namespace EquityEval.Discovery

open Relational Workflow Gregorian Normalization Vintage
open Text (Tree)

/-! ### Reading a document -/

/-- How documents are read: `datetime.fromisoformat`, with no instant for a time without an offset, and the greatest
number of digits that an integer is read from. -/
structure SubmissionReaders extends Readers where
  datetimeFromIsoFormat : String → Option (Option Instant)
  maxStrDigits : ℕ

/-- The day of a date. -/
def epochDay (d : Date) : Day := (d.toOrdinal : ℤ) - 719163

/-- `bool(value)`. -/
def truthy : Normalization.SourceValue → Bool
  | .scalar .null => false
  | .scalar (.bool value) => value
  | .scalar (.text value) => value ≠ ""
  | .scalar (.number _) => true
  | .array items => !items.isEmpty
  | .object members => !members.isEmpty

/-- `re.fullmatch(r"[0-9]{10}-[0-9]{2}-[0-9]{6}", text)`. -/
def isAccession (text : String) : Bool :=
  let c := text.toList
  c.length = 20 && (c.take 10).all Char.isDigit && (c.drop 10).take 1 = ['-'] && ((c.drop 11).take 2).all Char.isDigit &&
    (c.drop 13).take 1 = ['-'] && (c.drop 14).all Char.isDigit

/-- `validate_older_name`: a name of the issuer's own older documents. -/
def isOlderName (cik name : String) : Bool :=
  let start := ("CIK" ++ cik ++ "-submissions-").toList
  let digits := (name.toList.drop start.length).take 3
  name.toList.take start.length = start && digits.length = 3 && digits.all Char.isDigit &&
    name.toList.drop (start.length + 3) = ".json".toList

/-- A part of a path: `[A-Za-z0-9][A-Za-z0-9_.-]*`. -/
def isPathPart : List Char → Bool
  | [] => false
  | c :: rest => c.isAlphanum && rest.all fun c => c.isAlphanum || c = '_' || c = '.' || c = '-'

/-- A relative path that stays where it is. -/
def isSafePath (text : String) : Bool := (text.toList.splitOn '/').all isPathPart && !decide (['.', '.'] <:+: text.toList)

/-- `text.replace("Z", "+00:00")`. -/
def replaceZ (text : String) : String := String.ofList (text.toList.flatMap fun c => if c = 'Z' then "+00:00".toList else [c])

variable (env : SubmissionReaders)

/-- `_integer`; nothing where it raises. -/
def integer : Normalization.SourceValue → Option ℕ
  | .scalar (.number n) =>
    let digits := n.text.toList
    if digits ≠ [] ∧ digits.all Char.isDigit = true ∧ digits.length ≤ env.maxStrDigits then some (digitsNumber digits) else none
  | _ => none

/-- `date.fromisoformat(value)`; nothing where it raises. -/
def dateOf (value : Normalization.SourceValue) : Option Date := (text? value).bind env.fromIsoFormat

/-- A value of a row as it is kept. -/
def rawValue : Normalization.SourceValue → SourceValue
  | .scalar .null => .null
  | .scalar (.text value) => .text value
  | value => .other (sourceJson env.toReaders value)

/-- The acceptance of a filing, with its basis: none without a text, or where the time has no offset; nothing where it raises. -/
def acceptance (value : Option Normalization.SourceValue) : Option (Option Instant × Option String) :=
  match value.filter truthy with
  | none => some (none, none)
  | some value => do
    let parsed ← env.datetimeFromIsoFormat (replaceZ (← text? value))
    return match parsed with
      | some instant => (some instant, some "verified_timezone")
      | none => (none, none)

/-- The primary document of a filing; nothing where it raises. -/
def primaryDocument (value : Option Normalization.SourceValue) : Option (Option String) :=
  match value.filter truthy with
  | none => some none
  | some value => do
    let path ← text? value
    if isSafePath path then some (some path) else none

/-- The filing of a row; nothing where it raises. -/
def rowFiling (captureId : Uuid) (locator : String) (row : List (String × Normalization.SourceValue)) : Option InventoryFiling := do
  let accession ← (row.lookup "accessionNumber").bind text?
  guard (isAccession accession)
  let form ← (row.lookup "form").bind text?
  guard (hasText form)
  let filedDate ← (row.lookup "filingDate").bind (dateOf env)
  let report ← match (row.lookup "reportDate").filter truthy with
    | none => some none
    | some value => (dateOf env value).map some
  let primary ← primaryDocument (row.lookup "primaryDocument")
  let (acceptanceAt, basis) ← acceptance env (row.lookup "acceptanceDateTime")
  return {
    accession
    filedDate := epochDay filedDate
    form
    reportPeriodEnd := report.map epochDay
    primaryDocument := primary
    acceptanceAt
    acceptanceTimeBasis := basis
    sourceCaptureId := captureId
    sourceLocator := locator
    rawMetadata := row.map fun cell => (cell.1, rawValue env cell.2) }

/-- `_filings`: the rows of columns of equal length; nothing where it raises. -/
def filings (columns : Normalization.SourceValue) (captureId : Uuid) (start : String) : Option (List InventoryFiling) := do
  let columns ← members? columns
  guard (["accessionNumber", "filingDate", "form"].all fun name => (columns.lookup name).isSome)
  let columns ← columns.mapM fun column => (items? column.2).map (column.1, ·)
  let accessions ← columns.lookup "accessionNumber"
  guard (columns.all fun column => column.2.length = accessions.length)
  (List.range accessions.length).mapM fun index =>
    rowFiling env captureId (start ++ "/" ++ toString index)
      (columns.filterMap fun column => column.2[index]?.map (column.1, ·))

/-- Read one more row of the older documents; nothing where it raises. -/
def reference (cik : String) (references : List OlderDocument) (item : Normalization.SourceValue) : Option (List OlderDocument) := do
  let item ← members? item
  let name ← (item.lookup "name").bind text?
  guard (isOlderName cik name)
  guard (name ∉ references.map (·.name))
  let filingFrom ← (item.lookup "filingFrom").bind (dateOf env)
  let filingTo ← (item.lookup "filingTo").bind (dateOf env)
  guard (filingFrom ≤ filingTo)
  let filingCount ← (item.lookup "filingCount").bind (integer env)
  return references ++ [⟨name, filingCount, epochDay filingFrom, epochDay filingTo⟩]

/-- `parse_submissions`: the recent document, or the older one of a name; nothing where it raises. -/
def parseSubmissions (body : List UInt8) (expectedCik : String) (captureId : Uuid) (documentName : Option String) :
    Option SubmissionDocument := do
  let cik ← canonicalCik (.scalar (.text expectedCik))
  let document ← parseCompanyfacts env.toReaders body
  match documentName with
  | some name => do
    guard (isOlderName cik name)
    return ⟨cik, captureId, some name, ← filings env (.object document) captureId "", []⟩
  | none => do
    let root ← (document.lookup "cik").bind canonicalCik
    guard (root = cik)
    let info ← (document.lookup "filings").bind members?
    let files ← (info.lookup "files").bind items?
    let references ← files.foldlM (reference env cik) []
    let recent ← filings env ((info.lookup "recent").getD (.scalar .null)) captureId "/filings/recent"
    return ⟨cik, captureId, none, recent, references⟩

variable {env}

/-- One more row adds one advertised document under a name of its own. -/
theorem reference_eq_some {cik : String} {references next : List OlderDocument} {item : Normalization.SourceValue}
    (h : reference env cik references item = some next) : ∃ d : OlderDocument, next = references ++ [d] ∧
      d.name ∉ references.map (·.name) := by
  simp only [reference, Option.bind_eq_bind, Option.bind_eq_some_iff, Option.guard_eq_some'] at h
  obtain ⟨_, -, name, -, -, -, -, hnew, filingFrom, -, filingTo, -, -, -, count, -, hresult⟩ := h
  cases hresult
  exact ⟨_, rfl, hnew⟩

/-- The rows of the older documents have names of their own. -/
theorem references_names {cik : String} {files : List Normalization.SourceValue} {start references : List OlderDocument}
    (hstart : (start.map (·.name)).Nodup) (h : files.foldlM (reference env cik) start = some references) :
    (references.map (·.name)).Nodup := by
  induction files generalizing start with
  | nil =>
    cases h
    exact hstart
  | cons item rest ih =>
    rw [List.foldlM_cons, Option.bind_eq_bind, Option.bind_eq_some_iff] at h
    obtain ⟨next, hnext, hrest⟩ := h
    obtain ⟨d, rfl, hnew⟩ := reference_eq_some hnext
    refine ih ?_ hrest
    rw [List.map_append, List.map_cons, List.map_nil, ← List.concat_eq_append]
    exact hstart.concat hnew

/-- A recent document advertises every older one under a name of its own. -/
theorem parseSubmissions_names {body : List UInt8} {cik : String} {captureId : Uuid} {recent : SubmissionDocument}
    (h : parseSubmissions env body cik captureId none = some recent) : (recent.olderDocuments.map (·.name)).Nodup := by
  simp only [parseSubmissions, Option.bind_eq_bind, Option.bind_eq_some_iff, Option.guard_eq_some'] at h
  obtain ⟨_, -, _, -, _, -, -, -, _, -, files, -, references, hreferences, _, -, hresult⟩ := h
  cases hresult
  exact references_names (by simp) hreferences

/-! ### Assembling an inventory -/

section

variable {recent : SubmissionDocument} {older older' : List SubmissionDocument} {first last : Day} {inventory : FilingInventory}

/-- The advertisement that an older document answers. -/
def SubmissionDocument.answered (recent document : SubmissionDocument) : Option OlderDocument :=
  recent.advertised.find? fun item => some item.name = document.documentName

/-- The older documents are advertised ones of the issuer, none of them twice. -/
structure Suppliable (recent : SubmissionDocument) (older : List SubmissionDocument) : Prop where
  issued : ∀ d ∈ older, d.cik = recent.cik
  answers : ∀ d ∈ older, (recent.answered d).isSome
  distinct : (older.map (·.documentName)).Nodup

/-- The older documents with the advertisements that they answer. -/
def supplied (recent : SubmissionDocument) (older : List SubmissionDocument) : List (OlderDocument × SubmissionDocument) :=
  older.filterMap fun d => (recent.answered d).map (·, d)

/-- A document is supplied when it is the issuer's, advertised and not there yet. -/
theorem supply_eq_ok_iff {document : SubmissionDocument} {before next : List (OlderDocument × SubmissionDocument)} :
    supply recent before document = .ok next ↔ ∃ item, recent.answered document = some item ∧ document.cik = recent.cik ∧
      (∀ s ∈ before, s.2.documentName ≠ document.documentName) ∧ next = before ++ [(item, document)] := by
  unfold supply SubmissionDocument.answered
  cases hfind : recent.advertised.find? fun item => some item.name = document.documentName with
  | none => simp
  | some item =>
    have hany : (before.any fun s => s.2.documentName = document.documentName) = false ↔
        ∀ s ∈ before, s.2.documentName ≠ document.documentName := by
      simp
    rw [← hany]
    simp only [Option.some.injEq, exists_eq_left']
    split_ifs with hcik hthere
    · simp [hcik]
    · simp [hthere]
    · rw [not_not] at hcik
      rw [Bool.not_eq_true] at hthere
      exact ⟨fun h => ⟨hcik, hthere, (Except.ok.inj h).symm⟩, fun h => congrArg Except.ok h.2.2.symm⟩

/-- The older documents are supplied one by one when they are suppliable and none of them was before. -/
theorem foldlM_supply {before result : List (OlderDocument × SubmissionDocument)} :
    older.foldlM (supply recent) before = .ok result ↔ Suppliable recent older ∧
      (∀ d ∈ older, ∀ s ∈ before, s.2.documentName ≠ d.documentName) ∧ result = before ++ supplied recent older := by
  induction older generalizing before with
  | nil =>
    have hnil : Suppliable recent [] := ⟨by simp, by simp, by simp⟩
    rw [List.foldlM_nil, pure_eq_ok]
    simp [hnil, supplied, eq_comm]
  | cons d rest ih =>
    rw [List.foldlM_cons, bind_eq_ok]
    simp only [supply_eq_ok_iff, ih]
    constructor
    · rintro ⟨next, ⟨item, hitem, hcik, hnew, rfl⟩, hrest, hbefore, rfl⟩
      simp only [List.mem_append, List.mem_singleton, or_imp, forall_and, forall_eq] at hbefore
      refine ⟨⟨?_, ?_, ?_⟩, ?_, ?_⟩
      · exact List.forall_mem_cons.mpr ⟨hcik, hrest.issued⟩
      · exact List.forall_mem_cons.mpr ⟨by simp [hitem], hrest.answers⟩
      · rw [List.map_cons, List.nodup_cons, List.mem_map]
        refine ⟨?_, hrest.distinct⟩
        rintro ⟨later, hlater, hname⟩
        exact hbefore.2 later hlater hname.symm
      · exact List.forall_mem_cons.mpr ⟨hnew, hbefore.1⟩
      · simp [supplied, hitem]
    · rintro ⟨hsuppliable, hbefore, rfl⟩
      obtain ⟨hcik, hissued⟩ := List.forall_mem_cons.mp hsuppliable.issued
      obtain ⟨hanswers, hrest⟩ := List.forall_mem_cons.mp hsuppliable.answers
      obtain ⟨hnew, hlater⟩ := List.forall_mem_cons.mp hbefore
      obtain ⟨item, hitem⟩ := Option.isSome_iff_exists.mp hanswers
      have hdistinct := hsuppliable.distinct
      rw [List.map_cons, List.nodup_cons, List.mem_map] at hdistinct
      refine ⟨before ++ [(item, d)], ⟨item, hitem, hcik, hnew, rfl⟩, ⟨hissued, hrest, hdistinct.2⟩, ?_, ?_⟩
      · intro later hmem s hs
        rcases List.mem_append.mp hs with hs | hs
        · exact hlater later hmem s hs
        · rw [List.mem_singleton.mp hs]
          exact fun hname => hdistinct.1 ⟨later, hmem, hname.symm⟩
      · simp [supplied, hitem]

/-- The names of the advertised documents that a window needs and that were not supplied. -/
def missing (recent : SubmissionDocument) (older : List SubmissionDocument) (first last : Day) : List String :=
  sortedSet (((recent.advertised.filter (·.overlaps first last)).map (·.name)).filter fun name =>
    ¬ (supplied recent older).any fun s => s.2.documentName = some name)

/-- The filings of the recent document and of the supplied ones that were filed within a window. -/
def selection (recent : SubmissionDocument) (older : List SubmissionDocument) (first last : Day) : List InventoryFiling :=
  (recent.filings ++ (supplied recent older).flatMap (·.2.filings)).filter fun f => decide (first ≤ f.filedDate ∧ f.filedDate ≤ last)

/-- What is found missing or contradicted. -/
def found (recent : SubmissionDocument) (older : List SubmissionDocument) (first last : Day) : List String :=
  inventoryFlags (missing recent older first last) (recent :: older) (supplied recent older) (selection recent older first last)

/-- What an accepted assembly returns. -/
structure Assembled (recent : SubmissionDocument) (older : List SubmissionDocument) (first last : Day)
    (inventory : FilingInventory) : Prop where
  root : recent.documentName = none
  window : first ≤ last
  suppliable : Suppliable recent older
  filings : inventory.filings = (selection recent older first last).insertionSort fun a b => a.sortKey ≤ b.sortKey
  completeness : inventory.completeness = if found recent older first last = [] then .complete else .incomplete
  missing : inventory.missingDocuments = missing recent older first last
  flags : inventory.flags = sortedSet (found recent older first last)

/-- An assembly is accepted when the window is one of a recent document and the older documents are suppliable. -/
theorem exists_assembled (hroot : recent.documentName = none) (hwindow : first ≤ last) (h : Suppliable recent older) :
    ∃ inventory, assembleInventory recent older first last = .ok inventory := by
  have hsupplied : older.foldlM (supply recent) [] = .ok (supplied recent older) := foldlM_supply.mpr ⟨h, by simp, by simp⟩
  have hraise : raiseIf (recent.documentName ≠ none ∨ last < first)
      (⟨"A recent root and ordered explicit boundary are required"⟩ : ValueError) = .ok () := by
    simp [hroot, hwindow]
  exact ⟨_, bind_eq_ok.mpr ⟨(), hraise, bind_eq_ok.mpr ⟨_, hsupplied, rfl⟩⟩⟩

/-- An accepted assembly returns the filings of the window and what was found. -/
theorem assembled_of_ok (h : assembleInventory recent older first last = .ok inventory) :
    Assembled recent older first last inventory := by
  unfold assembleInventory at h
  obtain ⟨_, hraise, hrest⟩ := bind_eq_ok.mp h
  obtain ⟨result, hsupplied, hresult⟩ := bind_eq_ok.mp hrest
  rw [raiseIf_eq_ok, not_or, not_not, not_lt] at hraise
  obtain ⟨hsuppliable, -, hall⟩ := foldlM_supply.mp hsupplied
  rw [List.nil_append] at hall
  subst hall
  cases hresult
  exact ⟨hraise.1, hraise.2, hsuppliable, rfl, rfl, rfl, rfl⟩

/-! ### The order of the older documents -/

/-- Documents in another order are suppliable as well. -/
theorem Suppliable.perm (h : Suppliable recent older) (hperm : older.Perm older') : Suppliable recent older' where
  issued d hd := h.issued d (hperm.mem_iff.mpr hd)
  answers d hd := h.answers d (hperm.mem_iff.mpr hd)
  distinct := (hperm.map _).nodup_iff.mp h.distinct

/-- Documents in another order select the same filings. -/
theorem selection_perm (hperm : older.Perm older') : (selection recent older first last).Perm (selection recent older' first last) :=
  (((hperm.filterMap _).flatMap_right _).append_left _).filter _

/-- Documents in another order miss the same ones. -/
theorem missing_perm (hperm : older.Perm older') : missing recent older first last = missing recent older' first last := by
  have hany : ∀ name, ((supplied recent older).any fun s => s.2.documentName = some name) =
      (supplied recent older').any fun s => s.2.documentName = some name :=
    fun name => (hperm.filterMap _).any_eq
  unfold missing
  simp only [hany]

/-- Documents in another order have the same flags. -/
theorem found_perm (hperm : older.Perm older') : found recent older first last = found recent older' first last := by
  have hsupplied : (supplied recent older).Perm (supplied recent older') := hperm.filterMap _
  have hselected : (selection recent older first last).Perm (selection recent older' first last) := selection_perm hperm
  unfold found inventoryFlags
  rw [missing_perm hperm, (hperm.cons recent).any_eq, hsupplied.any_eq, hselected.any_eq]
  simp only [hselected.any_eq]

/-! ### Complete inventories -/

/-- A supplied document is an older one with the advertisement under its name. -/
theorem mem_supplied {s : OlderDocument × SubmissionDocument} (h : s ∈ supplied recent older) :
    s.2 ∈ older ∧ s.1 ∈ recent.advertised ∧ s.2.documentName = some s.1.name := by
  obtain ⟨d, hd, hpair⟩ := List.mem_filterMap.mp h
  obtain ⟨item, hitem, rfl⟩ := Option.map_eq_some_iff.mp hpair
  have hname := List.find?_some hitem
  exact ⟨hd, List.mem_of_find?_eq_some hitem, (of_decide_eq_true hname).symm⟩

/-- Nothing is flagged when nothing is missing, no document lists an accession twice, every supplied one is as
advertised and the selected rows of an accession agree. -/
theorem found_eq_nil : found recent older first last = [] ↔ missing recent older first last = [] ∧
    (∀ d ∈ recent :: older, (d.filings.map (·.accession)).Nodup) ∧ (∀ s ∈ supplied recent older, mismatched s = false) ∧
    ∀ f ∈ selection recent older first last, ∀ g ∈ selection recent older first last,
      f.accession = g.accession → f.rawMetadata = g.rawMetadata := by
  simp only [found, inventoryFlags, List.append_eq_nil_iff, ite_eq_right_iff, List.cons_ne_nil, imp_false, not_not,
    List.any_eq_true, decide_eq_true_eq, not_exists, not_and, Bool.not_eq_true, and_assoc]

/-- A document that is as advertised has its number of filings, all within its dates. -/
theorem mismatched_eq_false {s : OlderDocument × SubmissionDocument} : mismatched s = false ↔
    s.2.filings.length = s.1.filingCount ∧ ∀ f ∈ s.2.filings, s.1.filingFrom ≤ f.filedDate ∧ f.filedDate ≤ s.1.filingTo := by
  simp [mismatched, not_le]

/-- What a complete inventory covers: the filings of the window of the recent document and of every advertised document
that meets it, each supplied as advertised; the rows of one accession have the same metadata. -/
structure Covers (recent : SubmissionDocument) (older : List SubmissionDocument) (first last : Day)
    (inventory : FilingInventory) : Prop where
  documents : ∃ documents : List (OlderDocument × SubmissionDocument),
    (documents.map (·.1)).Perm (recent.olderDocuments.filter (·.overlaps first last)) ∧
    (∀ d ∈ documents, d.2 ∈ older ∧ d.2.documentName = some d.1.name ∧ d.2.filings.length = d.1.filingCount ∧
      ∀ f ∈ d.2.filings, d.1.filingFrom ≤ f.filedDate ∧ f.filedDate ≤ d.1.filingTo) ∧
    inventory.filings.Perm ((recent.filings ++ documents.flatMap (·.2.filings)).filter
      fun f => decide (first ≤ f.filedDate ∧ f.filedDate ≤ last))
  consistent : ∀ f ∈ inventory.filings, ∀ g ∈ inventory.filings, f.accession = g.accession → f.rawMetadata = g.rawMetadata

/-- Where no document is missing, the supplied ones that meet the window answer all advertisements that do. -/
theorem answered_all (hnames : (recent.olderDocuments.map (·.name)).Nodup) (hadvertised : recent.advertised = recent.olderDocuments)
    (hdistinct : (older.map (·.documentName)).Nodup) (hmissing : missing recent older first last = []) :
    (((supplied recent older).filter fun s => s.1.overlaps first last).map (·.1)).Perm
      (recent.olderDocuments.filter (·.overlaps first last)) := by
  have hinjective : ∀ s ∈ supplied recent older, ∀ s' ∈ supplied recent older, s.1 = s'.1 → s = s' := by
    intro s hs s' hs' heq
    obtain ⟨hmem, -, hname⟩ := mem_supplied hs
    obtain ⟨hmem', -, hname'⟩ := mem_supplied hs'
    have hdocument : s.2 = s'.2 := List.inj_on_of_nodup_map hdistinct hmem hmem' (by rw [hname, hname', heq])
    exact Prod.ext heq hdocument
  have hnodup : (supplied recent older).Nodup := by
    refine hdistinct.of_map _ |>.filterMap ?_
    intro d d' s hd hd'
    obtain ⟨item, -, rfl⟩ := Option.map_eq_some_iff.mp hd
    obtain ⟨item', -, heq⟩ := Option.map_eq_some_iff.mp hd'
    exact (Prod.mk.inj heq).2.symm
  refine (List.perm_ext_iff_of_nodup ?_ ((hnames.of_map _).filter _)).mpr fun item => ?_
  · refine (hnodup.filter _).map_on fun s hs s' hs' => ?_
    exact hinjective s (List.mem_of_mem_filter hs) s' (List.mem_of_mem_filter hs')
  · rw [List.mem_map, List.mem_filter]
    constructor
    · rintro ⟨s, hs, rfl⟩
      obtain ⟨hsupplied, hoverlaps⟩ := List.mem_filter.mp hs
      exact ⟨hadvertised ▸ (mem_supplied hsupplied).2.1, hoverlaps⟩
    · rintro ⟨hitem, hoverlaps⟩
      have hthere : (supplied recent older).any (fun s => s.2.documentName = some item.name) = true := by
        by_contra hnone
        refine List.ne_nil_of_mem (a := item.name) ?_ hmissing
        refine mem_sortedSet.mpr (List.mem_filter.mpr ⟨?_, by simpa using hnone⟩)
        exact List.mem_map_of_mem (List.mem_filter.mpr ⟨hadvertised ▸ hitem, hoverlaps⟩)
      obtain ⟨s, hs, hname⟩ := List.any_eq_true.mp hthere
      obtain ⟨-, hmem, hadvertisedName⟩ := mem_supplied hs
      have hsame : s.1 = item := by
        refine List.inj_on_of_nodup_map hnames (hadvertised ▸ hmem) hitem (Option.some.inj ?_)
        rw [← hadvertisedName, of_decide_eq_true hname]
      exact ⟨s, List.mem_filter.mpr ⟨hs, hsame ▸ hoverlaps⟩, hsame⟩

/-- Filings of documents that do not meet the window are not in it. -/
theorem flatMap_filter_overlaps {documents : List (OlderDocument × SubmissionDocument)}
    (h : ∀ s ∈ documents, ∀ f ∈ s.2.filings, s.1.filingFrom ≤ f.filedDate ∧ f.filedDate ≤ s.1.filingTo) :
    ((documents.filter fun s => s.1.overlaps first last).flatMap (·.2.filings)).filter
        (fun f => decide (first ≤ f.filedDate ∧ f.filedDate ≤ last)) =
      (documents.flatMap (·.2.filings)).filter fun f => decide (first ≤ f.filedDate ∧ f.filedDate ≤ last) := by
  induction documents with
  | nil => rfl
  | cons s rest ih =>
    obtain ⟨hs, hrest⟩ := List.forall_mem_cons.mp h
    by_cases hoverlaps : s.1.overlaps first last = true
    · rw [List.filter_cons, if_pos hoverlaps, List.flatMap_cons, List.flatMap_cons, List.filter_append, List.filter_append,
        ih hrest]
    · have hnone : s.2.filings.filter (fun f => decide (first ≤ f.filedDate ∧ f.filedDate ≤ last)) = [] := by
        refine List.filter_eq_nil_iff.mpr fun f hf hwindow => hoverlaps ?_
        have hwithin := hs f hf
        have hin := of_decide_eq_true hwindow
        simp only [OlderDocument.overlaps, Bool.and_eq_true, decide_eq_true_eq]
        exact ⟨hwithin.1.trans hin.2, hin.1.trans hwithin.2⟩
      rw [List.filter_cons, if_neg hoverlaps, ih hrest, List.flatMap_cons, List.filter_append, hnone, List.nil_append]

/-- A complete assembly covers its window. -/
theorem Assembled.covers (h : Assembled recent older first last inventory) (hnames : (recent.olderDocuments.map (·.name)).Nodup)
    (hcomplete : inventory.completeness = .complete) : Covers recent older first last inventory := by
  have hfound : found recent older first last = [] := by
    by_contra hsome
    rw [h.completeness, if_neg hsome] at hcomplete
    cases hcomplete
  obtain ⟨hmissing, -, hmismatched, hconsistent⟩ := found_eq_nil.mp hfound
  have hadvertised : recent.advertised = recent.olderDocuments := by
    refine List.pwFilter_eq_self.mpr ?_
    simpa only [List.Nodup, List.pairwise_map] using hnames
  have hperm : inventory.filings.Perm (selection recent older first last) := h.filings ▸ List.perm_insertionSort _ _
  constructor
  · refine ⟨_, answered_all hnames hadvertised h.suppliable.distinct hmissing, fun s hs => ?_, ?_⟩
    · have hsupplied := List.mem_of_mem_filter hs
      obtain ⟨hmem, -, hname⟩ := mem_supplied hsupplied
      exact ⟨hmem, hname, mismatched_eq_false.mp (hmismatched s hsupplied)⟩
    · rw [List.filter_append, flatMap_filter_overlaps fun s hs => (mismatched_eq_false.mp (hmismatched s hs)).2,
        ← List.filter_append]
      exact hperm
  · exact fun f hf g hg => hconsistent f (hperm.mem_iff.mp hf) g (hperm.mem_iff.mp hg)

/-- A complete inventory covers its window, and neither the verdict nor the filings of an inventory depend on the order
of the older documents. -/
theorem inventory_covers {body : List UInt8} {expectedCik : String} {captureId : Uuid}
    (hrecent : parseSubmissions env body expectedCik captureId none = some recent)
    (h : assembleInventory recent older first last = .ok inventory) :
    (inventory.completeness = .complete → Covers recent older first last inventory) ∧
      ∀ older', older.Perm older' → ∃ inventory', assembleInventory recent older' first last = .ok inventory' ∧
        inventory'.completeness = inventory.completeness ∧ inventory'.missingDocuments = inventory.missingDocuments ∧
        inventory'.flags = inventory.flags ∧ inventory'.filings.Perm inventory.filings := by
  have hassembled := assembled_of_ok h
  refine ⟨hassembled.covers (parseSubmissions_names hrecent), fun older' hperm => ?_⟩
  obtain ⟨inventory', h'⟩ := exists_assembled hassembled.root hassembled.window (hassembled.suppliable.perm hperm)
  have hassembled' := assembled_of_ok h'
  refine ⟨inventory', h', ?_, ?_, ?_, ?_⟩
  · rw [hassembled'.completeness, hassembled.completeness, found_perm hperm]
  · rw [hassembled'.missing, hassembled.missing, missing_perm hperm]
  · rw [hassembled'.flags, hassembled.flags, found_perm hperm]
  · rw [hassembled'.filings, hassembled.filings]
    exact (List.perm_insertionSort _ _).trans ((selection_perm hperm).symm.trans (List.perm_insertionSort _ _).symm)

end

/-- A recent document that advertises an older one. -/
def sampleRootBody : String :=
  "\x7b\"cik\":320193,\"filings\":\x7b\"recent\":\x7b\"accessionNumber\":[\"0000320193-25-000079\"]," ++
    "\"filingDate\":[\"2025-10-31\"],\"form\":[\"10-K\"]\x7d,\"files\":[\x7b" ++
    "\"name\":\"CIK0000320193-submissions-001.json\",\"filingCount\":1," ++
    "\"filingFrom\":\"2015-01-01\",\"filingTo\":\"2019-12-31\"\x7d]\x7d\x7d"

/-- The older document. -/
def sampleOlderBody : String :=
  "\x7b\"accessionNumber\":[\"0000320193-18-000007\"],\"filingDate\":[\"2018-01-01\"],\"form\":[\"8-K\"]\x7d"

/-- The columns of one filing. -/
def sampleColumns (accession filed form : String) : Tree RawScalar String :=
  .object [("accessionNumber", .array [.scalar (.text accession)]), ("filingDate", .array [.scalar (.text filed)]),
    ("form", .array [.scalar (.text form)])]

/-- How the two documents are read. -/
def sampleSubmissionReaders : SubmissionReaders where
  loads body :=
    if body = sampleRootBody.toUTF8.data.toList then
      some (.object [("cik", .scalar (.token "320193")),
        ("filings", .object [("recent", sampleColumns "0000320193-25-000079" "2025-10-31" "10-K"),
          ("files", .array [.object [("name", .scalar (.text "CIK0000320193-submissions-001.json")),
            ("filingCount", .scalar (.token "1")), ("filingFrom", .scalar (.text "2015-01-01")),
            ("filingTo", .scalar (.text "2019-12-31"))]])])])
    else if body = sampleOlderBody.toUTF8.data.toList then
      some (sampleColumns "0000320193-18-000007" "2018-01-01" "8-K")
    else none
  sha256 _ := ""
  sha256Text _ := ""
  quoteKey key := "\"" ++ key ++ "\""
  quote text := "\"" ++ text ++ "\""
  fromIsoFormat text :=
    [("2025-10-31", (⟨2025, 10, 31, Date.inYears_2025, Date.inMonths_10, by decide⟩ : Date)),
      ("2015-01-01", ⟨2015, 1, 1, by decide, Date.inMonths_1, by decide⟩),
      ("2019-12-31", ⟨2019, 12, 31, Date.inYears_2019, Date.inMonths_12, by decide⟩),
      ("2018-01-01", ⟨2018, 1, 1, Date.inYears_2018, Date.inMonths_1, Date.inDays_2018_1_1⟩)].lookup text
  utcDate _ := ⟨1970, 1, 1, by decide, by decide, by decide⟩
  canonicalMetadata _ := ""
  evidenceId _ := 0
  datetimeFromIsoFormat _ := none
  maxStrDigits := 4300

/-- The inventory of both documents is complete and covers its window. -/
theorem inventory_covers_sample : ∃ recent older inventory,
    parseSubmissions sampleSubmissionReaders sampleRootBody.toUTF8.data.toList "0000320193" 1 none = some recent ∧
    parseSubmissions sampleSubmissionReaders sampleOlderBody.toUTF8.data.toList "0000320193" 2
      (some "CIK0000320193-submissions-001.json") = some older ∧
    assembleInventory recent [older] (epochDay ⟨2015, 1, 1, by decide, by decide, by decide⟩)
      (epochDay ⟨2025, 12, 31, by decide, by decide, by decide⟩) = .ok inventory ∧ inventory.filings.length = 2 ∧
    inventory.completeness = .complete ∧ Covers recent [older] (epochDay ⟨2015, 1, 1, by decide, by decide, by decide⟩)
      (epochDay ⟨2025, 12, 31, by decide, by decide, by decide⟩) inventory := by
  have hrun : ((parseSubmissions sampleSubmissionReaders sampleRootBody.toUTF8.data.toList "0000320193" 1 none).bind fun recent =>
      (parseSubmissions sampleSubmissionReaders sampleOlderBody.toUTF8.data.toList "0000320193" 2
        (some "CIK0000320193-submissions-001.json")).bind fun older =>
      (assembleInventory recent [older] (epochDay ⟨2015, 1, 1, by decide, by decide, by decide⟩)
        (epochDay ⟨2025, 12, 31, by decide, by decide, by decide⟩)).toOption.map fun inventory =>
          (inventory.filings.length, inventory.completeness)) = some (2, .complete) := by
    decide +kernel
  simp only [Option.bind_eq_some_iff, Option.map_eq_some_iff, Prod.mk.injEq] at hrun
  obtain ⟨recent, hrecent, older, holder, inventory, hinventory, hlength, hcomplete⟩ := hrun
  exact ⟨recent, older, inventory, hrecent, holder, toOption_eq_some.mp hinventory, hlength, hcomplete,
    (inventory_covers hrecent (toOption_eq_some.mp hinventory)).1 hcomplete⟩

end EquityEval.Discovery
