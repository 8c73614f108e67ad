import EquityEval.Calendar.Gregorian
import EquityEval.Normalization.Source
import EquityEval.Text.Patterns
import EquityEval.Workflow.Database

/-!
# SEC resources

A resource is named by its URL and by an object key. The program builds both from a CIK, a kind and the
names of a filing; the database reads them back with patterns of its own, and plans accept object keys with
patterns of theirs. Texts are lists of characters.
-/

namespace EquityEval.Resources

open Gregorian Workflow
open Discovery (sortedSet)
open Normalization (SourceValue canonicalCik digitsNumber)
open Relational (orRaise)
open Text
open Text.Pattern (concat lit many one oneOf plus times)

/-- A condition without which a value is refused. -/
def require (condition : Prop) [Decidable condition] (message : String) : Except String Unit :=
  if condition then .ok () else .error message

@[simp] theorem require_eq_ok {condition : Prop} [Decidable condition] {message : String} {u : Unit} :
    require condition message = .ok u ↔ condition := by
  unfold require
  split <;> simp_all

/-- What follows a condition is done where it holds. -/
@[simp] theorem require_bind_eq_ok {α : Type} {condition : Prop} [Decidable condition] {message : String}
    {next : Unit → Except String α} {a : α} : (require condition message >>= next) = .ok a ↔ condition ∧ next () = .ok a := by
  unfold require
  split
  case isTrue h => exact (and_iff_right h).symm
  case isFalse h =>
    constructor
    · intro hraised
      cases hraised
    · exact fun hboth => absurd hboth.1 h

/-! ### Patterns -/

/-- `[A-Za-z0-9_.-]`. -/
def nameCharacter (c : Char) : Bool := c.isAlphanum || c = '_' || c = '.' || c = '-'

/-- `[0-9]{10}-[0-9]{2}-[0-9]{6}`. -/
def accessionPattern : Pattern :=
  concat [times Char.isDigit 10, lit ['-'], times Char.isDigit 2, lit ['-'], times Char.isDigit 6]

/-- `[A-Za-z0-9][A-Za-z0-9_.-]*\.(?:htm|html|xml|txt|xsd)`. -/
def documentPattern : Pattern :=
  concat [one Char.isAlphanum, many nameCharacter, lit ['.'],
    oneOf ["htm".toList, "html".toList, "xml".toList, "txt".toList, "xsd".toList]]

/-- The name of a file of history: `CIK{cik}-submissions-{digits}\.json`. -/
def historyPattern (cik digits : Pattern) : Pattern :=
  concat [lit "CIK".toList, cik, lit "-submissions-".toList, digits, lit ".json".toList]

/-- The text has two dots in a row. -/
def HasDots (text : List Char) : Prop := ['.', '.'] <:+: text

instance (text : List Char) : Decidable (HasDots text) := inferInstanceAs (Decidable (_ <:+: _))

/-- The text without its dashes. -/
def withoutDashes (text : List Char) : List Char := text.filter (· ≠ '-')

/-! ### Resources -/

/-- `ResourceKind`. -/
inductive ResourceKind where
  | companyFacts
  | submissions
  | submissionsHistory
  | filingDocument
deriving DecidableEq, Repr

/-- The value of a kind. -/
def ResourceKind.value : ResourceKind → List Char
  | companyFacts => "company_facts".toList
  | submissions => "submissions".toList
  | submissionsHistory => "submissions_history".toList
  | filingDocument => "filing_document".toList

/-- `SecResource`. -/
structure SecResource where
  issuerId : Uuid
  cik : List Char
  kind : ResourceKind
  filename : Option (List Char)
  accession : Option (List Char)
deriving DecidableEq

namespace SecResource

-- decide over the characters of the text, also where all characters can be gone through
local instance (priority := 2000) decidableSome {α : Type} (p : α → Prop) [DecidablePred p] (l : List α) :
    Decidable (∃ x ∈ l, p x) :=
  List.decidableBEx p l

/-- Why a CIK is refused. -/
def cikMessage : SourceValue → String
  | .scalar (.number n) =>
    if ∃ c ∈ n.text.toList, c ∈ ['.', 'e', 'E'] then "CIK must be an integer or ASCII digit string"
    else "CIK must be a positive integer with at most ten digits"
  | .scalar (.text _) => "CIK must be a positive integer with at most ten digits"
  | _ => "CIK must be an integer or ASCII digit string"

/-- What a kind of resource needs and what it does not have. -/
def checkNames (cik : List Char) (kind : ResourceKind) (filename accession : Option (List Char)) : Except String Unit :=
  match kind with
  | .submissionsHistory => do
    require (∃ name ∈ filename, (historyPattern (lit cik) (plus Char.isDigit)).Matches name)
      "History filename must belong to the resolved CIK"
    require (accession = none) "Submissions history has no filing accession"
  | .filingDocument => do
    require (∃ number ∈ accession, accessionPattern.Matches number) "Filing document needs a validated accession"
    require (∃ name ∈ filename, documentPattern.Matches name) "Invalid filing document filename"
    require (∀ name ∈ filename, ¬ HasDots name) "Invalid filing document filename"
  | _ => require (filename = none ∧ accession = none) "This SEC resource has no filename or accession"

/-- `SecResource.__post_init__`. -/
def build (issuerId : Uuid) (cik : SourceValue) (kind : ResourceKind) (filename accession : Option (List Char)) :
    Except String SecResource := do
  let text ← orRaise (canonicalCik cik) (cikMessage cik)
  checkNames text.toList kind filename accession
  return ⟨issuerId, text.toList, kind, filename, accession⟩

/-- `SecResource.url`. -/
def url (r : SecResource) : List Char :=
  match r.kind with
  | .companyFacts => "https://data.sec.gov/api/xbrl/companyfacts/CIK".toList ++ r.cik ++ ".json".toList
  | .submissions => "https://data.sec.gov/submissions/CIK".toList ++ r.cik ++ ".json".toList
  | .submissionsHistory => "https://data.sec.gov/submissions/".toList ++ r.filename.getD []
  | .filingDocument =>
    "https://www.sec.gov/Archives/edgar/data/".toList ++ (Nat.toDigits 10 (digitsNumber r.cik) ++ '/' ::
      (withoutDashes (r.accession.getD []) ++ '/' :: r.filename.getD []))

/-- `SecResource.object_key`. -/
def objectKey (r : SecResource) : List Char :=
  let suffix := ['/'].intercalate ((r.accession.toList ++ r.filename.toList).filter (· ≠ []))
  r.kind.value ++ '/' :: (r.cik ++ if suffix ≠ [] then '/' :: suffix else [])

end SecResource

/-! ### The database -/

/-- A source. -/
structure Source where
  id : Uuid
  baseUrl : List Char
deriving DecidableEq

/-- A revision of the policy of a source. -/
structure PolicyRevision where
  id : Uuid
  sourceId : Uuid
deriving DecidableEq

/-- The tables of sources and of their policies. -/
structure Registry where
  sources : List Source
  policies : List PolicyRevision

/-- The origins of the SEC. -/
def secOrigins : List (List Char) := ["https://data.sec.gov".toList, "https://www.sec.gov".toList]

/-- A policy revision of a source is registered for an origin of the SEC. -/
def Registry.SecOrigin (tables : Registry) (source policy : Uuid) : Prop :=
  ∃ s ∈ tables.sources, ∃ p ∈ tables.policies, p.sourceId = s.id ∧ s.id = source ∧ p.id = policy ∧ s.baseUrl ∈ secOrigins

instance (tables : Registry) (source policy : Uuid) : Decidable (tables.SecOrigin source policy) :=
  inferInstanceAs (Decidable (∃ _ ∈ _, ∃ _ ∈ _, _))

/-- The patterns and the URL of a kind, as `market_sec_resource` reads them. -/
def ReadsKind (url object : List Char) : ResourceKind → Prop
  | .companyFacts =>
    (concat [lit "company_facts/".toList, times Char.isDigit 10]).Matches object ∧
      url = "https://data.sec.gov/api/xbrl/companyfacts/CIK".toList ++ splitPart object '/' 2 ++ ".json".toList
  | .submissions =>
    (concat [lit "submissions/".toList, times Char.isDigit 10]).Matches object ∧
      url = "https://data.sec.gov/submissions/CIK".toList ++ splitPart object '/' 2 ++ ".json".toList
  | .submissionsHistory =>
    (concat [lit "submissions_history/".toList, times Char.isDigit 10, lit ['/'],
        historyPattern (times Char.isDigit 10) (plus Char.isDigit)]).Matches object ∧
      (historyPattern (lit (splitPart object '/' 2)) (plus Char.isDigit)).Matches (splitPart object '/' 3) ∧
      url = "https://data.sec.gov/submissions/".toList ++ splitPart object '/' 3
  | .filingDocument =>
    (concat [lit "filing_document/".toList, times Char.isDigit 10, lit ['/'], accessionPattern, lit ['/'], documentPattern]).Matches object ∧
      ¬ HasDots (splitPart object '/' 4) ∧
      url = "https://www.sec.gov/Archives/edgar/data/".toList ++ ((splitPart object '/' 2).dropWhile (· = '0') ++ '/' ::
        (withoutDashes (splitPart object '/' 3) ++ '/' :: splitPart object '/' 4))

instance (url object : List Char) (kind : ResourceKind) : Decidable (ReadsKind url object kind) := by
  cases kind <;> unfold ReadsKind <;> infer_instance

/-- `market_sec_resource`. -/
def marketSecResource (tables : Registry) (source policy : Uuid) (url object : List Char) : Prop :=
  tables.SecOrigin source policy ∧
    (times Char.isDigit 10).Matches (splitPart object '/' 2) ∧ splitPart object '/' 2 ≠ "0000000000".toList ∧
    (ReadsKind url object .companyFacts ∨ ReadsKind url object .submissions ∨ ReadsKind url object .submissionsHistory ∨
      ReadsKind url object .filingDocument)

instance (tables : Registry) (source policy : Uuid) (url object : List Char) :
    Decidable (marketSecResource tables source policy url object) := inferInstanceAs (Decidable (_ ∧ _))

/-! ### Plans -/

/-- The key of a resource of a kind that has no more names. -/
def rootKey (kind : ResourceKind) (cik : List Char) : List Char := kind.value ++ '/' :: cik

/-- `filing_document/{cik}/{accession}/{document}`. -/
def filingKeyPattern (cik : List Char) : Pattern :=
  concat [lit "filing_document/".toList, lit cik, lit ['/'], accessionPattern, lit ['/'], documentPattern]

/-- `submissions_history/{cik}/CIK{cik}-submissions-[0-9]{3}\.json`. -/
def historyKeyPattern (cik : List Char) : Pattern :=
  concat [lit "submissions_history/".toList, lit cik, lit ['/'], historyPattern (lit cik) (times Char.isDigit 3)]

/-- A positive number of ten digits. -/
def IsPlanCik (cik : List Char) : Prop := (times Char.isDigit 10).Matches cik ∧ digitsNumber cik ≠ 0

instance (cik : List Char) : Decidable (IsPlanCik cik) := inferInstanceAs (Decidable (_ ∧ _))

/-- The filing window is no longer than 730 days. -/
def ShortWindow (first last : Date) : Prop := first ≤ last ∧ last.toOrdinal - first.toOrdinal ≤ 730

instance (first last : Date) : Decidable (ShortWindow first last) := inferInstanceAs (Decidable (_ ∧ _))

/-- `BootstrapPlan`. -/
structure BootstrapPlan where
  issuerId : Uuid
  cik : List Char
  sourceId : Uuid
  policyRevisionId : Uuid
  inventoryStart : Date
  inventoryEnd : Date
  resources : List String
  version : String := "sec-identity-bootstrap-v1"
deriving DecidableEq

/-- The keys that every bootstrap acquires. -/
def bootstrapRequired (cik : List Char) : List String :=
  [String.ofList (rootKey .companyFacts cik), String.ofList (rootKey .submissions cik)]

/-- A key of a filing document that a bootstrap accepts. -/
def IsFilingKey (cik : List Char) (key : String) : Prop := (filingKeyPattern cik).Matches key.toList ∧ ¬ HasDots key.toList

instance (cik : List Char) (key : String) : Decidable (IsFilingKey cik key) := inferInstanceAs (Decidable (_ ∧ _))

/-- `BootstrapPlan.__post_init__`. -/
def BootstrapPlan.build (given : BootstrapPlan) : Except String BootstrapPlan := do
  require (given.version = "sec-identity-bootstrap-v1") "Unsupported bootstrap plan version"
  require (IsPlanCik given.cik) "Bootstrap needs a canonical positive CIK"
  require (ShortWindow given.inventoryStart given.inventoryEnd) "Bootstrap inventory window is limited to 730 days"
  require (given.resources.Nodup ∧ bootstrapRequired given.cik ⊆ given.resources)
    "Bootstrap requires unique Company Facts and Submissions resources"
  let optional := given.resources.filter (· ∉ bootstrapRequired given.cik)
  require (∀ key ∈ optional, IsFilingKey given.cik key ∨ (historyKeyPattern given.cik).Matches key.toList)
    "Invalid bootstrap resource"
  let filings := optional.filter (IsFilingKey given.cik ·)
  require (filings.length ≤ 5 ∧ optional.length - filings.length ≤ 10)
    "Bootstrap allows at most five filings and ten explicit history files"
  return { given with resources := sortedSet given.resources }

/-- A baseline that a monitor starts from; its own checks are apart. -/
structure MonitorBaseline where
  cutoff : Instant
deriving DecidableEq

/-- `FilingMonitorPlan`. -/
structure FilingMonitorPlan where
  issuerId : Uuid
  cik : List Char
  sourceId : Uuid
  policyRevisionId : Uuid
  inventoryStart : Date
  inventoryEnd : Date
  cutoff : Instant
  forms : List String
  resources : List String
  baseline : MonitorBaseline
  version : String := "sec-filing-monitor-v1"
deriving DecidableEq

/-- The ordinal of the day of an instant in UTC. -/
def utcOrdinal (instant : Instant) : ℤ := instant / 86400000000 + 719163

/-- `FORMS`. -/
def monitorForms : List String := ["10-Q", "10-K", "10-Q/A", "10-K/A"]

/-- `FilingMonitorPlan.__post_init__`. -/
def FilingMonitorPlan.build (given : FilingMonitorPlan) : Except String FilingMonitorPlan := do
  require (given.version = "sec-filing-monitor-v1") "Unsupported monitor contract or baseline"
  require (IsPlanCik given.cik) "Monitor requires a canonical positive CIK"
  require (ShortWindow given.inventoryStart given.inventoryEnd) "Monitor filed window is limited to 730 days"
  require ((given.inventoryStart.toOrdinal : ℤ) ≤ utcOrdinal given.cutoff ∧ utcOrdinal given.cutoff ≤ given.inventoryEnd.toOrdinal)
    "Acceptance cutoff must lie within the pinned filed window"
  require (given.baseline.cutoff ≤ given.cutoff) "Baseline cutoff cannot exceed current cutoff"
  require (given.forms ≠ [] ∧ given.forms ⊆ monitorForms ∧ given.forms.Nodup) "Monitor forms must be unique supported financial forms"
  let root := String.ofList (rootKey .submissions given.cik)
  require (root ∈ given.resources ∧ given.resources.length ≤ 11 ∧ given.resources.Nodup)
    "Monitor requires root and at most ten unique history resources"
  require (∀ key ∈ given.resources, key = root ∨ (historyKeyPattern given.cik).Matches key.toList)
    "Monitor permits exact same-CIK Submissions resources only"
  return { given with forms := sortedSet given.forms, resources := sortedSet given.resources }

end EquityEval.Resources
