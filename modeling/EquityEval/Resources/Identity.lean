import EquityEval.Resources.Grammar

/-!
# The database reads what the program builds

A pair of a URL and an object key is accepted exactly when a resource has them, and plans accept keys of
such resources only.
-/

namespace EquityEval.Resources

open Discovery (mem_sortedSet)
open Normalization
open Relational (bind_eq_ok)
open Text
open Text.Pattern (concat lit many one oneOf plus times)

section

variable {r r' : SecResource} {cik object url : List Char} {kind : ResourceKind}

/-- The second part of an object key is the CIK. -/
theorem splitPart_cik (hcik : ∀ c ∈ r.cik, c.isDigit = true) (h : HasNames r) : splitPart r.objectKey '/' 2 = r.cik := by
  rw [splitPart, pieces_objectKey hcik h]
  rfl

/-- A CIK of ten digits that are not all zeros is not zero. -/
theorem isCik_iff : IsCik cik ↔ (cik.length = 10 ∧ ∀ c ∈ cik, c.isDigit = true) ∧ cik ≠ "0000000000".toList := by
  constructor
  · intro h
    refine ⟨⟨h.length, h.digits⟩, fun hzeros => h.positive ?_⟩
    rw [hzeros]
    decide
  · rintro ⟨⟨hlength, hdigits⟩, hne⟩
    refine ⟨hlength, hdigits, fun hzero => hne ?_⟩
    rw [(digitsNumber_eq_zero hdigits).mp hzero, hlength]
    decide

/-! ### Patterns of object keys -/

/-- A pattern of a word and a part. -/
theorem matches_one_part {word : List Char} {p : Pattern} : (concat [lit word, p]).Matches object ↔ ∃ a, p.Matches a ∧ object = word ++ a := by
  simp only [Pattern.matches_concat_cons, Pattern.matches_concat_nil, Pattern.matches_lit]
  constructor
  · rintro ⟨_, _, rfl, rfl, a, _, rfl, ha, rfl⟩
    exact ⟨a, ha, by rw [List.append_nil]⟩
  · rintro ⟨a, ha, rfl⟩
    exact ⟨word, a, rfl, rfl, a, [], (List.append_nil a).symm, ha, rfl⟩

/-- A pattern of a word and two parts. -/
theorem matches_two_parts {word : List Char} {p q : Pattern} :
    (concat [lit word, p, lit ['/'], q]).Matches object ↔ ∃ a b, p.Matches a ∧ q.Matches b ∧ object = word ++ (a ++ '/' :: b) := by
  simp only [Pattern.matches_concat_cons, Pattern.matches_concat_nil, Pattern.matches_lit]
  constructor
  · rintro ⟨_, _, rfl, rfl, a, _, rfl, ha, _, _, rfl, rfl, b, _, rfl, hb, rfl⟩
    exact ⟨a, b, ha, hb, by simp⟩
  · rintro ⟨a, b, ha, hb, rfl⟩
    exact ⟨word, _, rfl, rfl, a, _, rfl, ha, ['/'], b, rfl, rfl, b, [], (List.append_nil b).symm, hb, rfl⟩

/-- A pattern of a word and three parts. -/
theorem matches_three_parts {word : List Char} {p q s : Pattern} :
    (concat [lit word, p, lit ['/'], q, lit ['/'], s]).Matches object ↔
      ∃ a b c, p.Matches a ∧ q.Matches b ∧ s.Matches c ∧ object = word ++ (a ++ '/' :: (b ++ '/' :: c)) := by
  simp only [Pattern.matches_concat_cons, Pattern.matches_concat_nil, Pattern.matches_lit]
  constructor
  · rintro ⟨_, _, rfl, rfl, a, _, rfl, ha, _, _, rfl, rfl, b, _, rfl, hb, _, _, rfl, rfl, c, _, rfl, hc, rfl⟩
    exact ⟨a, b, c, ha, hb, hc, by simp⟩
  · rintro ⟨a, b, c, ha, hb, hc, rfl⟩
    exact ⟨word, _, rfl, rfl, a, _, rfl, ha, ['/'], _, rfl, rfl, b, _, rfl, hb, ['/'], c, rfl, rfl, c, [], (List.append_nil c).symm, hc, rfl⟩

/-! ### The database -/

/-- The word that a key begins with is its kind and a slash. -/
theorem word_eq : ("company_facts/".toList = ResourceKind.companyFacts.value ++ ['/'] ∧ "submissions/".toList = ResourceKind.submissions.value ++ ['/']) ∧
    "submissions_history/".toList = ResourceKind.submissionsHistory.value ++ ['/'] ∧
    "filing_document/".toList = ResourceKind.filingDocument.value ++ ['/'] := by decide

/-- The object key of a resource without names. -/
theorem objectKey_root (haccession : r.accession = none) (hfilename : r.filename = none) : r.objectKey = r.kind.value ++ ['/'] ++ r.cik := by
  simp [SecResource.objectKey, haccession, hfilename]

/-- The object key of a resource with a file name. -/
theorem objectKey_file {filename : List Char} (hcik : ∀ c ∈ r.cik, c.isDigit = true) (h : HasNames r) (haccession : r.accession = none)
    (hfilename : r.filename = some filename) : r.objectKey = r.kind.value ++ ['/'] ++ (r.cik ++ '/' :: filename) := by
  rw [objectKey_eq hcik h, haccession, hfilename, Option.toList_none, Option.toList_some, List.nil_append, List.intercalate_cons_cons,
    List.intercalate_cons_cons, List.intercalate_singleton, List.append_assoc r.cik]
  rfl

/-- The object key of a resource with an accession and a file name. -/
theorem objectKey_filing {accession filename : List Char} (hcik : ∀ c ∈ r.cik, c.isDigit = true) (h : HasNames r)
    (haccession : r.accession = some accession) (hfilename : r.filename = some filename) :
    r.objectKey = r.kind.value ++ ['/'] ++ (r.cik ++ '/' :: (accession ++ '/' :: filename)) := by
  rw [objectKey_eq hcik h, haccession, hfilename, Option.toList_some, Option.toList_some, List.singleton_append, List.intercalate_cons_cons,
    List.intercalate_cons_cons, List.intercalate_cons_cons, List.intercalate_singleton, List.append_assoc r.cik, List.append_assoc accession]
  rfl

/-- The database reads the object key of a resource with the URL of that resource only. -/
theorem readsKind_objectKey (h : WellFormed r) : ReadsKind url r.objectKey r.kind ↔ r.url = url := by
  have hcik : (times Char.isDigit 10).Matches r.cik := Pattern.matches_times.mpr ⟨h.cik.length, h.cik.digits⟩
  have hsecond := splitPart_cik h.cik.digits h.names
  have hpieces := pieces_objectKey h.cik.digits h.names
  have hnames := h.names
  unfold HasNames at hnames
  unfold ReadsKind SecResource.url
  cases hkind : r.kind <;> rw [hkind] at hnames <;> dsimp only at hnames ⊢ <;> rw [hsecond]
  case companyFacts =>
    rw [matches_one_part, objectKey_root hnames.1 hnames.2, hkind, word_eq.1.1, eq_comm]
    exact and_iff_right ⟨r.cik, hcik, rfl⟩
  case submissions =>
    rw [matches_one_part, objectKey_root hnames.1 hnames.2, hkind, word_eq.1.2, eq_comm]
    exact and_iff_right ⟨r.cik, hcik, rfl⟩
  case submissionsHistory =>
    obtain ⟨haccession, digits, hne, hdigits, hfilename⟩ := hnames
    have hkey := objectKey_file h.cik.digits h.names haccession hfilename
    have hthird : splitPart r.objectKey '/' 3 = "CIK".toList ++ (r.cik ++ ("-submissions-".toList ++ (digits ++ ".json".toList))) := by
      rw [splitPart, hpieces, haccession, hfilename]
      rfl
    rw [hthird, hfilename, Option.getD_some, matches_two_parts, matches_historyPattern, word_eq.2.1]
    rw [hkind] at hkey
    have hlist : (plus Char.isDigit).Matches digits := Pattern.matches_plus.mpr ⟨hne, hdigits⟩
    constructor
    · rintro ⟨-, -, heq⟩
      exact heq.symm
    · intro heq
      refine ⟨⟨r.cik, _, hcik, matches_historyPattern.mpr ⟨r.cik, digits, hcik, hlist, rfl⟩, hkey⟩, ⟨r.cik, digits, ?_, hlist, rfl⟩, heq.symm⟩
      exact Pattern.matches_lit.mpr rfl
  case filingDocument =>
    obtain ⟨accession, filename, haccession, hfilename, hmatches, hdocument, hdots⟩ := hnames
    have hkey := objectKey_filing h.cik.digits h.names haccession hfilename
    have hthird : splitPart r.objectKey '/' 3 = accession := by
      rw [splitPart, hpieces, haccession, hfilename]
      rfl
    have hfourth : splitPart r.objectKey '/' 4 = filename := by
      rw [splitPart, hpieces, haccession, hfilename]
      rfl
    rw [hthird, hfourth, haccession, hfilename, Option.getD_some, Option.getD_some, toDigits_eq_dropWhile h.cik.digits h.cik.positive,
      matches_three_parts, word_eq.2.2]
    rw [hkind] at hkey
    constructor
    · rintro ⟨-, -, heq⟩
      exact heq.symm
    · intro heq
      exact ⟨⟨r.cik, accession, filename, hcik, hmatches, hdocument, hkey⟩, hdots, heq.symm⟩

/-- A key that the database reads is that of a resource, if its CIK is one. -/
theorem exists_of_readsKind (h : ReadsKind url object kind) :
    ∃ r : SecResource, r.kind = kind ∧ (∀ c ∈ r.cik, c.isDigit = true) ∧ HasNames r ∧ r.objectKey = object := by
  unfold ReadsKind at h
  cases kind <;> dsimp only at h
  case companyFacts =>
    obtain ⟨cik, hcik, rfl⟩ := matches_one_part.mp h.1
    refine ⟨⟨0, cik, .companyFacts, none, none⟩, rfl, (Pattern.matches_times.mp hcik).2, ⟨rfl, rfl⟩, ?_⟩
    rw [objectKey_root rfl rfl, word_eq.1.1]
  case submissions =>
    obtain ⟨cik, hcik, rfl⟩ := matches_one_part.mp h.1
    refine ⟨⟨0, cik, .submissions, none, none⟩, rfl, (Pattern.matches_times.mp hcik).2, ⟨rfl, rfl⟩, ?_⟩
    rw [objectKey_root rfl rfl, word_eq.1.2]
  case submissionsHistory =>
    obtain ⟨hobject, hname, -⟩ := h
    obtain ⟨cik, filename, hcik, hfilename, rfl⟩ := matches_two_parts.mp hobject
    have hdigits := (Pattern.matches_times.mp hcik).2
    obtain ⟨cik', number, hcik', hnumber, hfile⟩ := matches_historyPattern.mp hfilename
    have hslash : '/' ∉ filename := by
      rw [hfile]
      exact notMem_history (Pattern.matches_times.mp hcik').2 (Pattern.matches_plus.mp hnumber).2
    have hpieces : pieces '/' ("submissions_history/".toList ++ (cik ++ '/' :: filename)) = [ResourceKind.submissionsHistory.value, cik, filename] := by
      rw [word_eq.2.1, List.append_assoc, List.singleton_append]
      exact pieces_three (by decide) (notMem_digits hdigits) hslash
    rw [splitPart, splitPart, hpieces] at hname
    obtain ⟨given, digits, hgiven, hplus, hown⟩ := matches_historyPattern.mp hname
    obtain ⟨hne, hall⟩ := Pattern.matches_plus.mp hplus
    have hsame : given = cik := Pattern.matches_lit.mp hgiven
    have hnames : HasNames ⟨0, cik, .submissionsHistory, some filename, none⟩ := ⟨rfl, digits, hne, hall, congrArg some (hsame ▸ hown)⟩
    refine ⟨⟨0, cik, .submissionsHistory, some filename, none⟩, rfl, hdigits, hnames, ?_⟩
    rw [objectKey_file hdigits hnames rfl rfl, word_eq.2.1]
  case filingDocument =>
    obtain ⟨hobject, hdots, -⟩ := h
    obtain ⟨cik, accession, filename, hcik, haccession, hfilename, rfl⟩ := matches_three_parts.mp hobject
    have hdigits := (Pattern.matches_times.mp hcik).2
    have hpieces : pieces '/' ("filing_document/".toList ++ (cik ++ '/' :: (accession ++ '/' :: filename))) =
        [ResourceKind.filingDocument.value, cik, accession, filename] := by
      rw [word_eq.2.2, List.append_assoc, List.singleton_append, pieces_append (by decide)]
      exact congrArg _ (pieces_three (notMem_digits hdigits) (notMem_accession haccession).1 (notMem_document hfilename).1)
    rw [splitPart, hpieces] at hdots
    have hnames : HasNames ⟨0, cik, .filingDocument, some filename, some accession⟩ :=
      ⟨accession, filename, rfl, rfl, haccession, hfilename, hdots⟩
    refine ⟨⟨0, cik, .filingDocument, some filename, some accession⟩, rfl, hdigits, hnames, ?_⟩
    rw [objectKey_filing hdigits hnames rfl rfl, word_eq.2.2]

/-- The database accepts the URLs and object keys of the resources that the program builds. -/
theorem marketSecResource_iff {tables : Registry} {source policy : Workflow.Uuid} :
    marketSecResource tables source policy url object ↔
      tables.SecOrigin source policy ∧ ∃ r, Built r ∧ r.url = url ∧ r.objectKey = object := by
  have hread : ReadsKind url object .companyFacts ∨ ReadsKind url object .submissions ∨ ReadsKind url object .submissionsHistory ∨
      ReadsKind url object .filingDocument ↔ ∃ kind, ReadsKind url object kind := by
    constructor
    · rintro (h | h | h | h) <;> exact ⟨_, h⟩
    · rintro ⟨kind, h⟩
      cases kind <;> simp [h]
  rw [marketSecResource, hread]
  apply and_congr_right
  intro _
  constructor
  · rintro ⟨hdigits, hne, kind, h⟩
    obtain ⟨r, rfl, hcik, hnames, rfl⟩ := exists_of_readsKind h
    rw [splitPart_cik hcik hnames] at hdigits hne
    have hwell : WellFormed r := ⟨isCik_iff.mpr ⟨Pattern.matches_times.mp hdigits, hne⟩, hnames⟩
    exact ⟨r, built_iff.mpr hwell, (readsKind_objectKey hwell).mp h, rfl⟩
  · rintro ⟨r, hbuilt, rfl, rfl⟩
    have hwell := built_iff.mp hbuilt
    obtain ⟨hdigits, hne⟩ := isCik_iff.mp hwell.cik
    rw [splitPart_cik hwell.cik.digits hwell.names]
    exact ⟨Pattern.matches_times.mpr hdigits, hne, r.kind, (readsKind_objectKey hwell).mpr rfl⟩

/-! ### Plans -/

/-- The keys of a plan are those of resources of its CIK. -/
def KeysOf (cik : List Char) (resources : List String) : Prop :=
  ∀ key ∈ resources, ∃ r, Built r ∧ r.cik = cik ∧ r.objectKey = key.toList

/-- The CIK of a plan is one. -/
theorem isCik_of_isPlanCik (h : IsPlanCik cik) : IsCik cik := by
  obtain ⟨hmatches, hpositive⟩ := h
  obtain ⟨hlength, hdigits⟩ := Pattern.matches_times.mp hmatches
  exact ⟨hlength, hdigits, hpositive⟩

/-- The root of a list of facts or of submissions is the key of a resource. -/
theorem built_root (hcik : IsCik cik) (hkind : kind = .companyFacts ∨ kind = .submissions) :
    ∃ r, Built r ∧ r.cik = cik ∧ r.objectKey = rootKey kind cik := by
  have hnames : HasNames ⟨0, cik, kind, none, none⟩ := by rcases hkind with rfl | rfl <;> exact ⟨rfl, rfl⟩
  refine ⟨⟨0, cik, kind, none, none⟩, built_iff.mpr ⟨hcik, hnames⟩, rfl, ?_⟩
  rw [objectKey_root rfl rfl, List.append_assoc]
  rfl

/-- A key of history that a plan accepts is the key of a resource. -/
theorem built_history (hcik : IsCik cik) (h : (historyKeyPattern cik).Matches object) :
    ∃ r, Built r ∧ r.cik = cik ∧ r.objectKey = object := by
  obtain ⟨a, filename, ha, hfilename, rfl⟩ := matches_two_parts.mp h
  obtain ⟨b, digits, hb, hdigits, hfile⟩ := matches_historyPattern.mp hfilename
  rw [Pattern.matches_lit.mp ha]
  rw [Pattern.matches_lit.mp hb] at hfile
  obtain ⟨hlength, hall⟩ := Pattern.matches_times.mp hdigits
  have hne : digits ≠ [] := by
    rintro rfl
    cases hlength
  have hnames : HasNames ⟨0, cik, .submissionsHistory, some filename, none⟩ := ⟨rfl, digits, hne, hall, congrArg some hfile⟩
  refine ⟨⟨0, cik, .submissionsHistory, some filename, none⟩, built_iff.mpr ⟨hcik, hnames⟩, rfl, ?_⟩
  rw [objectKey_file hcik.digits hnames rfl rfl, word_eq.2.1]

/-- A key of a filing that a plan accepts is the key of a resource. -/
theorem built_filing {key : String} (hcik : IsCik cik) (h : IsFilingKey cik key) : ∃ r, Built r ∧ r.cik = cik ∧ r.objectKey = key.toList := by
  obtain ⟨hmatches, hdots⟩ := h
  obtain ⟨a, accession, filename, ha, haccession, hfilename, heq⟩ := matches_three_parts.mp hmatches
  rw [Pattern.matches_lit.mp ha] at heq
  rw [heq] at hdots ⊢
  have hname : ¬ HasDots filename := fun hdotted => hdots (hdotted.trans
    ⟨"filing_document/".toList ++ (cik ++ '/' :: (accession ++ ['/'])), [], by simp only [List.append_assoc, List.cons_append, List.nil_append, List.append_nil]⟩)
  have hnames : HasNames ⟨0, cik, .filingDocument, some filename, some accession⟩ :=
    ⟨accession, filename, rfl, rfl, haccession, hfilename, hname⟩
  refine ⟨⟨0, cik, .filingDocument, some filename, some accession⟩, built_iff.mpr ⟨hcik, hnames⟩, rfl, ?_⟩
  rw [objectKey_filing hcik.digits hnames rfl rfl, word_eq.2.2]

/-- The resources of a bootstrap are those of its CIK. -/
theorem BootstrapPlan.keysOf {given plan : BootstrapPlan} (h : BootstrapPlan.build given = .ok plan) : KeysOf plan.cik plan.resources := by
  simp only [BootstrapPlan.build, require_bind_eq_ok, pure, Except.pure, Except.ok.injEq] at h
  obtain ⟨-, hplan, -, -, hoptional, -, rfl⟩ := h
  have hcik := isCik_of_isPlanCik hplan
  intro key hkey
  rw [mem_sortedSet] at hkey
  by_cases hrequired : key ∈ bootstrapRequired given.cik
  · simp only [bootstrapRequired, List.mem_cons, List.not_mem_nil, or_false] at hrequired
    rcases hrequired with rfl | rfl <;> rw [String.toList_ofList]
    · exact built_root hcik (.inl rfl)
    · exact built_root hcik (.inr rfl)
  · rcases hoptional key (List.mem_filter.mpr ⟨hkey, decide_eq_true hrequired⟩) with hfiling | hhistory
    · exact built_filing hcik hfiling
    · exact built_history hcik hhistory

/-- The resources of a monitor are those of its CIK. -/
theorem FilingMonitorPlan.keysOf {given plan : FilingMonitorPlan} (h : FilingMonitorPlan.build given = .ok plan) :
    KeysOf plan.cik plan.resources := by
  simp only [FilingMonitorPlan.build, require_bind_eq_ok, pure, Except.pure, Except.ok.injEq] at h
  obtain ⟨-, hplan, -, -, -, -, -, hkeys, rfl⟩ := h
  have hcik := isCik_of_isPlanCik hplan
  intro key hkey
  rw [mem_sortedSet] at hkey
  rcases hkeys key hkey with rfl | hhistory
  · rw [String.toList_ofList]
    exact built_root hcik (.inr rfl)
  · exact built_history hcik hhistory

/-! ### One grammar -/

/-- The database accepts the resources that the program builds and no others; different resources have
different object keys, a URL determines the object key, and plans accept keys of resources only. -/
theorem resource_identity :
    (∀ (tables : Registry) (source policy : Workflow.Uuid), tables.SecOrigin source policy → ∀ url object,
      (marketSecResource tables source policy url object ↔ ∃ r, Built r ∧ r.url = url ∧ r.objectKey = object)) ∧
    (∀ r r', Built r → Built r' → r.objectKey = r'.objectKey →
      (r.cik, r.kind, r.accession, r.filename) = (r'.cik, r'.kind, r'.accession, r'.filename)) ∧
    (∀ r r', Built r → Built r' → r.url = r'.url → r.objectKey = r'.objectKey) ∧
    (∀ given plan, BootstrapPlan.build given = .ok plan → KeysOf plan.cik plan.resources) ∧
    (∀ given plan, FilingMonitorPlan.build given = .ok plan → KeysOf plan.cik plan.resources) := by
  refine ⟨fun tables source policy horigin url object => ?_, fun r r' hr hr' hkey => ?_, fun r r' hr hr' hurl => ?_,
    fun given plan => BootstrapPlan.keysOf, fun given plan => FilingMonitorPlan.keysOf⟩
  · rw [marketSecResource_iff]
    exact and_iff_right horigin
  · obtain ⟨hcik, hkind, haccession, hfilename⟩ := eq_of_objectKey (built_iff.mp hr) (built_iff.mp hr') hkey
    rw [hcik, hkind, haccession, hfilename]
  · obtain ⟨hcik, hkind, haccession, hfilename⟩ := eq_of_url (built_iff.mp hr) (built_iff.mp hr') hurl
    rw [SecResource.objectKey, SecResource.objectKey, hcik, hkind, haccession, hfilename]

end

/-- A registry with a source of the SEC. -/
def sampleRegistry : Registry := ⟨[⟨1, "https://www.sec.gov".toList⟩], [⟨2, 1⟩]⟩

/-- A filing of a company. -/
def sampleFiling : SecResource :=
  ⟨9, "0000000042".toList, .filingDocument, some "a1.htm".toList, some "0000000042-24-000123".toList⟩

/-- A monitor of the company. -/
def sampleMonitor : FilingMonitorPlan where
  issuerId := 9
  cik := "0000000042".toList
  sourceId := 1
  policyRevisionId := 2
  inventoryStart := ⟨2024, 1, 1, Gregorian.Date.inYears_2024, Gregorian.Date.inMonths_1, Gregorian.Date.inDays_2024_1_1⟩
  inventoryEnd := ⟨2024, 12, 31, Gregorian.Date.inYears_2024, Gregorian.Date.inMonths_12, Gregorian.Date.inDays_2024_12_31⟩
  cutoff := 1719792000000000
  forms := ["10-K"]
  resources := ["submissions/0000000042"]
  baseline := ⟨0⟩

/-- The filing is accepted without the zeros and the dashes of its key, and the resources of the monitor are those of its company. -/
theorem resource_identity_sample :
    marketSecResource sampleRegistry 1 2 "https://www.sec.gov/Archives/edgar/data/42/000000004224000123/a1.htm".toList
        "filing_document/0000000042/0000000042-24-000123/a1.htm".toList ∧
      ∃ plan, FilingMonitorPlan.build sampleMonitor = .ok plan ∧ KeysOf plan.cik plan.resources := by
  obtain ⟨haccepts, -, -, -, hmonitor⟩ := resource_identity
  constructor
  · have hwell : WellFormed sampleFiling :=
      ⟨isCik_iff.mpr ⟨⟨rfl, List.all_eq_true.mp rfl⟩, by decide +kernel⟩, _, _, rfl, rfl, by decide +kernel, by decide +kernel, by decide +kernel⟩
    exact (haccepts sampleRegistry 1 2 (by decide +kernel) _ _).mpr ⟨sampleFiling, built_iff.mpr hwell, by decide +kernel, by decide +kernel⟩
  · have hbuilt : ∃ plan, FilingMonitorPlan.build sampleMonitor = .ok plan := by
      simp only [FilingMonitorPlan.build, require_bind_eq_ok]
      exact ⟨_, rfl, ⟨by decide +kernel, by decide +kernel⟩, by decide +kernel, by decide +kernel, by decide +kernel, by decide +kernel, by decide +kernel, by decide +kernel, rfl⟩
    obtain ⟨plan, hplan⟩ := hbuilt
    exact ⟨plan, hplan, hmonitor sampleMonitor plan hplan⟩

end EquityEval.Resources
