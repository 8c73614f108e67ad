import EquityEval.Normalization.Digits
import EquityEval.Resources.Sec

/-!
# One grammar of SEC resources

The resources that the program builds are those that the database reads: each has one shape, its parts are
read back from its object key and from its URL, and the patterns of plans accept keys of such resources only.
-/

namespace EquityEval.Resources

open Gregorian Workflow
open Discovery (mem_sortedSet)
open Normalization
open Relational (bind_eq_ok orRaise orRaise_eq_ok)
open Text
open Text.Pattern (concat lit many one oneOf plus times)

/-! ### Shapes -/

/-- A CIK of ten digits that is not zero. -/
structure IsCik (cik : List Char) : Prop where
  length : cik.length = 10
  digits : ∀ c ∈ cik, c.isDigit = true
  positive : digitsNumber cik ≠ 0

/-- What a resource has beside its CIK. -/
def HasNames (r : SecResource) : Prop :=
  match r.kind with
  | .submissionsHistory => r.accession = none ∧ ∃ digits, digits ≠ [] ∧ (∀ c ∈ digits, c.isDigit = true) ∧
      r.filename = some ("CIK".toList ++ (r.cik ++ ("-submissions-".toList ++ (digits ++ ".json".toList))))
  | .filingDocument => ∃ accession filename, r.accession = some accession ∧ r.filename = some filename ∧
      accessionPattern.Matches accession ∧ documentPattern.Matches filename ∧ ¬ HasDots filename
  | _ => r.accession = none ∧ r.filename = none

/-- A resource of the shape that the program builds. -/
structure WellFormed (r : SecResource) : Prop where
  cik : IsCik r.cik
  names : HasNames r

/-- The program builds the resource. -/
def Built (r : SecResource) : Prop := ∃ cik, SecResource.build r.issuerId cik r.kind r.filename r.accession = .ok r

section

variable {r r' : SecResource} {cik object url : List Char}

/-! ### What is built -/

/-- A CIK that was read has ten digits and is not zero. -/
theorem isCik_of_canonicalCik {value : SourceValue} {text : String} (h : canonicalCik value = some text) : IsCik text.toList := by
  unfold canonicalCik at h
  split at h
  case h_1 n =>
    simp only [Option.ite_none_right_eq_some, Option.some.injEq] at h
    obtain ⟨⟨-, -, hpositive, hlt⟩, rfl⟩ := h
    obtain ⟨hlength, hdigits, hnumber⟩ := padded_digits 10 _ (by decide) hlt
    exact ⟨hlength, hdigits, by rw [hnumber]; exact hpositive.ne'⟩
  case h_2 given =>
    simp only [Option.ite_none_right_eq_some, Option.some.injEq] at h
    obtain ⟨⟨-, hlength, hdigits, hpositive⟩, rfl⟩ := h
    rw [String.toList_ofList]
    refine ⟨?_, fun c hc => ?_, ?_⟩
    · rw [List.length_append, List.length_replicate]
      omega
    · rcases List.mem_append.mp hc with hzero | hdigit
      · rw [List.eq_of_mem_replicate hzero]
        rfl
      · exact List.all_eq_true.mp hdigits c hdigit
    · rw [digitsNumber, Nat.ofDigitChars_append, Nat.ofDigitChars_replicate_zero, Nat.mul_zero]
      exact hpositive.ne'
  case h_3 => cases h

/-- A CIK of ten digits is read as it is. -/
theorem canonicalCik_of_isCik (h : IsCik cik) : canonicalCik (.scalar (.text (String.ofList cik))) = some (String.ofList cik) := by
  obtain ⟨hlength, hdigits, hpositive⟩ := h
  have hpos : 0 < digitsNumber cik := Nat.pos_of_ne_zero hpositive
  have hall : cik.all Char.isDigit = true := List.all_eq_true.mpr hdigits
  simp [canonicalCik, hlength, hall, hpos]

/-- The name of a file of history has a CIK and digits. -/
theorem matches_historyPattern {cikPattern digitsPattern : Pattern} {name : List Char} :
    (historyPattern cikPattern digitsPattern).Matches name ↔
      ∃ cik digits, cikPattern.Matches cik ∧ digitsPattern.Matches digits ∧
        name = "CIK".toList ++ (cik ++ ("-submissions-".toList ++ (digits ++ ".json".toList))) := by
  simp only [historyPattern, Pattern.matches_concat_cons, Pattern.matches_concat_nil, Pattern.matches_lit]
  constructor
  · rintro ⟨_, _, rfl, rfl, cik, _, rfl, hcik, _, _, rfl, rfl, digits, _, rfl, hdigits, _, _, rfl, rfl, rfl⟩
    exact ⟨cik, digits, hcik, hdigits, by rw [List.append_nil]⟩
  · rintro ⟨cik, digits, hcik, hdigits, rfl⟩
    exact ⟨_, _, rfl, rfl, cik, _, rfl, hcik, _, _, rfl, rfl, digits, _, rfl, hdigits, _, _, (List.append_nil _).symm, rfl, rfl⟩

/-- The names of a resource pass the checks of its kind exactly when it has the shape of its kind. -/
theorem checkNames_eq_ok {u : Unit} : SecResource.checkNames r.cik r.kind r.filename r.accession = .ok u ↔ HasNames r := by
  unfold SecResource.checkNames HasNames
  cases r.kind with
  | companyFacts | submissions =>
    rw [require_eq_ok]
    exact and_comm
  | submissionsHistory =>
    simp only [require_bind_eq_ok, require_eq_ok, matches_historyPattern, Pattern.matches_lit, Pattern.matches_plus]
    constructor
    · rintro ⟨⟨name, hname, _, digits, rfl, ⟨hne, hdigits⟩, rfl⟩, hnone⟩
      exact ⟨hnone, digits, hne, hdigits, hname⟩
    · rintro ⟨hnone, digits, hne, hdigits, hname⟩
      exact ⟨⟨_, hname, _, digits, rfl, ⟨hne, hdigits⟩, rfl⟩, hnone⟩
  | filingDocument =>
    simp only [require_bind_eq_ok, require_eq_ok]
    constructor
    · rintro ⟨⟨accession, haccession, hnumber⟩, ⟨filename, hfilename, hdocument⟩, hdots⟩
      exact ⟨accession, filename, haccession, hfilename, hnumber, hdocument, hdots filename hfilename⟩
    · rintro ⟨accession, filename, haccession, hfilename, hnumber, hdocument, hdots⟩
      refine ⟨⟨accession, haccession, hnumber⟩, ⟨filename, hfilename, hdocument⟩, fun name hname => ?_⟩
      rw [Option.mem_unique hname hfilename]
      exact hdots

/-- The program builds the resources of the shape of their kind. -/
theorem built_iff : Built r ↔ WellFormed r := by
  constructor
  · rintro ⟨value, h⟩
    obtain ⟨text, htext, h⟩ := bind_eq_ok.mp h
    obtain ⟨u, hnames, h⟩ := bind_eq_ok.mp h
    obtain ⟨issuerId, cik, kind, filename, accession⟩ := r
    cases h
    exact ⟨isCik_of_canonicalCik (orRaise_eq_ok.mp htext), checkNames_eq_ok.mp hnames⟩
  · rintro ⟨hcik, hnames⟩
    refine ⟨.scalar (.text (String.ofList r.cik)), bind_eq_ok.mpr ⟨_, orRaise_eq_ok.mpr (canonicalCik_of_isCik hcik), ?_⟩⟩
    rw [String.toList_ofList]
    exact bind_eq_ok.mpr ⟨(), checkNames_eq_ok.mpr hnames, rfl⟩

/-! ### Object keys -/

/-- The accession of a filing is three numbers with dashes between them. -/
theorem matches_accessionPattern {text : List Char} :
    accessionPattern.Matches text ↔ ∃ a b c, (a.length = 10 ∧ ∀ x ∈ a, x.isDigit = true) ∧ (b.length = 2 ∧ ∀ x ∈ b, x.isDigit = true) ∧
      (c.length = 6 ∧ ∀ x ∈ c, x.isDigit = true) ∧ text = a ++ '-' :: (b ++ '-' :: c) := by
  simp only [accessionPattern, Pattern.matches_concat_cons, Pattern.matches_concat_nil, Pattern.matches_lit, Pattern.matches_times]
  constructor
  · rintro ⟨a, _, rfl, ha, _, _, rfl, rfl, b, _, rfl, hb, _, _, rfl, rfl, c, _, rfl, hc, rfl⟩
    exact ⟨a, b, c, ha, hb, hc, by simp⟩
  · rintro ⟨a, b, c, ha, hb, hc, rfl⟩
    exact ⟨a, _, rfl, ha, ['-'], _, rfl, rfl, b, _, rfl, hb, ['-'], _, rfl, rfl, c, _, (List.append_nil _).symm, hc, rfl⟩

/-- The characters of an accession are no slashes. -/
theorem notMem_accession {text : List Char} (h : accessionPattern.Matches text) : '/' ∉ text ∧ text ≠ [] := by
  obtain ⟨a, b, c, ⟨-, ha⟩, ⟨-, hb⟩, ⟨-, hc⟩, rfl⟩ := matches_accessionPattern.mp h
  refine ⟨fun hmem => ?_, by simp⟩
  simp only [List.mem_append, List.mem_cons] at hmem
  rcases hmem with hmem | hmem | hmem | hmem | hmem
  · exact absurd (ha _ hmem) (by decide)
  · exact absurd hmem (by decide)
  · exact absurd (hb _ hmem) (by decide)
  · exact absurd hmem (by decide)
  · exact absurd (hc _ hmem) (by decide)

/-- The characters of the name of a document are no slashes. -/
theorem notMem_document {text : List Char} (h : documentPattern.Matches text) : '/' ∉ text ∧ text ≠ [] := by
  simp only [documentPattern, Pattern.matches_concat_cons, Pattern.matches_concat_nil, Pattern.matches_one, Pattern.matches_many,
    Pattern.matches_lit, Pattern.matches_oneOf] at h
  obtain ⟨_, _, rfl, ⟨c, rfl, hc⟩, rest, _, rfl, hrest, _, _, rfl, rfl, extension, _, rfl, hextension, rfl⟩ := h
  have hslash : ∀ word ∈ ["htm".toList, "html".toList, "xml".toList, "txt".toList, "xsd".toList], '/' ∉ word := by decide
  refine ⟨fun hmem => ?_, by simp⟩
  simp only [List.mem_append, List.mem_cons, List.not_mem_nil, or_false] at hmem
  rcases hmem with hmem | hmem | hmem | hmem
  · rw [← hmem] at hc
    exact absurd hc (by decide)
  · exact absurd (hrest _ hmem) (by decide)
  · exact absurd hmem (by decide)
  · exact hslash extension hextension hmem

/-- The characters of a number are no slashes. -/
theorem notMem_digits {digits : List Char} (h : ∀ c ∈ digits, c.isDigit = true) : '/' ∉ digits :=
  fun hmem => absurd (h _ hmem) (by decide)

/-- The characters of the name of a file of history are no slashes. -/
theorem notMem_history {digits : List Char} (hcik : ∀ c ∈ cik, c.isDigit = true) (hdigits : ∀ c ∈ digits, c.isDigit = true) :
    '/' ∉ "CIK".toList ++ (cik ++ ("-submissions-".toList ++ (digits ++ ".json".toList))) := by
  have hword : '/' ∉ "CIK".toList ∧ '/' ∉ "-submissions-".toList ∧ '/' ∉ ".json".toList := by decide
  simp only [List.mem_append, not_or]
  exact ⟨hword.1, notMem_digits hcik, hword.2.1, notMem_digits hdigits, hword.2.2⟩

/-- The names of a resource have no slashes and are not empty. -/
theorem names_of_hasNames (hcik : ∀ c ∈ r.cik, c.isDigit = true) (h : HasNames r) : ∀ name ∈ r.accession.toList ++ r.filename.toList, '/' ∉ name ∧ name ≠ [] := by
  unfold HasNames at h
  split at h
  case h_1 =>
    obtain ⟨haccession, digits, -, hdigits, hfilename⟩ := h
    rw [haccession, hfilename]
    simp only [Option.toList_none, Option.toList_some, List.nil_append, List.mem_singleton, forall_eq]
    exact ⟨notMem_history hcik hdigits, by simp⟩
  case h_2 =>
    obtain ⟨accession, filename, haccession, hfilename, hnumber, hdocument, -⟩ := h
    rw [haccession, hfilename]
    simp only [Option.toList_some, List.singleton_append, List.forall_mem_cons, List.not_mem_nil, false_implies, implies_true, and_true]
    exact ⟨notMem_accession hnumber, notMem_document hdocument⟩
  case h_3 =>
    rw [h.1, h.2]
    simp

/-- An object key is the kind, the CIK and the names of a resource with slashes between them. -/
theorem objectKey_eq (hcik : ∀ c ∈ r.cik, c.isDigit = true) (h : HasNames r) :
    r.objectKey = ['/'].intercalate (r.kind.value :: r.cik :: (r.accession.toList ++ r.filename.toList)) := by
  have hnames : (r.accession.toList ++ r.filename.toList).filter (· ≠ []) = r.accession.toList ++ r.filename.toList := by
    rw [List.filter_eq_self]
    exact fun name hname => decide_eq_true (names_of_hasNames hcik h name hname).2
  unfold SecResource.objectKey
  rw [hnames]
  cases hlist : r.accession.toList ++ r.filename.toList with
  | nil => simp [List.intercalate]
  | cons name names =>
    have hne : ['/'].intercalate (name :: names) ≠ [] := by
      obtain ⟨-, hname⟩ := names_of_hasNames hcik h name (by rw [hlist]; exact List.mem_cons_self)
      cases names with
      | nil => rwa [List.intercalate_singleton]
      | cons next names => rw [List.intercalate_cons_cons]; simp
    dsimp only
    rw [if_pos hne, List.intercalate_cons_cons, List.intercalate_cons_cons, List.append_assoc, List.append_assoc]
    rfl

/-- The pieces of an object key are the kind, the CIK and the names of the resource. -/
theorem pieces_objectKey (hcik : ∀ c ∈ r.cik, c.isDigit = true) (h : HasNames r) :
    pieces '/' r.objectKey = r.kind.value :: r.cik :: (r.accession.toList ++ r.filename.toList) := by
  rw [objectKey_eq hcik h]
  apply pieces_intercalate (List.cons_ne_nil _ _)
  have hkind : '/' ∉ r.kind.value := by cases r.kind <;> decide
  exact List.forall_mem_cons.mpr ⟨hkind, List.forall_mem_cons.mpr ⟨notMem_digits hcik, fun name hname => (names_of_hasNames hcik h name hname).1⟩⟩

/-- Resources with one object key are of one kind and CIK and have the same names. -/
theorem eq_of_objectKey (h : WellFormed r) (h' : WellFormed r') (hkey : r.objectKey = r'.objectKey) :
    r.cik = r'.cik ∧ r.kind = r'.kind ∧ r.accession = r'.accession ∧ r.filename = r'.filename := by
  have hpieces := congrArg (pieces '/') hkey
  rw [pieces_objectKey h.cik.digits h.names, pieces_objectKey h'.cik.digits h'.names] at hpieces
  obtain ⟨hvalue, hpieces⟩ := List.cons.inj hpieces
  obtain ⟨hcik, hnames⟩ := List.cons.inj hpieces
  have hkind : r.kind = r'.kind := by
    cases hr : r.kind <;> cases hr' : r'.kind <;> rw [hr, hr'] at hvalue <;> first | rfl | exact absurd hvalue (by decide)
  have hhas := h.names
  have hhas' := h'.names
  unfold HasNames at hhas hhas'
  rw [← hkind] at hhas'
  refine ⟨hcik, hkind, ?_⟩
  cases hr : r.kind <;> rw [hr] at hhas hhas'
  · exact ⟨hhas.1.trans hhas'.1.symm, hhas.2.trans hhas'.2.symm⟩
  · exact ⟨hhas.1.trans hhas'.1.symm, hhas.2.trans hhas'.2.symm⟩
  · obtain ⟨haccession, digits, -, -, hfilename⟩ := hhas
    obtain ⟨haccession', digits', -, -, hfilename'⟩ := hhas'
    rw [haccession, haccession', hfilename, hfilename'] at hnames
    exact ⟨haccession.trans haccession'.symm, by rw [hfilename, hfilename', (List.cons.inj hnames).1]⟩
  · obtain ⟨accession, filename, haccession, hfilename, -⟩ := hhas
    obtain ⟨accession', filename', haccession', hfilename', -⟩ := hhas'
    rw [haccession, haccession', hfilename, hfilename'] at hnames
    obtain ⟨hfirst, hrest⟩ := List.cons.inj hnames
    exact ⟨by rw [haccession, haccession', hfirst], by rw [hfilename, hfilename', (List.cons.inj hrest).1]⟩

/-! ### URLs -/

/-- The pieces of the URL of a resource. -/
def urlPieces (r : SecResource) : List (List Char) :=
  match r.kind with
  | .companyFacts => ["https:".toList, [], "data.sec.gov".toList, "api".toList, "xbrl".toList, "companyfacts".toList, "CIK".toList ++ (r.cik ++ ".json".toList)]
  | .submissions => ["https:".toList, [], "data.sec.gov".toList, "submissions".toList, "CIK".toList ++ (r.cik ++ ".json".toList)]
  | .submissionsHistory => ["https:".toList, [], "data.sec.gov".toList, "submissions".toList, r.filename.getD []]
  | .filingDocument => ["https:".toList, [], "www.sec.gov".toList, "Archives".toList, "edgar".toList, "data".toList,
      Nat.toDigits 10 (digitsNumber r.cik), withoutDashes (r.accession.getD []), r.filename.getD []]

/-- A URL is its pieces with slashes between them. -/
theorem url_eq (r : SecResource) : r.url = ['/'].intercalate (urlPieces r) := by
  unfold SecResource.url urlPieces
  cases r.kind <;> simp [List.intercalate_cons_cons, List.intercalate_singleton]

/-- The pieces of a URL have no slashes. -/
theorem notMem_urlPieces (h : WellFormed r) : ∀ piece ∈ urlPieces r, '/' ∉ piece := by
  have hnames := names_of_hasNames h.cik.digits h.names
  have hcik := notMem_digits h.cik.digits
  have hlast : '/' ∉ "CIK".toList ++ (r.cik ++ ".json".toList) := by
    have hword : '/' ∉ "CIK".toList ∧ '/' ∉ ".json".toList := by decide
    simp only [List.mem_append, not_or]
    exact ⟨hword.1, hcik, hword.2⟩
  have hfilename : '/' ∉ r.filename.getD [] := by
    cases hr : r.filename with
    | none => exact List.not_mem_nil
    | some filename => exact (hnames filename (by simp [hr])).1
  have haccession : '/' ∉ withoutDashes (r.accession.getD []) := by
    cases hr : r.accession with
    | none => exact List.not_mem_nil
    | some accession => exact fun hmem => (hnames accession (by simp [hr])).1 (List.mem_filter.mp hmem).1
  have hnumber : '/' ∉ Nat.toDigits 10 (digitsNumber r.cik) :=
    notMem_digits fun c hc => Nat.isDigit_of_mem_toDigits (by decide) (by decide) hc
  have hwords : ∀ word ∈ ["https:".toList, [], "data.sec.gov".toList, "api".toList, "xbrl".toList, "companyfacts".toList,
      "submissions".toList, "www.sec.gov".toList, "Archives".toList, "edgar".toList, "data".toList], '/' ∉ word := by decide
  simp only [List.forall_mem_cons] at hwords
  obtain ⟨hscheme, -, hdata, hapi, hxbrl, hfacts, hsubmissions, hwww, harchives, hedgar, hpath, -⟩ := hwords
  unfold urlPieces
  cases r.kind <;>
    simp only [List.forall_mem_cons, List.not_mem_nil, false_implies, implies_true, and_true] <;>
    refine ⟨hscheme, id, ?_⟩
  · exact ⟨hdata, hapi, hxbrl, hfacts, hlast⟩
  · exact ⟨hdata, hsubmissions, hlast⟩
  · exact ⟨hdata, hsubmissions, hfilename⟩
  · exact ⟨hwww, harchives, hedgar, hpath, hnumber, haccession, hfilename⟩

/-- The accession of a filing is determined by its digits. -/
theorem eq_of_withoutDashes {a b : List Char} (ha : accessionPattern.Matches a) (hb : accessionPattern.Matches b)
    (h : withoutDashes a = withoutDashes b) : a = b := by
  have hdigits : ∀ {digits : List Char}, (∀ c ∈ digits, c.isDigit = true) → digits.filter (· ≠ '-') = digits := by
    intro digits hall
    rw [List.filter_eq_self]
    intro c hc
    exact decide_eq_true fun heq => absurd (heq ▸ hall c hc) (by decide)
  have hjoined : ∀ {x y z : List Char}, (∀ c ∈ x, c.isDigit = true) → (∀ c ∈ y, c.isDigit = true) → (∀ c ∈ z, c.isDigit = true) →
      withoutDashes (x ++ '-' :: (y ++ '-' :: z)) = x ++ (y ++ z) := by
    intro x y z hx hy hz
    rw [withoutDashes, List.filter_append, List.filter_cons_of_neg (by decide), List.filter_append, List.filter_cons_of_neg (by decide),
      hdigits hx, hdigits hy, hdigits hz]
  obtain ⟨x, y, z, ⟨hlx, hx⟩, ⟨hly, hy⟩, ⟨-, hz⟩, rfl⟩ := matches_accessionPattern.mp ha
  obtain ⟨x', y', z', ⟨hlx', hx'⟩, ⟨hly', hy'⟩, ⟨-, hz'⟩, rfl⟩ := matches_accessionPattern.mp hb
  rw [hjoined hx hy hz, hjoined hx' hy' hz'] at h
  obtain ⟨rfl, hrest⟩ := List.append_inj h (hlx.trans hlx'.symm)
  obtain ⟨rfl, rfl⟩ := List.append_inj hrest (hly.trans hly'.symm)
  rfl

/-- The last piece of the URL of a list of submissions has a CIK of ten digits before a dot. -/
theorem cik_of_last {cik' rest rest' : List Char} (hlength : cik.length = cik'.length)
    (h : "CIK".toList ++ (cik ++ rest) = "CIK".toList ++ (cik' ++ rest')) : cik = cik' ∧ rest = rest' :=
  List.append_inj (List.append_cancel_left h) hlength

/-- Resources with one URL are the same but for their issuer. -/
theorem eq_of_url (h : WellFormed r) (h' : WellFormed r') (hurl : r.url = r'.url) :
    r.cik = r'.cik ∧ r.kind = r'.kind ∧ r.accession = r'.accession ∧ r.filename = r'.filename := by
  have hpieces : urlPieces r = urlPieces r' := by
    have hboth := congrArg (pieces '/') hurl
    rw [url_eq, url_eq, pieces_intercalate ?_ (notMem_urlPieces h), pieces_intercalate ?_ (notMem_urlPieces h')] at hboth
    · exact hboth
    · unfold urlPieces
      cases r'.kind <;> exact List.cons_ne_nil _ _
    · unfold urlPieces
      cases r.kind <;> exact List.cons_ne_nil _ _
  have hlength : r.cik.length = r'.cik.length := h.cik.length.trans h'.cik.length.symm
  have hhas := h.names
  have hhas' := h'.names
  unfold HasNames at hhas hhas'
  unfold urlPieces at hpieces
  -- the literal pieces of the kinds differ, but for the two lists of submissions
  cases hr : r.kind <;> cases hr' : r'.kind <;> rw [hr] at hhas hpieces <;> rw [hr'] at hhas' hpieces <;>
    simp only [List.cons.injEq, and_true, true_and] at hpieces <;>
    try exact absurd hpieces.1 (by decide)
  case companyFacts.companyFacts | submissions.submissions =>
    exact ⟨(cik_of_last hlength hpieces).1, rfl, hhas.1.trans hhas'.1.symm, hhas.2.trans hhas'.2.symm⟩
  case submissions.submissionsHistory =>
    obtain ⟨-, digits, -, -, hfilename⟩ := hhas'
    rw [hfilename, Option.getD_some] at hpieces
    exact absurd (List.cons.inj (cik_of_last hlength hpieces).2).1 (by decide)
  case submissionsHistory.submissions =>
    obtain ⟨-, digits, -, -, hfilename⟩ := hhas
    rw [hfilename, Option.getD_some] at hpieces
    exact absurd (List.cons.inj (cik_of_last hlength hpieces).2).1 (by decide)
  case submissionsHistory.submissionsHistory =>
    obtain ⟨haccession, digits, -, -, hfilename⟩ := hhas
    obtain ⟨haccession', digits', -, -, hfilename'⟩ := hhas'
    have hnames : r.filename = r'.filename := by
      rw [hfilename, hfilename', Option.getD_some, Option.getD_some] at hpieces
      rw [hfilename, hfilename', hpieces]
    rw [hfilename, hfilename', Option.getD_some, Option.getD_some] at hpieces
    exact ⟨(cik_of_last hlength hpieces).1, rfl, haccession.trans haccession'.symm, hnames⟩
  case filingDocument.filingDocument =>
    obtain ⟨accession, filename, haccession, hfilename, hmatches, -, -⟩ := hhas
    obtain ⟨accession', filename', haccession', hfilename', hmatches', -, -⟩ := hhas'
    rw [haccession, haccession', hfilename, hfilename'] at hpieces ⊢
    obtain ⟨hnumber, hdashes, hname⟩ := hpieces
    have hvalue : digitsNumber r.cik = digitsNumber r'.cik := by
      have hboth := congrArg (Nat.ofDigitChars 10 · 0) hnumber
      simpa only [Nat.ofDigitChars_ten_toDigits] using hboth
    exact ⟨eq_of_digitsNumber h.cik.digits h'.cik.digits hlength hvalue, rfl,
      congrArg some (eq_of_withoutDashes hmatches hmatches' hdashes), congrArg some hname⟩

end

end EquityEval.Resources
