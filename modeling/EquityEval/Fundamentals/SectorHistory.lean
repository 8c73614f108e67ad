import EquityEval.Fundamentals.Quantiles
import EquityEval.Normalization.Source
import EquityEval.Fundamentals.Sectors
import EquityEval.Sorting.Keys

/-!
# The history of a sector

A quarter of a sector is a sample of its history with its membership pinned. The graph shows each
quarter of one, three or five years, eligible or as a gap with its reasons; the band is always one of
three years. Both look at the same samples, so that a quarter that both have is eligible in both or
in neither, whatever the order of the samples.
-/

namespace EquityEval.Fundamentals

open DecimalArithmetic Gregorian
open Discovery (sortedSet mem_sortedSet sortedSet_eq_nil sortedSet_perm)
open Vintage (hasText)
open Normalization (dateText)

/-! ### Quarters of a sector -/

/-- Whose history a sector has. -/
inductive MembershipMode where
  | historical
  | currentMembers
deriving DecidableEq, Repr

/-- The text of a mode. -/
def MembershipMode.text : MembershipMode → String
  | historical => "historical"
  | currentMembers => "current_members"

/-- An evaluated quarter with its pinned membership. -/
structure SectorHistoryPoint where
  quarterEnd : Date
  value : Option Number
  seriesKey : String
  inputHash : String
  membershipHash : String
  membershipMode : MembershipMode
  comparisonAllowed : Bool
  flags : List String
  named : hasText seriesKey = true
  pinned : isDigest inputHash = true ∧ isDigest membershipHash = true
  flagged : ∀ flag ∈ flags, hasText flag = true

/-- The graph of a sector with its band. -/
structure SectorHistorySeries where
  points : List HistoryPoint
  band : HistoryBand
  membershipMode : MembershipMode
  years : ℕ
  snapshotId : String
  sourcePoints : List SectorHistoryPoint

/-- How texts are made: which characters are printed as they are, and the digest of a text. -/
structure HistoryTexts where
  printable : Char → Bool
  digest : String → String

variable (t : HistoryTexts)

/-- The only flag that may be there. -/
theorem eq_of_mem_flagIf {p : Prop} [Decidable p] {flag text : String} (h : flag ∈ flagIf p text) : flag = text := by
  unfold flagIf at h
  split at h
  · exact List.mem_singleton.mp h
  · cases h

/-- What keeps a quarter from being compared. -/
def SectorHistoryPoint.gateFlags (mode : MembershipMode) (p : SectorHistoryPoint) : List String :=
  p.flags ++ flagIf (p.comparisonAllowed = false) "coverage_gate_failed" ++
    flagIf (p.membershipMode ≠ mode) "membership_mode_mismatch"

/-- The flags of a quarter have text. -/
theorem SectorHistoryPoint.hasText_gateFlags (mode : MembershipMode) (p : SectorHistoryPoint) :
    ∀ flag ∈ sortedSet (p.gateFlags mode), hasText flag = true := by
  intro flag h
  rw [mem_sortedSet, gateFlags, List.mem_append, List.mem_append] at h
  rcases h with (hflag | hgate) | hmode
  · exact p.flagged flag hflag
  · rw [eq_of_mem_flagIf hgate]
    decide +kernel
  · rw [eq_of_mem_flagIf hmode]
    decide +kernel

/-- A quarter as a sample; its membership is part of its identity, so that conflicting memberships are no duplicates. -/
def SectorHistoryPoint.project (mode : MembershipMode) (p : SectorHistoryPoint) : HistoryPoint where
  quarterEnd := p.quarterEnd
  value := p.value
  seriesKey := p.seriesKey
  inputHash := t.digest (p.inputHash ++ p.membershipHash)
  flags := sortedSet (p.gateFlags mode)
  flagged := p.hasText_gateFlags mode

/-! ### Texts -/

/-- `repr(text)`. -/
def reprText (text : String) : String := String.ofList (Text.repr t.printable text.toList)

/-- `repr(values)` of a tuple. -/
def reprTuple : List String → String
  | [text] => "(" ++ text ++ ",)"
  | texts => "(" ++ ", ".intercalate texts ++ ")"

/-- `repr(day)`. -/
def reprDay (d : Date) : String := "datetime.date(" ++ toString d.year ++ ", " ++ toString d.month ++ ", " ++ toString d.day ++ ")"

/-- A quarter as it is pinned. -/
abbrev Canonical : Type := String ×ₗ String ×ₗ String ×ₗ String ×ₗ String ×ₗ String ×ₗ Bool ×ₗ List String

/-- A quarter as it is pinned: its day, value, series, evidence, membership, mode, gate and flags. -/
def SectorHistoryPoint.canonical (p : SectorHistoryPoint) : Canonical :=
  toLex (dateText p.quarterEnd, toLex (String.ofList (reprValue p.value), toLex (p.seriesKey, toLex (p.inputHash,
    toLex (p.membershipHash, toLex (p.membershipMode.text, toLex (p.comparisonAllowed, p.flags)))))))

/-- `repr(quarter)` of a quarter as it is pinned. -/
def reprCanonical (c : Canonical) : String :=
  let (day, value, series, input, membership, mode, allowed, flags) := c
  reprTuple [reprText t day, reprText t value, reprText t series, reprText t input, reprText t membership, reprText t mode,
    if allowed then "True" else "False", reprTuple (flags.map (reprText t))]

/-- What a snapshot is the digest of. -/
def snapshotText (points : List SectorHistoryPoint) (asOf : Date) (seriesKey : String) (years : ℕ) (mode : MembershipMode)
    (revision : String) : String :=
  reprTuple [reprDay asOf, reprText t seriesKey, toString years, reprText t mode.text, reprText t revision,
    reprTuple (((points.map (·.canonical)).insertionSort (· ≤ ·)).map (reprCanonical t))]

/-! ### The graph -/

/-- A sample with flags, unless one of them is blank. -/
def gapOf (day : Date) (seriesKey inputHash : String) (flags : List String) : Option HistoryPoint :=
  if h : ∀ flag ∈ flags, hasText flag = true then some ⟨day, none, seriesKey, inputHash, flags, h⟩ else none

/-- A quarter of the graph: the eligible sample of its day, or a gap. -/
def displayedPoint (selection : HistoryBand) (seriesKey : String) (day : Date) : Option HistoryPoint :=
  match selection.eligible.reverse.find? fun p => p.quarterEnd = day with
  | some p => some p
  | none =>
    let excluded := selection.excluded.filter fun item => item.point.quarterEnd = day ∧ item.point.seriesKey = seriesKey
    let reasons := sortedSet (excluded.flatMap (·.reasons))
    let hashes := (excluded.map (·.point.inputHash)).insertionSort (· ≤ ·)
    gapOf day seriesKey (t.digest ("[" ++ ", ".intercalate (hashes.map (reprText t)) ++ "]"))
      (if reasons = [] then ["missing_observation"] else reasons)

/-- `HistoryPolicy(years, minimum_samples, revision)`; nothing where it raises. -/
def policyOf (years minimumSamples : ℕ) (revision : String) : Option HistoryPolicy :=
  if h : years ∈ [3, 5, 10] ∧ (1 ≤ minimumSamples ∧ minimumSamples ≤ 4 * years) ∧ hasText revision = true then
    some ⟨years, minimumSamples, revision, h.1, h.2.1, h.2.2⟩
  else none

/-- The band of current members is none of their history. -/
def HistoryBand.gated (band : HistoryBand) (mode : MembershipMode) : HistoryBand :=
  if mode = .currentMembers then
    { band with p25 := none, p50 := none, p75 := none, flags := sortedSet (band.flags ++ ["current_members_history"]) }
  else band

/-- `sector_history`; nothing where it raises. -/
def sectorHistory (points : List SectorHistoryPoint) (asOf : Date) (seriesKey : String) (years : ℕ) (mode : MembershipMode)
    (revision : String) : Option SectorHistorySeries :=
  if h : years ∈ [1, 3, 5] ∧ max 3 years < asOf.year then do
    let samples := points.map (·.project t mode)
    let selection ← historicalBand t.printable samples asOf seriesKey (← policyOf (max 3 years) 1 revision)
    let band ← historicalBand t.printable samples asOf seriesKey (← policyOf 3 12 revision)
    let start := asOf.yearsBefore years ((le_max_right 3 years).trans_lt h.2)
    let displayed ← (selection.expectedQuarterEnds.filter fun day => start < day).mapM (displayedPoint t selection seriesKey)
    some
      { points := displayed, band := band.gated mode, membershipMode := mode, years := years,
        snapshotId := t.digest (snapshotText t points asOf seriesKey years mode revision), sourcePoints := points }
  else none

/-! ### Windows that share a day -/

section
variable {w w' : Window} {printable : Char → Bool} {points points' : List HistoryPoint} {s s' : Scan} {p : HistoryPoint}

/-- What is wrong with a sample of a day that two windows have. -/
theorem reasons_shared (hseries : w.seriesKey = w'.seriesKey) (h : w.Contains p.quarterEnd) (h' : w'.Contains p.quarterEnd) :
    w.reasons p = w'.reasons p := by
  have hinside : ∀ {v : Window}, v.Contains p.quarterEnd →
      (if p.quarterEnd ≤ v.start then ["outside_window"] else flagIf (v.asOf < p.quarterEnd) "after_as_of") = [] := by
    intro v hv
    rw [if_neg (not_le.mpr hv.1), flagIf_eq_nil]
    exact not_lt.mpr hv.2
  unfold Window.reasons
  rw [hinside h, hinside h', hseries]

/-- Whether the samples of a day that two windows have agree. -/
theorem conflicting_shared (hseries : w.seriesKey = w'.seriesKey) (h : w.Contains p.quarterEnd) (h' : w'.Contains p.quarterEnd) :
    w.Conflicting printable points p ↔ w'.Conflicting printable points p := by
  have hvariants : w.variants printable points p.quarterEnd = w'.variants printable points p.quarterEnd := by
    unfold Window.variants
    congr 2
    refine List.filter_congr fun q _ => decide_eq_decide.mpr ?_
    rw [hseries]
    constructor
    · rintro ⟨hkey, -, hday⟩
      exact ⟨hkey, hday ▸ h', hday⟩
    · rintro ⟨hkey, -, hday⟩
      exact ⟨hkey, hday ▸ h, hday⟩
  unfold Window.Conflicting
  rw [hvariants, hseries]

/-- A sample of a day that two windows have is eligible in both or in neither. -/
theorem eligible_shared (hlooked : Looked w printable points s) (hlooked' : Looked w' printable points s')
    (hseries : w.seriesKey = w'.seriesKey) (h : w.Contains p.quarterEnd) (h' : w'.Contains p.quarterEnd) :
    p ∈ s.eligible ↔ p ∈ s'.eligible := by
  rw [mem_eligible hlooked, mem_eligible hlooked', reasons_shared hseries h h', conflicting_shared hseries h h']

/-! ### The order of samples -/

/-- Samples are looked at alike for conditions that say the same. -/
theorem Scan.step_congr {reasons : HistoryPoint → List String} {c c' : HistoryPoint → Prop} [DecidablePred c] [DecidablePred c']
    (h : ∀ p, c p ↔ c' p) : Scan.step reasons c = Scan.step reasons c' := by
  have hgiven : Scan.given reasons c = Scan.given reasons c' := by
    funext s p
    unfold Scan.given
    rw [if_congr (h p) rfl rfl]
  funext s p
  unfold Scan.step
  rw [hgiven]

/-- What is found does not depend on the order of the samples. -/
theorem scanOf_perm (w : Window) (h : points.Perm points') : scanOf printable w points = scanOf printable w points' := by
  have hsorted : points.insertionSort (fun p q => p.sortKey printable ≤ q.sortKey printable) =
      points'.insertionSort fun p q => p.sortKey printable ≤ q.sortKey printable := by
    refine Sorting.byKey_congr (fun p _ q _ hkey => ?_) h
    rw [HistoryPoint.sortKey, HistoryPoint.sortKey, EmbeddingLike.apply_eq_iff_eq, Prod.mk.injEq] at hkey
    exact identity_injective hkey.1 hkey.2
  unfold scanOf
  rw [hsorted, Scan.step_congr fun p => conflicting_congr (fun q => h.mem_iff) p]

/-- A band does not depend on the order of the samples. -/
theorem historicalBand_perm (h : points.Perm points') (asOf : Date) (seriesKey : String) (policy : HistoryPolicy) :
    historicalBand printable points asOf seriesKey policy = historicalBand printable points' asOf seriesKey policy := by
  simp only [historicalBand, scanOf_perm _ h]

end

/-- What a snapshot is the digest of does not depend on the order of the quarters. -/
theorem snapshotText_perm {points points' : List SectorHistoryPoint} (h : points.Perm points') (asOf : Date) (seriesKey : String)
    (years : ℕ) (mode : MembershipMode) (revision : String) :
    snapshotText t points asOf seriesKey years mode revision = snapshotText t points' asOf seriesKey years mode revision := by
  have hsorted : (points.map (·.canonical)).insertionSort (· ≤ ·) = (points'.map (·.canonical)).insertionSort (· ≤ ·) :=
    have hkeyed : Sorting.Keyed (fun c : Canonical => c) (points.map (·.canonical)) := fun _ _ _ _ heq => heq
    Sorting.byKey_congr hkeyed (h.map _)
  rw [snapshotText, hsorted, snapshotText]

/-! ### The quarters of the graph -/

/-- Fewer years before a day are later. -/
theorem yearsBefore_le {d : Date} {years more : ℕ} (hle : years ≤ more) (h : more < d.year) :
    d.yearsBefore more h ≤ d.yearsBefore years (hle.trans_lt h) := by
  rcases hle.lt_or_eq with hlt | rfl
  · refine (Date.lt_iff.mpr (Or.inl ?_)).le
    change d.year - more < d.year - years
    omega
  · exact le_rfl

/-- The quarters of a window that come after a later start are those of the window that starts then. -/
theorem expectedQuarterEnds_filter (seriesKey : String) {start later asOf : Date} (h : start ≤ later) :
    ((Window.mk seriesKey start asOf).expectedQuarterEnds.filter fun day => later < day) =
      (Window.mk seriesKey later asOf).expectedQuarterEnds := by
  have hincreasing := (Window.mk seriesKey start asOf).expectedQuarterEnds_increasing.filter fun day => later < day
  have hincreasing' := (Window.mk seriesKey later asOf).expectedQuarterEnds_increasing
  refine List.Perm.eq_of_pairwise (fun a b _ _ hab hba => absurd hba (lt_asymm hab)) hincreasing hincreasing' ?_
  refine (List.perm_ext_iff_of_nodup (hincreasing.imp fun hlt => hlt.ne) (hincreasing'.imp fun hlt => hlt.ne)).mpr fun day => ?_
  rw [List.mem_filter, Window.mem_expectedQuarterEnds, Window.mem_expectedQuarterEnds, decide_eq_true_eq]
  constructor
  · rintro ⟨⟨⟨-, hlast⟩, hquarter⟩, hlater⟩
    exact ⟨⟨hlater, hlast⟩, hquarter⟩
  · rintro ⟨⟨hlater, hlast⟩, hquarter⟩
    exact ⟨⟨⟨h.trans_lt hlater, hlast⟩, hquarter⟩, hlater⟩

/-- A gap is of its day, has no value and has the flags that it is given. -/
theorem gapOf_eq_some {day : Date} {seriesKey inputHash : String} {flags : List String} {p : HistoryPoint}
    (h : gapOf day seriesKey inputHash flags = some p) : p.quarterEnd = day ∧ p.value = none ∧ p.flags = flags := by
  unfold gapOf at h
  split at h
  · cases h
    exact ⟨rfl, rfl, rfl⟩
  · cases h

/-- A quarter of the graph is an eligible sample of its day, or a gap with a reason where there is none. -/
theorem displayedPoint_cases {selection : HistoryBand} {seriesKey : String} {day : Date} {p : HistoryPoint}
    (h : displayedPoint t selection seriesKey day = some p) :
    p.quarterEnd = day ∧ (p ∈ selection.eligible ∨
      (∀ e ∈ selection.eligible, e.quarterEnd ≠ day) ∧ p.value = none ∧ p.flags ≠ []) := by
  unfold displayedPoint at h
  split at h
  next e he =>
    cases h
    have hday := List.find?_some he
    exact ⟨of_decide_eq_true hday, Or.inl (List.mem_reverse.mp (List.mem_of_find?_eq_some he))⟩
  next hnone =>
    obtain ⟨hday, hvalue, hflags⟩ := gapOf_eq_some h
    refine ⟨hday, Or.inr ⟨fun e he heq => ?_, hvalue, ?_⟩⟩
    · exact absurd (decide_eq_true heq) (List.find?_eq_none.mp hnone e (List.mem_reverse.mpr he))
    · rw [hflags]
      split
      · exact List.cons_ne_nil _ _
      next hreasons => exact hreasons

/-- An accepted call has a selection, a band and a quarter of the graph for each day. -/
theorem sectorHistory_eq_some {points : List SectorHistoryPoint} {asOf : Date} {seriesKey revision : String} {years : ℕ}
    {mode : MembershipMode} {series : SectorHistorySeries}
    (h : sectorHistory t points asOf seriesKey years mode revision = some series) :
    ∃ (hyears : years ∈ [1, 3, 5] ∧ max 3 years < asOf.year) (policy policy' : HistoryPolicy) (selection band : HistoryBand),
      policy.years = max 3 years ∧ policy'.years = 3 ∧
      historicalBand t.printable (points.map (·.project t mode)) asOf seriesKey policy = some selection ∧
      historicalBand t.printable (points.map (·.project t mode)) asOf seriesKey policy' = some band ∧
      (selection.expectedQuarterEnds.filter fun day =>
        asOf.yearsBefore years ((le_max_right 3 years).trans_lt hyears.2) < day).mapM (displayedPoint t selection seriesKey) =
          some series.points ∧
      series.band = band.gated mode := by
  unfold sectorHistory at h
  split at h
  case isFalse => cases h
  case isTrue hyears =>
    have hpolicy : ∀ {n m : ℕ} {policy : HistoryPolicy}, policyOf n m revision = some policy → policy.years = n := by
      intro n m policy hpolicy
      unfold policyOf at hpolicy
      split at hpolicy
      · cases hpolicy
        rfl
      · cases hpolicy
    simp only [Option.bind_eq_bind, Option.bind_eq_some_iff] at h
    obtain ⟨policy, hp, selection, hselection, policy', hp', band, hband, displayed, hdisplayed, hseries⟩ := h
    cases hseries
    exact ⟨hyears, policy, policy', selection, band, hpolicy hp, hpolicy hp', hselection, hband, hdisplayed, rfl⟩

/-- A band is one of what is found in the window of its years. -/
theorem window_of_historicalBand {printable : Char → Bool} {points : List HistoryPoint} {asOf : Date} {seriesKey : String}
    {policy : HistoryPolicy} {band : HistoryBand} (h : historicalBand printable points asOf seriesKey policy = some band) :
    ∃ hyears : policy.years < asOf.year, bandOf ⟨seriesKey, asOf.yearsBefore policy.years hyears, asOf⟩ policy
      (scanOf printable ⟨seriesKey, asOf.yearsBefore policy.years hyears, asOf⟩ points) = some band := by
  unfold historicalBand at h
  split at h
  case isFalse => cases h
  case isTrue hyears =>
    dsimp only at h
    split at h
    · exact ⟨hyears, h⟩
    · cases h

@[simp] theorem HistoryBand.gated_eligible (band : HistoryBand) (mode : MembershipMode) :
    (band.gated mode).eligible = band.eligible := by
  unfold gated
  split <;> rfl

@[simp] theorem HistoryBand.gated_windowStart (band : HistoryBand) (mode : MembershipMode) :
    (band.gated mode).windowStart = band.windowStart := by
  unfold gated
  split <;> rfl

/-- Quarters in another order have the same graph, band and snapshot. -/
theorem sectorHistory_perm {points points' : List SectorHistoryPoint} {asOf : Date} {seriesKey revision : String} {years : ℕ}
    {mode : MembershipMode} {series : SectorHistorySeries}
    (h : sectorHistory t points asOf seriesKey years mode revision = some series) (hperm : points'.Perm points) :
    sectorHistory t points' asOf seriesKey years mode revision = some { series with sourcePoints := points' } := by
  have hband : ∀ policy, historicalBand t.printable (points'.map (·.project t mode)) asOf seriesKey policy =
      historicalBand t.printable (points.map (·.project t mode)) asOf seriesKey policy :=
    fun policy => historicalBand_perm (hperm.map _) asOf seriesKey policy
  unfold sectorHistory at h ⊢
  split at h
  case isFalse => cases h
  case isTrue hyears =>
    rw [dif_pos hyears]
    simp only [hband, snapshotText_perm t hperm, Option.bind_eq_bind, Option.bind_eq_some_iff] at h ⊢
    obtain ⟨policy, hp, selection, hselection, policy', hp', band, hband, displayed, hdisplayed, hseries⟩ := h
    cases hseries
    exact ⟨policy, hp, selection, hselection, policy', hp', band, hband, displayed, hdisplayed, rfl⟩

/-- A quarter may be compared: it passes the gates and has a value in range. -/
def SectorHistoryPoint.Eligible (seriesKey : String) (mode : MembershipMode) (p : SectorHistoryPoint) : Prop :=
  p.seriesKey = seriesKey ∧ p.membershipMode = mode ∧ p.comparisonAllowed = true ∧ p.flags = [] ∧
    ∃ d, p.value = some (.finite d) ∧ WithinNumericLimits d

/-- An eligible sample is a quarter that may be compared. -/
theorem eligible_of_clean {w : Window} {mode : MembershipMode} {q : SectorHistoryPoint} (h : w.reasons (q.project t mode) = []) :
    q.Eligible w.seriesKey mode := by
  obtain ⟨hflags, -, -, hseries⟩ := clean_of_reasons h
  obtain ⟨d, hvalue, hlimits⟩ := within_of_reasons h
  have hgates : q.gateFlags mode = [] := sortedSet_eq_nil.mp hflags
  simp only [SectorHistoryPoint.gateFlags, List.append_eq_nil_iff, flagIf_eq_nil, Bool.not_eq_false, not_not] at hgates
  exact ⟨hseries, hgates.2, hgates.1.2, hgates.1.1, d, hvalue, hlimits⟩

/-- Printed letters, digits and punctuation, and the digests of a membership, of no gaps and of a snapshot. -/
def sampleHistoryTexts : HistoryTexts where
  printable c := 32 ≤ c.toNat && c.toNat < 127
  digest text := match text.toList.head? with
    | some 'a' => "fa0dafbf43f1f551e536353e9d1a942a8e86e41a0b58dfeaf264ef217f6b862a"
    | some '[' => "4f53cda18c2baa0c0354bb5f9a3ecbe5ed12ab4d8e11ba873c2f11161202b945"
    | _ => "dadde3f477dfeac68a866c12efcd7ed9b634333f315299513c60ecec18c36b3c"

/-- The flags of a quarter without flags have text. -/
theorem noFlags_flagged : ∀ flag ∈ ([] : List String), hasText flag = true := by simp

/-- A quarter of a sector that may be compared. -/
def sampleQuarter : SectorHistoryPoint where
  quarterEnd := ⟨2024, 3, 31, Date.inYears_2024, Date.inMonths_3, Date.inDays_2024_3_31⟩
  value := some (.finite ⟨false, 15, -1⟩)
  seriesKey := "growth"
  inputHash := "aaaaaaaaaaaaaaaaaaaaaaaaaaaaaaaaaaaaaaaaaaaaaaaaaaaaaaaaaaaaaaaa"
  membershipHash := "bbbbbbbbbbbbbbbbbbbbbbbbbbbbbbbbbbbbbbbbbbbbbbbbbbbbbbbbbbbbbbbb"
  membershipMode := .historical
  comparisonAllowed := true
  flags := []
  named := by decide +kernel
  pinned := by decide +kernel
  flagged := noFlags_flagged

end EquityEval.Fundamentals
