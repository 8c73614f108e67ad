import EquityEval.Fundamentals.History
import Mathlib.Data.List.Perm.Basic

/-!
# History bands account for their samples and quarters

Every sample is eligible or excluded once. The eligible ones have distinct quarter ends of the
window; with the missing quarters they are the quarters that a window of years has. What is eligible
depends on the samples alone, not on their order or on repeated evidence.
-/

namespace EquityEval.Fundamentals

open DecimalArithmetic Gregorian
open Discovery (sortedSet sortedSet_eq_nil)

/-! ### Looking at samples -/

/-- The samples looked at so far are all accounted for, and each clean one is there with its quarter. -/
structure Scan.Accounts (reasons : HistoryPoint → List String) (conflicting : HistoryPoint → Prop) (s : Scan)
    (points : List HistoryPoint) : Prop where
  all : (s.eligible ++ s.excluded.map (·.point)).Perm points
  sub : s.eligible.Sublist points
  clean : ∀ p ∈ s.eligible, reasons p = [] ∧ ¬ conflicting p
  distinct : (s.eligible.map (·.quarterEnd)).Nodup
  covers : ∀ p ∈ points, reasons p = [] → ¬ conflicting p → p.quarterEnd ∈ s.eligible.map (·.quarterEnd)

section
variable {reasons : HistoryPoint → List String} {conflicting : HistoryPoint → Prop} [DecidablePred conflicting] {s : Scan}
  {points : List HistoryPoint}

/-- A sample is eligible if it is clean and the first one of its quarter, else it is excluded. -/
theorem Scan.step_cases (reasons : HistoryPoint → List String) (conflicting : HistoryPoint → Prop)
    [DecidablePred conflicting] (s : Scan) (p : HistoryPoint) :
    (reasons p = [] ∧ ¬ conflicting p ∧ p.quarterEnd ∉ s.eligible.map (·.quarterEnd) ∧
      s.step reasons conflicting p = { s with eligible := s.eligible ++ [p] }) ∨
    ((reasons p = [] → ¬ conflicting p → p.quarterEnd ∈ s.eligible.map (·.quarterEnd)) ∧
      ∃ given, s.step reasons conflicting p = { s with excluded := s.excluded ++ [⟨p, given⟩] }) := by
  by_cases hgiven : s.given reasons conflicting p = []
  · rw [step, if_pos hgiven]
    rw [given, List.append_eq_nil_iff] at hgiven
    obtain ⟨hreasons, hrest⟩ := hgiven
    split at hrest
    · cases hrest
    next hconflicting =>
      rw [flagIf_eq_nil, not_and] at hrest
      exact Or.inl ⟨hreasons, hconflicting, hrest hreasons, rfl⟩
  · rw [step, if_neg hgiven]
    refine Or.inr ⟨fun hreasons hconflicting => ?_, _, rfl⟩
    by_contra hfirst
    refine hgiven ?_
    rw [given, hreasons, if_neg hconflicting, List.nil_append, flagIf_eq_nil, not_and]
    exact fun _ => hfirst

/-- Looking at a sample accounts for it. -/
theorem Scan.Accounts.step (h : s.Accounts reasons conflicting points) (p : HistoryPoint) :
    (s.step reasons conflicting p).Accounts reasons conflicting (points ++ [p]) := by
  rcases Scan.step_cases reasons conflicting s p with
    ⟨hreasons, hconflicting, hfirst, hstep⟩ | ⟨hcovered, given, hstep⟩
  · rw [hstep]
    refine ⟨?_, h.sub.append (List.Sublist.refl _), ?_, ?_, ?_⟩
    · have hmiddle : (s.eligible ++ [p] ++ s.excluded.map (·.point)).Perm (s.eligible ++ s.excluded.map (·.point) ++ [p]) := by
        rw [List.append_assoc, List.append_assoc]
        exact List.perm_append_comm.append_left _
      exact hmiddle.trans (h.all.append_right _)
    · intro q hq
      rcases List.mem_append.mp hq with hq | hq
      · exact h.clean q hq
      · cases List.mem_singleton.mp hq
        exact ⟨hreasons, hconflicting⟩
    · rw [List.map_append, List.nodup_append]
      refine ⟨h.distinct, List.nodup_singleton _, ?_⟩
      intro day hday other hother heq
      rw [heq, List.mem_singleton.mp hother] at hday
      exact hfirst hday
    · intro q hq hclean hagree
      rw [List.map_append]
      rcases List.mem_append.mp hq with hq | hq
      · exact List.mem_append_left _ (h.covers q hq hclean hagree)
      · cases List.mem_singleton.mp hq
        exact List.mem_append_right _ (List.mem_singleton_self _)
  · rw [hstep]
    refine ⟨?_, h.sub.trans (List.sublist_append_left _ _), h.clean, h.distinct, ?_⟩
    · rw [List.map_append, ← List.append_assoc]
      exact h.all.append_right _
    · intro q hq hclean hagree
      rcases List.mem_append.mp hq with hq | hq
      · exact h.covers q hq hclean hagree
      · cases List.mem_singleton.mp hq
        exact hcovered hclean hagree

/-- Looking at samples one after the other accounts for all of them. -/
theorem Scan.Accounts.foldl (h : s.Accounts reasons conflicting points) (more : List HistoryPoint) :
    (more.foldl (Scan.step reasons conflicting) s).Accounts reasons conflicting (points ++ more) := by
  induction more generalizing s points with
  | nil => rwa [List.append_nil]
  | cons p more ih =>
    have hrest := ih (h.step p)
    rwa [List.append_assoc] at hrest

/-- Nothing is looked at before the first sample. -/
theorem Scan.accounts_nil : (⟨[], []⟩ : Scan).Accounts reasons conflicting [] :=
  ⟨List.Perm.refl _, List.Sublist.refl _, by simp, List.nodup_nil, by simp⟩

end

/-! ### Clean samples -/

/-- Values with one text are one value. -/
theorem reprValue_injective : Function.Injective reprValue := by
  intro value value' h
  cases value with
  | none =>
    cases value' with
    | none => rfl
    | some n => cases h
  | some m =>
    cases value' with
    | none => cases h
    | some n => rw [Number.toText_injective (List.append_cancel_left (List.append_cancel_right h))]

/-- A sample with one text of its value, its hash and its flags on a day is one sample. -/
theorem identity_injective {printable : Char → Bool} {p q : HistoryPoint} (hday : p.quarterEnd = q.quarterEnd)
    (h : p.identity printable = q.identity printable) : p = q := by
  simp only [HistoryPoint.identity, EmbeddingLike.apply_eq_iff_eq, Prod.mk.injEq] at h
  obtain ⟨hseries, hvalue, hhash, hflags⟩ := h
  have hhash : p.inputHash = q.inputHash :=
    String.ext (Text.repr_injective printable (String.ofList_injective hhash))
  have hvalue := reprValue_injective (String.ofList_injective hvalue)
  cases p
  cases q
  simp_all

section
variable {w : Window} {printable : Char → Bool} {points : List HistoryPoint}

/-- Of samples that agree, those of one day are one sample. -/
theorem eq_of_not_conflicting {p q : HistoryPoint} (hp : p ∈ points) (hq : q ∈ points) (hday : p.quarterEnd = q.quarterEnd)
    (hseries : p.seriesKey = w.seriesKey ∧ q.seriesKey = w.seriesKey) (hin : w.Contains p.quarterEnd)
    (h : ¬ w.Conflicting printable points p) : p = q := by
  have hmem : ∀ r ∈ points, r.seriesKey = w.seriesKey → r.quarterEnd = p.quarterEnd →
      r.identity printable ∈ w.variants printable points p.quarterEnd := by
    intro r hr hseries hday
    rw [Window.variants, List.mem_dedup]
    exact List.mem_map_of_mem (List.mem_filter.mpr ⟨hr, decide_eq_true ⟨hseries, by rwa [hday], hday⟩⟩)
  have hlength : (w.variants printable points p.quarterEnd).length ≤ 1 := by
    by_contra hlong
    exact h ⟨hseries.1, not_le.mp hlong⟩
  have hfirst := hmem p hp hseries.1 rfl
  have hsecond := hmem q hq hseries.2 hday.symm
  refine identity_injective hday (?_ : p.identity printable = q.identity printable)
  match hvariants : w.variants printable points p.quarterEnd with
  | [] =>
    rw [hvariants] at hfirst
    cases hfirst
  | [identity] =>
    rw [hvariants, List.mem_singleton] at hfirst hsecond
    rw [hfirst, hsecond]
  | _ :: _ :: _ =>
    rw [hvariants] at hlength
    simp at hlength

/-- What is wrong with no sample is that it lies outside of the window or of the series, or has a flag. -/
theorem clean_of_reasons {p : HistoryPoint} (h : w.reasons p = []) :
    p.flags = [] ∧ w.Contains p.quarterEnd ∧ (p.quarterEnd.month, p.quarterEnd.day) ∈ quarterDays ∧
      p.seriesKey = w.seriesKey := by
  simp only [Window.reasons, List.append_eq_nil_iff, flagIf_eq_nil, not_not] at h
  obtain ⟨⟨⟨⟨⟨hflags, hwindow⟩, hquarter⟩, hseries⟩, -⟩, -⟩ := h
  refine ⟨hflags, ?_, hquarter, hseries⟩
  split at hwindow
  · cases hwindow
  next hstart =>
    rw [flagIf_eq_nil, not_lt] at hwindow
    exact ⟨not_le.mp hstart, hwindow⟩

/-- Whether a sample is of a day whose samples do not agree depends on the samples alone. -/
theorem conflicting_congr {points' : List HistoryPoint} (h : ∀ p, p ∈ points ↔ p ∈ points') (p : HistoryPoint) :
    w.Conflicting printable points p ↔ w.Conflicting printable points' p := by
  have hperm : (w.variants printable points p.quarterEnd).Perm (w.variants printable points' p.quarterEnd) := by
    refine (List.perm_ext_iff_of_nodup (List.nodup_dedup _) (List.nodup_dedup _)).mpr fun identity => ?_
    simp [h]
  unfold Window.Conflicting
  rw [hperm.length_eq]

variable {s s' : Scan}

/-- The samples of a window in the order of their quarter ends, without those that conflict. -/
def Looked (w : Window) (printable : Char → Bool) (points : List HistoryPoint) (s : Scan) : Prop :=
  ∃ sorted, sorted.Perm points ∧ sorted.Pairwise (fun p q => p.quarterEnd ≤ q.quarterEnd) ∧
    s.Accounts w.reasons (w.Conflicting printable points) sorted

/-- A sample is eligible exactly when it is clean and agrees with those of its day. -/
theorem mem_eligible (h : Looked w printable points s) {p : HistoryPoint} :
    p ∈ s.eligible ↔ p ∈ points ∧ w.reasons p = [] ∧ ¬ w.Conflicting printable points p := by
  obtain ⟨sorted, hperm, -, haccounts⟩ := h
  constructor
  · intro hp
    exact ⟨hperm.subset (haccounts.sub.subset hp), haccounts.clean p hp⟩
  · rintro ⟨hp, hreasons, hagree⟩
    obtain ⟨q, hq, hday⟩ := List.mem_map.mp (haccounts.covers p (hperm.symm.subset hp) hreasons hagree)
    obtain ⟨-, hin, -, hseries⟩ := clean_of_reasons hreasons
    have hclean := (haccounts.clean q hq).1
    have heq : p = q := eq_of_not_conflicting hp (hperm.subset (haccounts.sub.subset hq)) hday.symm
      ⟨hseries, (clean_of_reasons hclean).2.2.2⟩ hin hagree
    rwa [heq]

/-- The quarter ends of the eligible samples increase. -/
theorem eligible_increasing (h : Looked w printable points s) :
    s.eligible.Pairwise fun p q => p.quarterEnd < q.quarterEnd := by
  obtain ⟨sorted, -, hsorted, haccounts⟩ := h
  have hdistinct := List.pairwise_map.mp haccounts.distinct
  exact ((hsorted.sublist haccounts.sub).and hdistinct).imp fun hpq => lt_of_le_of_ne hpq.1 hpq.2

/-- What is eligible depends on the samples alone. -/
theorem eligible_congr {points' : List HistoryPoint} (h : Looked w printable points s)
    (h' : Looked w printable points' s') (hsame : ∀ p, p ∈ points ↔ p ∈ points') : s.eligible = s'.eligible := by
  have hincreasing := eligible_increasing h
  have hincreasing' := eligible_increasing h'
  have hnodup : ∀ {points : List HistoryPoint}, points.Pairwise (fun p q => p.quarterEnd < q.quarterEnd) → points.Nodup :=
    fun hpoints => hpoints.imp fun hlt heq => absurd (heq ▸ hlt) (lt_irrefl _)
  have hperm : s.eligible.Perm s'.eligible := by
    refine (List.perm_ext_iff_of_nodup (hnodup hincreasing) (hnodup hincreasing')).mpr fun p => ?_
    rw [mem_eligible h, mem_eligible h', hsame, conflicting_congr hsame]
  exact hperm.eq_of_pairwise (fun p q _ _ hpq hqp => absurd hqp (lt_asymm hpq)) hincreasing hincreasing'

end

/-! ### Quarters of a window -/

/-- The day is a last day of a quarter of its year exactly when the calendar says so. -/
theorem mem_quarterEndsOf {year : ℕ} {day : Date} :
    day ∈ quarterEndsOf year ↔ day.year = year ∧ (day.month, day.day) ∈ quarterDays := by
  simp only [quarterEndsOf, List.mem_filterMap, Date.ofFields?_eq_some]
  constructor
  · rintro ⟨quarter, hquarter, hyear, hmonth, hday⟩
    exact ⟨hyear, by rwa [hmonth, hday]⟩
  · rintro ⟨hyear, hquarter⟩
    exact ⟨_, hquarter, hyear, rfl, rfl⟩

/-- The days of the quarters of a year are dates, and come in their order. -/
theorem quarterEndsOf_increasing (year : ℕ) : (quarterEndsOf year).Pairwise (· < ·) := by
  have hfields : (quarterEndsOf year).Pairwise fun a b => a.year = b.year ∧ a.month < b.month := by
    rw [quarterEndsOf, List.pairwise_filterMap]
    have hdays : quarterDays.Pairwise fun a b => a.1 < b.1 := by decide
    refine hdays.imp fun hlt a ha b hb => ?_
    rw [Date.ofFields?_eq_some] at ha hb
    exact ⟨ha.1.trans hb.1.symm, by rw [ha.2.1, hb.2.1]; exact hlt⟩
  exact hfields.imp fun h => Date.lt_iff.mpr (Or.inr ⟨h.1, Or.inl h.2⟩)

/-- The days of quarters are dates of every year. -/
theorem ofFields?_quarterDays {year : ℕ} (hyear : 1 ≤ year ∧ year ≤ 9999) {quarter : ℕ × ℕ} (h : quarter ∈ quarterDays) :
    quarter.2 = monthLength year quarter.1 ∧ ∃ day, Date.ofFields? year quarter.1 quarter.2 = some day := by
  simp only [quarterDays, List.mem_cons, List.not_mem_nil, or_false] at h
  unfold Date.ofFields?
  rcases h with rfl | rfl | rfl | rfl <;> simp [monthLength, hyear]

/-- The number of quarter ends of a year with a property is that of the days of quarters with it. -/
theorem length_quarterEndsOf {year : ℕ} (hyear : 1 ≤ year ∧ year ≤ 9999) (p : Date → Prop) [DecidablePred p]
    (q : ℕ × ℕ → Bool) (h : ∀ day ∈ quarterEndsOf year, p day ↔ q (day.month, day.day) = true) :
    ((quarterEndsOf year).filter fun day => p day).length = quarterDays.countP q := by
  rw [← List.countP_eq_length_filter, quarterEndsOf, List.countP_filterMap]
  refine List.countP_congr fun quarter hquarter => ?_
  obtain ⟨-, day, hday⟩ := ofFields?_quarterDays hyear hquarter
  have hmem : day ∈ quarterEndsOf year := List.mem_filterMap.mpr ⟨quarter, hquarter, hday⟩
  obtain ⟨-, hmonth, hdays⟩ := Date.ofFields?_eq_some.mp hday
  rw [hday, Option.map_some, Option.getD_some, decide_eq_true_eq, h day hmem, hmonth, hdays]

namespace Window

/-- The quarter ends of a window are those of the calendar that it contains. -/
theorem mem_expectedQuarterEnds {w : Window} {day : Date} :
    day ∈ w.expectedQuarterEnds ↔ w.Contains day ∧ (day.month, day.day) ∈ quarterDays := by
  simp only [expectedQuarterEnds, List.mem_flatMap, List.mem_range'_1, List.mem_filter, mem_quarterEndsOf,
    decide_eq_true_eq]
  constructor
  · rintro ⟨year, -, ⟨-, hquarter⟩, hin⟩
    exact ⟨hin, hquarter⟩
  · rintro ⟨hin, hquarter⟩
    refine ⟨day.year, ?_, ⟨rfl, hquarter⟩, hin⟩
    obtain ⟨hstart, hlast⟩ := hin
    rw [Date.lt_iff] at hstart
    rw [Date.le_iff] at hlast
    omega

/-- The quarter ends of a window come in their order. -/
theorem expectedQuarterEnds_increasing (w : Window) : w.expectedQuarterEnds.Pairwise (· < ·) := by
  rw [expectedQuarterEnds, List.pairwise_flatMap]
  refine ⟨fun year _ => (quarterEndsOf_increasing year).filter _, (List.pairwise_lt_range' _ Nat.one_pos).imp ?_⟩
  intro year year' hlt a ha b hb
  have hyear := (mem_quarterEndsOf.mp (List.mem_of_mem_filter ha)).1
  have hyear' := (mem_quarterEndsOf.mp (List.mem_of_mem_filter hb)).1
  exact Date.lt_iff.mpr (Or.inl (by rwa [hyear, hyear']))

/-- A window of years has four quarter ends for each of them: those of its first year and those of its last one make
up a year, as the day that it starts after is the last one of its month when the month has no other. -/
theorem length_expectedQuarterEnds {asOf : Date} {years : ℕ} (hyears : 0 < years) (h : years < asOf.year)
    (seriesKey : String) : (Window.mk seriesKey (asOf.yearsBefore years h) asOf).expectedQuarterEnds.length = 4 * years := by
  obtain ⟨k, rfl⟩ : ∃ k, years = k + 1 := ⟨years - 1, by omega⟩
  obtain ⟨first, hfirst⟩ : ∃ first, asOf.year = first + k + 1 := ⟨asOf.year - (k + 1), by omega⟩
  have hlast := asOf.inYears
  have hstart : (asOf.yearsBefore (k + 1) h).year = first := by
    change asOf.year - (k + 1) = first
    omega
  have hmonth : (asOf.yearsBefore (k + 1) h).month = asOf.month := rfl
  let reached : ℕ × ℕ → Bool := fun quarter =>
    decide (quarter.1 < asOf.month ∨ quarter.1 = asOf.month ∧ quarter.2 ≤ asOf.day)
  have hcount : quarterDays.countP (fun quarter => !reached quarter) + quarterDays.countP reached = 4 := by
    have hsplit := List.length_eq_countP_add_countP reached (l := quarterDays)
    simpa [quarterDays, add_comm] using hsplit.symm
  have hrange : List.range' first (first + k + 1 + 1 - first) = first :: (List.range' (first + 1) k ++ [first + 1 + k]) := by
    rw [show first + k + 1 + 1 - first = k + 1 + 1 by omega, List.range'_succ, List.range'_concat, Nat.one_mul]
  rw [expectedQuarterEnds, hstart, hfirst, hrange, List.length_flatMap, List.map_cons, List.sum_cons, List.map_append,
    List.sum_append, List.map_singleton, List.sum_singleton]
  have hfirstYear : ((quarterEndsOf first).filter fun day =>
      Contains ⟨seriesKey, asOf.yearsBefore (k + 1) h, asOf⟩ day).length = quarterDays.countP fun quarter => !reached quarter := by
    refine length_quarterEndsOf ⟨by omega, by omega⟩ _ _ fun day hday => ?_
    obtain ⟨hyear, hquarter⟩ := mem_quarterEndsOf.mp hday
    have hlength : day.day = monthLength first day.month := (ofFields?_quarterDays ⟨by omega, by omega⟩ hquarter).1
    have hclamped : (asOf.yearsBefore (k + 1) h).day = min asOf.day (monthLength first asOf.month) := by
      rw [← hstart]
      rfl
    simp only [Contains, Date.lt_iff, Date.le_iff, hyear, hstart, hmonth, hclamped, hfirst, reached, Bool.not_eq_true',
      decide_eq_false_iff_not, lt_irrefl, false_or, true_and]
    by_cases hsame : day.month = asOf.month
    · rw [hsame] at hlength
      omega
    · omega
  have hlastYear : ((quarterEndsOf (first + 1 + k)).filter fun day =>
      Contains ⟨seriesKey, asOf.yearsBefore (k + 1) h, asOf⟩ day).length = quarterDays.countP reached := by
    refine length_quarterEndsOf ⟨by omega, by omega⟩ _ _ fun day hday => ?_
    obtain ⟨hyear, hquarter⟩ := mem_quarterEndsOf.mp hday
    simp only [Contains, Date.lt_iff, Date.le_iff, hyear, hstart, hfirst, reached, decide_eq_true_eq]
    omega
  have hmiddle : ∀ year ∈ List.range' (first + 1) k, ((quarterEndsOf year).filter fun day =>
      Contains ⟨seriesKey, asOf.yearsBefore (k + 1) h, asOf⟩ day).length = 4 := by
    intro year hyear
    rw [List.mem_range'_1] at hyear
    refine length_quarterEndsOf ⟨by omega, by omega⟩ _ (fun _ => true) fun day hday => ?_
    obtain ⟨hyear', -⟩ := mem_quarterEndsOf.mp hday
    simp only [Contains, Date.lt_iff, Date.le_iff, hyear', hstart, hfirst, iff_true]
    omega
  rw [hfirstYear, hlastYear, List.map_congr_left hmiddle, List.map_const', List.sum_replicate, List.length_range',
    nsmul_eq_mul, Nat.cast_id]
  omega

end Window

/-! ### Bands -/

section
variable {w : Window} {policy : HistoryPolicy} {printable : Char → Bool} {points : List HistoryPoint} {s s' : Scan}
  {band : HistoryBand}

/-- The samples of a window are looked at in the order of their quarter ends. -/
theorem looked_scanOf (w : Window) (printable : Char → Bool) (points : List HistoryPoint) :
    Looked w printable points (scanOf printable w points) := by
  refine ⟨_, List.perm_insertionSort _ points, ?_, Scan.accounts_nil.foldl _⟩
  have hsorted := List.pairwise_insertionSort (fun p q : HistoryPoint => p.sortKey printable ≤ q.sortKey printable) points
  refine hsorted.imp fun h => ?_
  rcases (Prod.Lex.toLex_le_toLex.mp h) with hlt | ⟨heq, -⟩
  · exact hlt.le
  · exact heq.le

/-- A band has the window and the samples that it is made of. -/
theorem bandOf_eq_some (h : bandOf w policy s = some band) :
    band.windowStart = w.start ∧ band.eligible = s.eligible ∧ band.excluded = s.excluded ∧
      band.expectedQuarterEnds = w.expectedQuarterEnds ∧
      band.missingQuarterEnds = w.expectedQuarterEnds.filter fun day => day ∉ s.eligible.map (·.quarterEnd) := by
  simp only [bandOf, Option.bind_eq_bind, Option.bind_eq_some_iff] at h
  obtain ⟨p25, -, p50, -, p75, -, hband⟩ := h
  cases hband
  exact ⟨rfl, rfl, rfl, rfl, rfl⟩

/-- The band depends on the eligible samples alone, but for the excluded ones. -/
theorem bandOf_congr (h : s.eligible = s'.eligible) :
    bandOf w policy s' = (bandOf w policy s).map fun band => { band with excluded := s'.excluded } := by
  simp only [bandOf, h, Option.bind_eq_bind, Option.map_bind, Function.comp_def, Option.map_some]

/-- The eligible and the missing quarters together are the expected ones. -/
theorem quarters_of_band (hlooked : Looked w printable points s) (h : bandOf w policy s = some band) :
    (band.eligible.map (·.quarterEnd) ++ band.missingQuarterEnds).Perm band.expectedQuarterEnds := by
  obtain ⟨-, heligible, -, hexpected, hmissing⟩ := bandOf_eq_some h
  rw [heligible, hexpected, hmissing]
  have hnodup : w.expectedQuarterEnds.Nodup := w.expectedQuarterEnds_increasing.imp fun hlt => hlt.ne
  have hdistinct : (s.eligible.map (·.quarterEnd)).Nodup :=
    List.pairwise_map.mpr ((eligible_increasing hlooked).imp fun hlt => hlt.ne)
  have hcounted : (s.eligible.map (·.quarterEnd)).Perm
      (w.expectedQuarterEnds.filter fun day => day ∈ s.eligible.map (·.quarterEnd)) := by
    refine (List.perm_ext_iff_of_nodup hdistinct (hnodup.filter _)).mpr fun day => ?_
    simp only [List.mem_filter, decide_eq_true_eq, iff_and_self]
    intro hday
    obtain ⟨p, hp, rfl⟩ := List.mem_map.mp hday
    obtain ⟨-, hin, hquarter, -⟩ := clean_of_reasons ((mem_eligible hlooked).mp hp).2.1
    exact Window.mem_expectedQuarterEnds.mpr ⟨hin, hquarter⟩
  refine (hcounted.append_right _).trans ?_
  have hsplit := List.filter_append_perm (fun day => decide (day ∈ s.eligible.map (·.quarterEnd))) w.expectedQuarterEnds
  simpa only [decide_not] using hsplit

end

/-- A band accounts for every sample and every quarter of its window, and depends on its samples alone. -/
theorem historicalBand_accounts {printable : Char → Bool} {points : List HistoryPoint} {asOf : Date} {seriesKey : String}
    {policy : HistoryPolicy} {band : HistoryBand} (h : historicalBand printable points asOf seriesKey policy = some band) :
    (band.eligible ++ band.excluded.map (·.point)).Perm points ∧
    band.eligible.Pairwise (fun p q => p.quarterEnd < q.quarterEnd) ∧
    (∀ p ∈ band.eligible, band.windowStart < p.quarterEnd ∧ p.quarterEnd ≤ asOf ∧
      (p.quarterEnd.month, p.quarterEnd.day) ∈ quarterDays ∧ p.seriesKey = seriesKey ∧ p.flags = []) ∧
    band.expectedQuarterEnds.length = 4 * policy.years ∧ band.expectedQuarterEnds.Nodup ∧
    (band.eligible.map (·.quarterEnd) ++ band.missingQuarterEnds).Perm band.expectedQuarterEnds ∧
    (∀ p ∈ points, ∀ q ∈ points, p.seriesKey = seriesKey → q.seriesKey = seriesKey → p.quarterEnd = q.quarterEnd →
      p ≠ q → ∀ e ∈ band.eligible, e.quarterEnd ≠ p.quarterEnd) ∧
    ∀ points', (∀ p, p ∈ points' ↔ p ∈ points) →
      ∃ band', historicalBand printable points' asOf seriesKey policy = some band' ∧ band'.eligible = band.eligible ∧
        band'.missingQuarterEnds = band.missingQuarterEnds ∧ band'.p25 = band.p25 ∧ band'.p50 = band.p50 ∧
        band'.p75 = band.p75 := by
  simp only [historicalBand] at h
  split at h
  case isFalse => cases h
  case isTrue hyears =>
    split at h
    case isFalse => cases h
    case isTrue htext =>
      generalize hw : Window.mk seriesKey (asOf.yearsBefore policy.years hyears) asOf = w at h
      have hlooked := looked_scanOf w printable points
      generalize hscan : scanOf printable w points = s at h hlooked
      obtain ⟨hstart, heligible, hexcluded, hexpected, hmissing⟩ := bandOf_eq_some h
      have hpositive : 0 < policy.years := by
        have := policy.window
        simp only [List.mem_cons, List.not_mem_nil, or_false] at this
        omega
      have hclean : ∀ p ∈ band.eligible, p ∈ points ∧ w.reasons p = [] ∧ ¬ w.Conflicting printable points p :=
        fun p hp => (mem_eligible hlooked).mp (by rwa [← heligible])
      refine ⟨?_, ?_, ?_, ?_, ?_, quarters_of_band hlooked h, ?_, ?_⟩
      · obtain ⟨sorted, hperm, -, haccounts⟩ := hlooked
        rw [heligible, hexcluded]
        exact haccounts.all.trans hperm
      · rw [heligible]
        exact eligible_increasing hlooked
      · intro p hp
        obtain ⟨hflags, hin, hquarter, hseries⟩ := clean_of_reasons (hclean p hp).2.1
        subst hw
        rw [hstart]
        exact ⟨hin.1, hin.2, hquarter, hseries, hflags⟩
      · rw [hexpected, ← hw]
        exact Window.length_expectedQuarterEnds hpositive hyears seriesKey
      · rw [hexpected]
        exact w.expectedQuarterEnds_increasing.imp fun hlt => hlt.ne
      · intro p hp q hq hpseries hqseries hday hne e he hsame
        obtain ⟨hpoint, hreasons, hagree⟩ := hclean e he
        obtain ⟨-, hin, -, hseries⟩ := clean_of_reasons hreasons
        have hseriesKey : w.seriesKey = seriesKey := by rw [← hw]
        have hep := eq_of_not_conflicting hpoint hp hsame ⟨hseries, hpseries.trans hseriesKey.symm⟩ hin hagree
        have heq := eq_of_not_conflicting hpoint hq (hsame.trans hday) ⟨hseries, hqseries.trans hseriesKey.symm⟩ hin hagree
        exact hne (hep.symm.trans heq)
      · intro points' hsame
        have hlooked' := looked_scanOf w printable points'
        have hcongr : bandOf w policy (scanOf printable w points') = _ :=
          bandOf_congr (eligible_congr hlooked hlooked' fun p => (hsame p).symm)
        rw [h, Option.map_some] at hcongr
        refine ⟨{ band with excluded := (scanOf printable w points').excluded }, ?_, rfl, rfl, rfl, rfl, rfl⟩
        rw [historicalBand, dif_pos hyears, if_pos htext]
        rwa [hw]

/-- A sample of the quarter that ends with March 2024. -/
def samplePoint (coefficient : ℕ) (inputHash : String) : HistoryPoint :=
  { quarterEnd := ⟨2024, 3, 31, Date.inYears_2024, Date.inMonths_3, Date.inDays_2024_3_31⟩,
    value := some (.finite ⟨false, coefficient, -1⟩), seriesKey := "growth", inputHash := inputHash, flags := [], flagged := by simp }

/-- Bands of three years that need one sample. -/
def samplePolicy : HistoryPolicy :=
  { years := 3, minimumSamples := 1, revision := "v1", window := by decide, minimum := by decide, named := by decide +kernel }

/-- A band of one sample that is given twice accounts for both. -/
theorem samplePoints_accounts : ∃ band, historicalBand Char.isAlphanum [samplePoint 15 "a", samplePoint 15 "a"]
    ⟨2024, 5, 1, by decide, by decide, by decide⟩ "growth" samplePolicy = some band ∧
    (band.eligible ++ band.excluded.map (·.point)).Perm [samplePoint 15 "a", samplePoint 15 "a"] ∧
    band.expectedQuarterEnds.length = 12 := by
  have hsome : (historicalBand Char.isAlphanum [samplePoint 15 "a", samplePoint 15 "a"]
      ⟨2024, 5, 1, by decide, by decide, by decide⟩ "growth" samplePolicy).isSome = true := by
    decide +kernel
  obtain ⟨band, hband⟩ := Option.isSome_iff_exists.mp hsome
  obtain ⟨hall, -, -, hlength, -⟩ := historicalBand_accounts hband
  exact ⟨band, hband, hall, hlength⟩

end EquityEval.Fundamentals
