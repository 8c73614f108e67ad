import EquityEval.Fundamentals.Assembly

/-!
# The windows of trailing years

The window of a trailing year is a reviewed year, or what is left of one and the same part of the next one. Years of
months always give twelve months. Years of weeks give 52 or 53 weeks, and 54 where the window takes the long quarters
of two adjacent years.
-/

namespace EquityEval.Fundamentals

open DecimalArithmetic Gregorian
open Vintage (hasText)
open Workflow (isSha256)

/-- The number of days from a first to a last one. -/
def daysFrom (first last : Date) : ℤ := (last.toOrdinal : ℤ) - first.toOrdinal + 1

/-- The first and last days of whole months that span a number of months. -/
def SpansMonths (first last : Date) (months : ℤ) : Prop := first.day = 1 ∧ last.monthEnd ∧ Date.months first last = months

/-! ### Days and months -/

/-- A date with the next ordinal is the date after. -/
theorem addDay_of_toOrdinal {d next : Date} (h : d.toOrdinal + 1 = next.toOrdinal) : d.addDay = some next := by
  obtain ⟨next', hnext⟩ := Date.addDay_isSome (Date.toOrdinal_lt.mp (by omega : d.toOrdinal < next.toOrdinal))
  have hordinal := Date.toOrdinal_addDay hnext
  rw [hnext, Date.toOrdinal_strictMono.injective (hordinal.trans h)]

/-- The day after the last one of a month is the first one of the next month. -/
theorem month_addDay {d next : Date} (hend : d.monthEnd) (h : d.addDay = some next) :
    next.day = 1 ∧ (next.year : ℤ) * 12 + next.month = d.year * 12 + d.month + 1 := by
  unfold Date.addDay at h
  rw [dif_neg (not_lt.mpr (le_of_eq hend.symm))] at h
  split at h
  case isTrue =>
    cases h
    exact ⟨rfl, by push_cast; ring⟩
  case isFalse hmonth =>
    have hdecember : d.month = 12 := le_antisymm d.inMonths.2 (not_lt.mp hmonth)
    split at h
    case isTrue =>
      cases h
      exact ⟨rfl, by rw [hdecember]; push_cast; ring⟩
    case isFalse => cases h

/-- Months that follow each other add up. -/
theorem SpansMonths.append {first last next last' : Date} {m n : ℤ} (h : SpansMonths first last m) (hnext : last.addDay = some next)
    (h' : SpansMonths next last' n) : SpansMonths first last' (m + n) := by
  obtain ⟨hday, hend, hmonths⟩ := h
  obtain ⟨-, hend', hmonths'⟩ := h'
  have hindex := (month_addDay hend hnext).2
  refine ⟨hday, hend', ?_⟩
  unfold Date.months at hmonths hmonths' ⊢
  omega

/-- What is left of some months after the first of them. -/
theorem SpansMonths.rest {first last part next : Date} {m n : ℤ} (h : SpansMonths first last m) (hpart : SpansMonths first part n)
    (hnext : part.addDay = some next) : SpansMonths next last (m - n) := by
  obtain ⟨-, hend, hmonths⟩ := h
  obtain ⟨-, hend', hmonths'⟩ := hpart
  obtain ⟨hday, hindex⟩ := month_addDay hend' hnext
  refine ⟨hday, hend, ?_⟩
  unfold Date.months at hmonths hmonths' ⊢
  omega

/-! ### Reviewed years -/

/-- A list of four entries. -/
theorem exists_four {α : Type} {l : List α} (h : l.length = 4) : ∃ a b c d, l = [a, b, c, d] := by
  match l, h with
  | [a, b, c, d], _ => exact ⟨a, b, c, d, rfl⟩

/-- A fiscal year has four quarters, and the last three start on the days after the others end. -/
theorem FiscalYear.exists_quarters (y : FiscalYear) : ∃ a b c d a' b' c', y.quarterEnds = [a, b, c, d] ∧
    a.addDay = some a' ∧ b.addDay = some b' ∧ c.addDay = some c' ∧ y.quarterStarts = [y.start, a', b', c'] := by
  obtain ⟨a, b, c, d, hends⟩ := exists_four y.four
  have hinside := y.inside.2
  rw [hends] at hinside
  simp only [List.mem_cons, List.not_mem_nil, or_false, forall_eq_or_imp, forall_eq, Option.ne_none_iff_exists'] at hinside
  obtain ⟨⟨a', ha⟩, ⟨b', hb⟩, ⟨c', hc⟩, -⟩ := hinside
  exact ⟨a, b, c, d, a', b', c', hends, ha, hb, hc, by simp [FiscalYear.quarterStarts, hends, ha, hb, hc]⟩

/-- A supported year of months has three of them in each quarter. -/
theorem FiscalYear.spansMonths {y : FiscalYear} (hsupported : y.supported = true) (hkind : y.kind = .months) {q : ℕ} {last : Date}
    (hlast : y.quarterEnds[q]? = some last) : SpansMonths y.start last (3 * (q + 1)) := by
  obtain ⟨a, b, c, d, a', b', c', hends, ha, hb, hc, hstarts⟩ := y.exists_quarters
  simp only [supported, hkind, hstarts, hends, List.zip_cons_cons, List.zip_nil_right, List.all_cons, List.all_nil, Bool.and_true,
    Bool.and_eq_true, decide_eq_true_eq] at hsupported
  obtain ⟨hfirst, hsecond, hthird, hfourth⟩ := hsupported
  have htwo := SpansMonths.append hfirst ha hsecond
  have hthree := SpansMonths.append htwo hb hthird
  have hfour := SpansMonths.append hthree hc hfourth
  rw [hends] at hlast
  match q, hlast with
  | 0, hlast => cases hlast; exact hfirst
  | 1, hlast => cases hlast; exact htwo
  | 2, hlast => cases hlast; exact hthree
  | 3, hlast => cases hlast; exact hfour

/-- A supported year of weeks has 91 days in each quarter, but for one quarter of 98 days in a long year. -/
theorem FiscalYear.spansWeeks {y : FiscalYear} (hsupported : y.supported = true) (hkind : y.kind = .weeks) {q : ℕ} {last yearEnd : Date}
    (hlast : y.quarterEnds[q]? = some last) (hyearEnd : y.quarterEnds[3]? = some yearEnd) :
    (daysFrom y.start last = 91 * (q + 1) ∧ (daysFrom y.start yearEnd = 364 ∨ daysFrom y.start yearEnd = 371)) ∨
      (daysFrom y.start last = 91 * (q + 1) + 7 ∧ daysFrom y.start yearEnd = 371) := by
  obtain ⟨a, b, c, d, a', b', c', hends, ha, hb, hc, hstarts⟩ := y.exists_quarters
  simp only [supported, hkind, hstarts, hends, List.zip_cons_cons, List.zip_nil_right, List.map_cons, List.map_nil, List.all_cons,
    List.all_nil, Bool.and_true, Bool.and_eq_true, Bool.or_eq_true, decide_eq_true_eq, List.sum_cons, List.sum_nil] at hsupported
  have hordinals := And.intro (Date.toOrdinal_addDay ha) (And.intro (Date.toOrdinal_addDay hb) (Date.toOrdinal_addDay hc))
  rw [hends] at hlast hyearEnd
  cases hyearEnd
  unfold daysFrom
  match q, hlast with
  | 0, hlast => cases hlast; omega
  | 1, hlast => cases hlast; omega
  | 2, hlast => cases hlast; omega
  | 3, hlast => cases hlast; omega

/-- The window is a whole year, or what is left of a year after one of its quarters and the next one up to that quarter. -/
inductive Rolls (years : List FiscalYear) : Date → Date → Prop
  | year {y : FiscalYear} {last : Date} (h : y ∈ years) (hlast : y.quarterEnds[3]? = some last) : Rolls years y.start last
  | across {earlier later : FiscalYear} {q : ℕ} {yearEnd part first last : Date} (hearlier : earlier ∈ years) (hlater : later ∈ years)
      (hyearEnd : earlier.quarterEnds[3]? = some yearEnd) (hnext : yearEnd.addDay = some later.start)
      (hpart : earlier.quarterEnds[q]? = some part) (hfirst : part.addDay = some first)
      (hlast : later.quarterEnds[q]? = some last) : Rolls years first last

section Rolling

variable {years : List FiscalYear} {first last : Date}

/-- A window of years of months has twelve of them. -/
theorem Rolls.spansMonths (h : Rolls years first last) (hsupported : ∀ y ∈ years, y.supported = true)
    (hkind : ∀ y ∈ years, y.kind = .months) : SpansMonths first last 12 := by
  cases h with
  | year h hlast => simpa using FiscalYear.spansMonths (hsupported _ h) (hkind _ h) hlast
  | @across earlier later q yearEnd part first last hearlier hlater hyearEnd hnext hpart hfirst hlast =>
    have hyear := FiscalYear.spansMonths (hsupported _ hearlier) (hkind _ hearlier) hyearEnd
    have hold := FiscalYear.spansMonths (hsupported _ hearlier) (hkind _ hearlier) hpart
    have hnew := FiscalYear.spansMonths (hsupported _ hlater) (hkind _ hlater) hlast
    have hall := (hyear.rest hold hfirst).append hnext hnew
    rwa [show (3 * ((3 : ℕ) + 1) - 3 * (q + 1) + 3 * (q + 1) : ℤ) = 12 by push_cast; ring] at hall

/-- A window of years of weeks has 52 or 53 of them, and 54 at most across two long years. -/
theorem Rolls.spansWeeks (h : Rolls years first last) (hsupported : ∀ y ∈ years, y.supported = true)
    (hkind : ∀ y ∈ years, y.kind = .weeks) :
    daysFrom first last = 364 ∨ daysFrom first last = 371 ∨ daysFrom first last = 378 ∧
      ∃ earlier ∈ years, ∃ later ∈ years, ∃ yearEnd yearEnd', earlier.quarterEnds[3]? = some yearEnd ∧
        yearEnd.addDay = some later.start ∧ later.quarterEnds[3]? = some yearEnd' ∧
        daysFrom earlier.start yearEnd = 371 ∧ daysFrom later.start yearEnd' = 371 := by
  cases h with
  | year h hlast =>
    have hyear := FiscalYear.spansWeeks (hsupported _ h) (hkind _ h) hlast hlast
    omega
  | @across earlier later q yearEnd part first last hearlier hlater hyearEnd hnext hpart hfirst hlast =>
    obtain ⟨_, _, _, yearEnd', _, _, _, hends, -⟩ := later.exists_quarters
    have hyearEnd' : later.quarterEnds[3]? = some yearEnd' := by rw [hends]; rfl
    have hold := FiscalYear.spansWeeks (hsupported _ hearlier) (hkind _ hearlier) hpart hyearEnd
    have hnew := FiscalYear.spansWeeks (hsupported _ hlater) (hkind _ hlater) hlast hyearEnd'
    have hdays : daysFrom first last = daysFrom earlier.start yearEnd - daysFrom earlier.start part + daysFrom later.start last := by
      have hstart := Date.toOrdinal_addDay hfirst
      have hlaterStart := Date.toOrdinal_addDay hnext
      unfold daysFrom
      omega
    by_cases hlong : daysFrom earlier.start yearEnd = 371 ∧ daysFrom later.start yearEnd' = 371
    · have hwindow : daysFrom first last = 364 ∨ daysFrom first last = 371 ∨ daysFrom first last = 378 := by omega
      exact hwindow.imp_right (Or.imp_right fun h =>
        ⟨h, earlier, hearlier, later, hlater, yearEnd, yearEnd', hyearEnd, hnext, hyearEnd', hlong.1, hlong.2⟩)
    · have hwindow : daysFrom first last = 364 ∨ daysFrom first last = 371 := by omega
      exact hwindow.imp_right Or.inl

end Rolling

/-! ### Sources in a calendar -/

/-- A source spans a quarter of a year of the calendar, counted from zero. -/
structure Spans (c : FiscalCalendarEvidence) (source : FinancialInput) (i q : ℕ) (y : FiscalYear) : Prop where
  year : c.years[i]? = some y
  last : y.quarterEnds[q]? = some source.period.endDate
  first : source.period.startDate = y.startOf false q

section Calendars

variable {c : FiscalCalendarEvidence} {source source' : FinancialInput} {i j q r : ℕ} {y z : FiscalYear}

/-- A source that is matched with a quarter spans it. -/
theorem exists_spans (h : c.matchOf source false ≠ none) : ∃ i q y, Spans c source i q y := by
  obtain ⟨⟨i, q⟩, hmatch⟩ := Option.ne_none_iff_exists'.mp h
  unfold FiscalCalendarEvidence.matchOf at hmatch
  split at hmatch
  case isFalse => cases hmatch
  case isTrue =>
    have hmem := List.mem_of_mem_head? (Option.mem_def.mpr hmatch)
    simp only [FiscalCalendarEvidence.quartersOf, List.mem_flatMap, List.mem_map, List.mem_filter, Bool.and_eq_true,
      decide_eq_true_eq] at hmem
    obtain ⟨⟨year, i'⟩, hyear, ⟨quarterEnd, q'⟩, ⟨hquarter, hstart, hend⟩, -⟩ := hmem
    refine ⟨i', q', year, List.mem_zipIdx_iff_getElem?.mp hyear, ?_, hstart⟩
    rw [hend]
    exact List.mem_zipIdx_iff_getElem?.mp hquarter

/-- The years of a calendar do not overlap. -/
theorem years_ordered (hy : c.years[i]? = some y) (hz : c.years[j]? = some z) (hij : i < j) :
    ∀ quarterEnd ∈ y.quarterEnds, quarterEnd < z.start := by
  have htrans : IsTrans FiscalYear fun earlier later => ∀ quarterEnd ∈ earlier.quarterEnds, quarterEnd < later.start := by
    refine ⟨fun earlier middle later h h' quarterEnd hmem => ?_⟩
    obtain ⟨a, b, d, e, _, _, _, hends, -⟩ := middle.exists_quarters
    have ha : a ∈ middle.quarterEnds := by simp [hends]
    exact (h quarterEnd hmem).trans_le ((middle.starts a ha).trans (h' a ha).le)
  obtain ⟨hi, rfl⟩ := List.getElem?_eq_some_iff.mp hy
  obtain ⟨hj, rfl⟩ := List.getElem?_eq_some_iff.mp hz
  exact List.pairwise_iff_getElem.mp (List.isChain_iff_pairwise.mp c.ordered) i j hi hj hij

/-- A quarter starts with its year, or on the day after the quarter before it ends. -/
theorem Spans.first_cases (h : Spans c source i q y) {start : Date} (hstart : source.period.startDate = some start) :
    q = 0 ∧ start = y.start ∨ ∃ part, 0 < q ∧ y.quarterEnds[q - 1]? = some part ∧ part.addDay = some start := by
  have hfirst := h.first.symm.trans hstart
  unfold FiscalYear.startOf at hfirst
  split at hfirst
  case isTrue hzero =>
    cases hfirst
    exact Or.inl ⟨by simpa using hzero, rfl⟩
  case isFalse hzero =>
    obtain ⟨part, hpart, hnext⟩ := Option.bind_eq_some_iff.mp hfirst
    exact Or.inr ⟨part, by simp at hzero; omega, hpart, hnext⟩

/-- The source after one that spans a quarter spans the next one, or the first one of a year that follows. -/
theorem Spans.next (h : Spans c source i q y) (h' : Spans c source' j r z) (hfollows : Follows source source') :
    i = j ∧ r = q + 1 ∨ q = 3 ∧ r = 0 ∧ source.period.endDate.addDay = some z.start := by
  obtain ⟨start, hstart, hordinal⟩ := hfollows
  have hend := List.mem_of_getElem? h.last
  have hend' := List.mem_of_getElem? h'.last
  have hcases := h'.first_cases hstart
  -- a quarter does not start before its year, and starts no later than it ends
  have hbetween : z.start ≤ start ∧ start ≤ source'.period.endDate := by
    rcases hcases with ⟨rfl, rfl⟩ | ⟨part, hr, hpart, hnext⟩
    · exact ⟨le_rfl, z.starts _ hend'⟩
    · have hle := z.starts part (List.mem_of_getElem? hpart)
      have hlt := FiscalYear.quarterEnd_lt (by omega) hpart h'.last
      have hday := Date.toOrdinal_addDay hnext
      rw [← Date.toOrdinal_le] at hle ⊢
      rw [← Date.toOrdinal_lt] at hlt
      rw [← Date.toOrdinal_le]
      omega
  rcases lt_trichotomy i j with hij | rfl | hji
  · right
    obtain ⟨a, b, d, e, _, _, _, hends, -⟩ := y.exists_quarters
    have hlast : y.quarterEnds[3]? = some e := by rw [hends]; rfl
    have hyear := years_ordered h.year h'.year hij e (by simp [hends])
    have hq : q ≤ 3 := by
      have := (List.getElem?_eq_some_iff.mp h.last).1
      rw [y.four] at this
      omega
    have hfull : q = 3 := by
      by_contra hne
      have hlt := FiscalYear.quarterEnd_lt (show q < 3 by omega) h.last hlast
      rw [← Date.toOrdinal_lt] at hlt hyear
      have := Date.toOrdinal_le.mpr hbetween.1
      omega
    subst hfull
    cases h.last.symm.trans hlast
    have heq : start = z.start := by
      apply Date.toOrdinal_strictMono.injective
      have hle := Date.toOrdinal_le.mpr hbetween.1
      rw [← Date.toOrdinal_lt] at hyear
      omega
    subst heq
    refine ⟨rfl, ?_, addDay_of_toOrdinal hordinal⟩
    rcases hcases with ⟨hr, -⟩ | ⟨part, -, hpart, hnext⟩
    · exact hr
    · have hle := Date.toOrdinal_le.mpr (z.starts part (List.mem_of_getElem? hpart))
      have := Date.toOrdinal_addDay hnext
      omega
  · left
    cases h.year.symm.trans h'.year
    refine ⟨rfl, ?_⟩
    rcases hcases with ⟨-, rfl⟩ | ⟨part, hr, hpart, hnext⟩
    · have hle := Date.toOrdinal_le.mpr (y.starts _ hend)
      omega
    · have hday := Date.toOrdinal_addDay hnext
      rcases lt_trichotomy (r - 1) q with hlt | heq | hlt
      · have := Date.toOrdinal_lt.mpr (FiscalYear.quarterEnd_lt hlt hpart h.last)
        omega
      · omega
      · have := Date.toOrdinal_lt.mpr (FiscalYear.quarterEnd_lt hlt h.last hpart)
        omega
  · have hyear := Date.toOrdinal_lt.mpr (years_ordered h'.year h.year hji _ hend')
    have hle := Date.toOrdinal_le.mpr (y.starts _ hend)
    have hstartLe := Date.toOrdinal_le.mpr hbetween.2
    omega

/-- Four sources that span quarters and follow each other span a window of a trailing year. -/
theorem rolls_of_quarters {s₁ s₂ s₃ s₄ : FinancialInput} (hspans : ∀ source ∈ [s₁, s₂, s₃, s₄], ∃ i q y, Spans c source i q y)
    (h₁ : Follows s₁ s₂) (h₂ : Follows s₂ s₃) (h₃ : Follows s₃ s₄) {start : Date} (hstart : s₁.period.startDate = some start) :
    Rolls c.years start s₄.period.endDate := by
  simp only [List.mem_cons, List.not_mem_nil, or_false, forall_eq_or_imp, forall_eq] at hspans
  obtain ⟨⟨i₁, q₁, y₁, hs₁⟩, ⟨i₂, q₂, y₂, hs₂⟩, ⟨i₃, q₃, y₃, hs₃⟩, i₄, q₄, y₄, hs₄⟩ := hspans
  have hmem : ∀ {source i q y}, Spans c source i q y → y ∈ c.years := fun h => List.mem_of_getElem? h.year
  have hlabel₁ := hs₁.next hs₂ h₁
  have hlabel₂ := hs₂.next hs₃ h₂
  have hlabel₃ := hs₃.next hs₄ h₃
  have hfour : q₄ < 4 := by
    have := (List.getElem?_eq_some_iff.mp hs₄.last).1
    rwa [y₄.four] at this
  have hlast : ∀ {source i y}, Spans c source i 3 y → y.quarterEnds[3]? = some source.period.endDate := fun h => h.last
  rcases hs₁.first_cases hstart with ⟨rfl, rfl⟩ | ⟨part, hq, hpart, hfirst⟩
  -- the quarters of one year
  · obtain ⟨rfl, rfl⟩ : i₁ = i₄ ∧ q₄ = 3 := by omega
    cases hs₁.year.symm.trans hs₄.year
    exact .year (hmem hs₁) hs₄.last
  -- the quarters after one of a year, and those up to it of the next year
  · have hacross : ∀ {source i y source' z r}, i = i₁ → Spans c source i 3 y → source.period.endDate.addDay = some z.start →
        Spans c source' i₄ r y₄ → z = y₄ → q₄ = q₁ - 1 → Rolls c.years start s₄.period.endDate := by
      intro source i y source' z r hi hy hnext _ hz hq₄
      subst hi hz hq₄
      cases hs₁.year.symm.trans hy.year
      exact .across (hmem hs₁) (hmem hs₄) hy.last hnext hpart hfirst hs₄.last
    rcases hlabel₁ with ⟨hi₁, hq₁⟩ | ⟨hq₁, hq₂, hnext⟩
    · rcases hlabel₂ with ⟨hi₂, hq₂⟩ | ⟨hq₂, hq₃, hnext⟩
      · rcases hlabel₃ with ⟨hi₃, hq₃⟩ | ⟨hq₃, hq₄, hnext⟩
        · omega
        · subst hq₃
          exact hacross (by omega) hs₃ hnext hs₄ rfl (by omega)
      · subst hq₂
        have hi₄ : i₃ = i₄ := by omega
        subst hi₄
        cases hs₃.year.symm.trans hs₄.year
        exact hacross (by omega) hs₂ hnext hs₄ rfl (by omega)
    · subst hq₁
      have hi₃ : i₂ = i₃ := by omega
      have hi₄ : i₃ = i₄ := by omega
      subst hi₃ hi₄
      cases hs₂.year.symm.trans hs₄.year
      exact hacross rfl hs₁ hnext hs₄ rfl (by omega)

/-- A year with the start of the next one, less its own, spans a window of a trailing year. -/
theorem rolls_of_bridge {annual current prior : FinancialInput} {first : Date}
    (h : AnnualBridge annual current prior (some c)) (hfirst : prior.period.endDate.addDay = some first) :
    Rolls c.years first current.period.endDate := by
  obtain ⟨⟨i, four⟩, ha, ⟨j, q⟩, hc, ⟨k, r⟩, hp, hfour, hsame, -, hquarter, -, start, hstart, hordinal⟩ := h
  dsimp only at hfour hsame hquarter
  subst hfour hsame hquarter
  obtain ⟨y, hy, -, -, hyearEnd⟩ := FiscalCalendarEvidence.matchOf_cumulative ha
  obtain ⟨z, hz, hnewStart, -, hlast⟩ := FiscalCalendarEvidence.matchOf_cumulative hc
  obtain ⟨y', hy', -, -, hpart⟩ := FiscalCalendarEvidence.matchOf_cumulative hp
  cases hy.symm.trans hy'
  cases hstart.symm.trans hnewStart
  exact .across (List.mem_of_getElem? hy) (List.mem_of_getElem? hz) hyearEnd (addDay_of_toOrdinal hordinal) hpart hfirst hlast

end Calendars

/-! ### Trailing years -/

/-- An amount of a trailing year: the sum of four quarters, or a year with the start of the next one less its own. -/
inductive Trailing (t : Texts) (calendar : Option FiscalCalendarEvidence) (p : PeriodAmount) : Prop
  | quarters {sources : List FinancialInput} {revision : Option RevisionCompatibility}
      (h : ttmFromQuarters t sources revision calendar = some p) : Trailing t calendar p
  | bridge {annual current prior : FinancialInput} {revision : Option RevisionCompatibility}
      (h : ttmFromAnnualYtd t annual current prior revision calendar = some p) : Trailing t calendar p

/-- A source of whole months spans them. -/
theorem spansMonths_of_monthSpan {source : FinancialInput} {months : ℤ} (h : monthSpan source = some months) :
    ∃ start, source.period.startDate = some start ∧ SpansMonths start source.period.endDate months := by
  simp only [monthSpan, Option.bind_eq_bind, Option.bind_eq_some_iff] at h
  obtain ⟨start, hstart, hspan⟩ := h
  split at hspan
  case isTrue hmonths =>
    cases hspan
    exact ⟨start, hstart, hmonths.2.2.1, hmonths.2.2.2, rfl⟩
  case isFalse => cases hspan

/-- A calendar without problems has supported years, all of months or all of weeks. -/
theorem years_of_problems {c : FiscalCalendarEvidence} {sources : List FinancialInput} (h : c.problems sources = []) :
    (∀ y ∈ c.years, y.supported = true) ∧ ((∀ y ∈ c.years, y.kind = .months) ∨ ∀ y ∈ c.years, y.kind = .weeks) := by
  simp only [FiscalCalendarEvidence.problems, List.append_eq_nil_iff, flagIf_eq_nil, not_or] at h
  obtain ⟨-, hunsupported, hkinds⟩ := h
  have hsupported : ∀ y ∈ c.years, y.supported = true := by
    intro y hy
    by_contra hfalse
    exact hunsupported ⟨y, hy, Bool.not_eq_true _ ▸ hfalse⟩
  refine ⟨hsupported, ?_⟩
  obtain ⟨kind, hkind⟩ := List.length_eq_one_iff.mp (not_not.mp hkinds)
  have hall : ∀ y ∈ c.years, y.kind = kind := by
    intro y hy
    have hmem : y.kind ∈ (c.years.map (·.kind)).dedup := List.mem_dedup.mpr (List.mem_map_of_mem hy)
    rw [hkind] at hmem
    exact List.mem_singleton.mp hmem
  cases kind with
  | months => exact Or.inl hall
  | weeks => exact Or.inr hall
  | transition =>
    obtain ⟨y, hy⟩ := List.exists_mem_of_ne_nil _ c.listed.1
    have := hsupported y hy
    simp [FiscalYear.supported, hall y hy] at this

/-- The window of a trailing year, by the calendar that its quarters are reviewed with. -/
def YearLong (calendar : Option FiscalCalendarEvidence) (first last : Date) : Prop :=
  (calendar = none → SpansMonths first last 12) ∧
    ∀ c ∈ calendar, (∀ y ∈ c.years, y.kind = .months) ∧ SpansMonths first last 12 ∨
      (∀ y ∈ c.years, y.kind = .weeks) ∧ (daysFrom first last = 364 ∨ daysFrom first last = 371 ∨
        daysFrom first last = 378 ∧ ∃ earlier ∈ c.years, ∃ later ∈ c.years, ∃ yearEnd yearEnd',
          earlier.quarterEnds[3]? = some yearEnd ∧ yearEnd.addDay = some later.start ∧ later.quarterEnds[3]? = some yearEnd' ∧
          daysFrom earlier.start yearEnd = 371 ∧ daysFrom later.start yearEnd' = 371)

/-- A window of a calendar without problems is as long as a year. -/
theorem yearLong_of_rolls {c : FiscalCalendarEvidence} {sources : List FinancialInput} {first last : Date}
    (h : c.problems sources = []) (hrolls : Rolls c.years first last) : YearLong (some c) first last := by
  obtain ⟨hsupported, hkinds⟩ := years_of_problems h
  refine ⟨fun hnone => (by cases hnone), fun c' hc' => ?_⟩
  cases hc'
  rcases hkinds with hmonths | hweeks
  · exact Or.inl ⟨hmonths, hrolls.spansMonths hsupported hmonths⟩
  · exact Or.inr ⟨hweeks, hrolls.spansWeeks hsupported hweeks⟩

variable {t : Texts} {calendar : Option FiscalCalendarEvidence} {p : PeriodAmount} {n : Number}

/-- A sum of four quarters has the window of a year. -/
theorem yearLong_of_quarters {sources : List FinancialInput} {revision : Option RevisionCompatibility}
    (h : ttmFromQuarters t sources revision calendar = some p) (hvalue : p.value = some n) :
    ∃ start, p.period.startDate = some start ∧ YearLong calendar start p.period.endDate := by
  simp only [ttmFromQuarters, Option.bind_eq_bind, Option.bind_eq_some_iff] at h
  obtain ⟨first, hfirst, last, hlast, hresult⟩ := h
  cases hresult
  obtain ⟨hproblems, -⟩ := combine_of_assemble hvalue
  rw [List.append_eq_nil_iff] at hproblems
  obtain ⟨hnone, hcontiguous⟩ := hproblems
  have hchain : sources.IsChain Follows := by
    by_contra hbroken
    exact flagIf_eq_nil.mp hcontiguous ⟨hnone, hbroken⟩
  simp only [List.append_eq_nil_iff, flagIf_eq_nil, not_not, not_exists, not_and] at hnone
  obtain ⟨⟨⟨⟨hperiods, -⟩, hfour⟩, hcalendar⟩, hquarters⟩ := hnone
  obtain ⟨s₁, s₂, s₃, s₄, rfl⟩ := exists_four hfour
  obtain rfl : s₁ = first := Option.some.inj hfirst
  obtain rfl : s₄ = last := Option.some.inj hlast
  simp only [List.isChain_cons_cons, List.isChain_singleton, and_true] at hchain
  obtain ⟨h₁, h₂, h₃⟩ := hchain
  obtain ⟨-, start, hstart, -⟩ := flows_of_periodProblems hperiods s₁ (by simp)
  refine ⟨start, hstart, ?_⟩
  cases calendar with
  | none =>
    refine ⟨fun _ => ?_, fun c hc => by cases hc⟩
    have hspan : ∀ source ∈ [s₁, s₂, s₃, s₄], ∃ start, source.period.startDate = some start ∧
        SpansMonths start source.period.endDate 3 := fun source hsource =>
      spansMonths_of_monthSpan (hquarters source hsource).1
    simp only [List.mem_cons, List.not_mem_nil, or_false, forall_eq_or_imp, forall_eq] at hspan
    obtain ⟨⟨a, ha, hspan₁⟩, ⟨b, hb, hspan₂⟩, ⟨d, hd, hspan₃⟩, e, he, hspan₄⟩ := hspan
    cases hstart.symm.trans ha
    have hnext : ∀ {source source' : FinancialInput} {next : Date}, Follows source source' →
        source'.period.startDate = some next → source.period.endDate.addDay = some next := by
      rintro source source' next ⟨next', hnext', hordinal⟩ hstart'
      cases hnext'.symm.trans hstart'
      exact addDay_of_toOrdinal hordinal
    exact ((hspan₁.append (hnext h₁ hb) hspan₂).append (hnext h₂ hd) hspan₃).append (hnext h₃ he) hspan₄
  | some c => exact yearLong_of_rolls hcalendar (rolls_of_quarters (fun source hsource => exists_spans (hquarters source hsource)) h₁ h₂ h₃ hstart)

/-- A year with the start of the next one, less its own, has the window of a year. -/
theorem yearLong_of_bridge {annual current prior : FinancialInput} {revision : Option RevisionCompatibility}
    (h : ttmFromAnnualYtd t annual current prior revision calendar = some p) (hvalue : p.value = some n) :
    ∃ start, p.period.startDate = some start ∧ YearLong calendar start p.period.endDate := by
  simp only [ttmFromAnnualYtd, Option.bind_eq_bind, Option.bind_eq_some_iff] at h
  obtain ⟨start, hstart, hresult⟩ := h
  cases hresult
  obtain ⟨hproblems, -⟩ := combine_of_assemble hvalue
  simp only [List.append_eq_nil_iff, flagIf_eq_nil, not_not] at hproblems
  obtain ⟨⟨-, hcalendar⟩, hvalid⟩ := hproblems
  obtain ⟨first, hfirst, rfl⟩ := startAfter_eq_some hvalid hstart
  refine ⟨first, rfl, ?_⟩
  cases calendar with
  | none =>
    refine ⟨fun _ => ?_, fun c hc => by cases hc⟩
    obtain ⟨hannual, ⟨m, hcurrent, -, hprior⟩, hsame, next, hnext, hcurrentStart⟩ := hvalid
    obtain ⟨a, ha, hyear⟩ := spansMonths_of_monthSpan hannual
    obtain ⟨b, hb, hpart⟩ := spansMonths_of_monthSpan hprior
    obtain ⟨d, hd, hnew⟩ := spansMonths_of_monthSpan hcurrent
    cases (hb.symm.trans hsame).trans ha
    cases hd.symm.trans hcurrentStart
    have hall := (hyear.rest hpart hfirst).append hnext hnew
    rwa [sub_add_cancel] at hall
  | some c => exact yearLong_of_rolls hcalendar (rolls_of_bridge hvalid hfirst)

/-- A year of weeks whose last quarter is long. -/
def sampleEarlier : FiscalYear :=
  { label := "FY18", start := ⟨2018, 1, 1, Date.inYears_2018, Date.inMonths_1, Date.inDays_2018_1_1⟩,
    quarterEnds := [⟨2018, 4, 1, Date.inYears_2018, by decide, by decide⟩, ⟨2018, 7, 1, Date.inYears_2018, by decide, by decide⟩,
      ⟨2018, 9, 30, Date.inYears_2018, by decide, by decide⟩, ⟨2019, 1, 6, Date.inYears_2019, Date.inMonths_1, by decide⟩],
    kind := .weeks, labelled := by decide +kernel, four := rfl, increasing := by decide, starts := by decide, inside := by decide }

/-- The next year, whose first quarter is long. -/
def sampleLater : FiscalYear :=
  { label := "FY19", start := ⟨2019, 1, 7, Date.inYears_2019, Date.inMonths_1, by decide⟩,
    quarterEnds := [⟨2019, 4, 14, Date.inYears_2019, by decide, by decide⟩, ⟨2019, 7, 14, Date.inYears_2019, by decide, by decide⟩,
      ⟨2019, 10, 13, Date.inYears_2019, Date.inMonths_10, by decide⟩, ⟨2020, 1, 12, by decide, Date.inMonths_1, by decide⟩],
    kind := .weeks, labelled := by decide +kernel, four := rfl, increasing := by decide, starts := by decide, inside := by decide }

/-- The calendar of the two years. -/
def sampleCalendar : FiscalCalendarEvidence :=
  { issuerId := 1, years := [sampleEarlier, sampleLater], inputHashes := [sampleDigest 'a'], knownOn := 18000,
    capturedAt := 19000 * 86400000000, evidenceRefs := ["10-K"], reviewRevision := "v1", listed := by decide,
    ordered := by decide, named := ⟨by simp, by simp, by simpa using (by decide +kernel : isSha256 (sampleDigest 'a') = true)⟩,
    captured := by decide, cited := ⟨by simp, by simpa using (by decide +kernel : hasText "10-K" = true), rfl⟩ }

/-- The quarters around the end of the first of the two years. -/
def sampleQuarters : List FinancialInput :=
  [sampleRevenue ⟨2018, 7, 2, Date.inYears_2018, by decide, by decide⟩ ⟨2018, 9, 30, Date.inYears_2018, by decide, by decide⟩ 11 21 10 none,
    sampleRevenue ⟨2018, 10, 1, Date.inYears_2018, Date.inMonths_10, by decide⟩
      ⟨2019, 1, 6, Date.inYears_2019, Date.inMonths_1, by decide⟩ 12 22 20 none,
    sampleRevenue ⟨2019, 1, 7, Date.inYears_2019, Date.inMonths_1, by decide⟩
      ⟨2019, 4, 14, Date.inYears_2019, by decide, by decide⟩ 13 23 30 none,
    sampleRevenue ⟨2019, 4, 15, Date.inYears_2019, by decide, by decide⟩ ⟨2019, 7, 14, Date.inYears_2019, by decide, by decide⟩ 14 24 40 none]

/-- The two long quarters are in the window of one trailing year. -/
theorem sampleQuarters_value : ∃ p, ttmFromQuarters sampleTexts sampleQuarters none (some sampleCalendar) = some p ∧
    p.value = some (.finite ⟨false, 100, 0⟩) ∧ p.period.startDate = some ⟨2018, 7, 2, by decide, by decide, by decide⟩ ∧
    p.period.endDate = ⟨2019, 7, 14, by decide, by decide, by decide⟩ := by
  have hrun : (ttmFromQuarters sampleTexts sampleQuarters none (some sampleCalendar)).map
      (fun p => (p.value, p.period.startDate, p.period.endDate)) =
        some (some (.finite ⟨false, 100, 0⟩), some ⟨2018, 7, 2, by decide, by decide, by decide⟩,
          ⟨2019, 7, 14, by decide, by decide, by decide⟩) := by
    decide +kernel
  obtain ⟨p, hp, hfields⟩ := Option.map_eq_some_iff.mp hrun
  simp only [Prod.mk.injEq] at hfields
  exact ⟨p, hp, hfields.1, hfields.2.1, hfields.2.2⟩

end EquityEval.Fundamentals
