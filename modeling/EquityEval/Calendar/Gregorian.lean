import Mathlib.Data.Prod.Lex
import Mathlib.Order.Monotone.Basic
import Mathlib.Tactic.IntervalCases

/-!
# Dates of the Gregorian calendar

A date is a year, a month and a day of the calendar extended to the years 1 to 9999. Dates are
ordered by their fields; the ordinal of a date counts the days since the first one, so that it
follows the order and rises by one from each date to the next.
-/

namespace Gregorian

/-- The year has a day more than others. -/
def isLeap (year : ℕ) : Bool := year % 4 = 0 && (year % 100 ≠ 0 || year % 400 = 0)

/-- The number of days of a month. -/
def monthLength (year month : ℕ) : ℕ :=
  if month = 2 then (if isLeap year then 29 else 28) else if month ∈ [4, 6, 9, 11] then 30 else 31

/-- A month has between 28 and 31 days. -/
theorem monthLength_bounds (year month : ℕ) : 28 ≤ monthLength year month ∧ monthLength year month ≤ 31 := by
  unfold monthLength
  split_ifs <;> omega

/-- A date of the calendar. -/
structure Date where
  year : ℕ
  month : ℕ
  day : ℕ
  inYears : 1 ≤ year ∧ year ≤ 9999
  inMonths : 1 ≤ month ∧ month ≤ 12
  inDays : 1 ≤ day ∧ day ≤ monthLength year month
deriving DecidableEq, Repr

namespace Date

-- the bounds of dates that more than one module writes down
theorem inYears_2018 : 1 ≤ 2018 ∧ 2018 ≤ 9999 := by decide
theorem inYears_2019 : 1 ≤ 2019 ∧ 2019 ≤ 9999 := by decide
theorem inYears_2024 : 1 ≤ 2024 ∧ 2024 ≤ 9999 := by decide
theorem inYears_2025 : 1 ≤ 2025 ∧ 2025 ≤ 9999 := by decide
theorem inMonths_1 : 1 ≤ 1 ∧ 1 ≤ 12 := by decide
theorem inMonths_3 : 1 ≤ 3 ∧ 3 ≤ 12 := by decide
theorem inMonths_10 : 1 ≤ 10 ∧ 10 ≤ 12 := by decide
theorem inMonths_12 : 1 ≤ 12 ∧ 12 ≤ 12 := by decide
theorem inDays_2018_1_1 : 1 ≤ 1 ∧ 1 ≤ monthLength 2018 1 := by decide
theorem inDays_2024_1_1 : 1 ≤ 1 ∧ 1 ≤ monthLength 2024 1 := by decide
theorem inDays_2024_3_31 : 1 ≤ 31 ∧ 31 ≤ monthLength 2024 3 := by decide
theorem inDays_2024_12_31 : 1 ≤ 31 ∧ 31 ≤ monthLength 2024 12 := by decide
theorem inDays_2025_1_1 : 1 ≤ 1 ∧ 1 ≤ monthLength 2025 1 := by decide

/-- The fields of a date, the year first. -/
def fields (d : Date) : ℕ ×ₗ ℕ ×ₗ ℕ := toLex (d.year, toLex (d.month, d.day))

/-- A date is determined by its fields. -/
theorem fields_injective : Function.Injective fields := by
  intro a b h
  cases a
  cases b
  simpa [fields] using h

instance : LinearOrder Date := LinearOrder.lift' fields fields_injective

/-- A date is before another one by its first field that differs. -/
theorem lt_iff {a b : Date} : a < b ↔
    a.year < b.year ∨ a.year = b.year ∧ (a.month < b.month ∨ a.month = b.month ∧ a.day < b.day) := by
  change a.fields < b.fields ↔ _
  simp [fields, Prod.Lex.toLex_lt_toLex]

/-- A date is not after another one. -/
theorem le_iff {a b : Date} : a ≤ b ↔
    a.year < b.year ∨ a.year = b.year ∧ (a.month < b.month ∨ a.month = b.month ∧ a.day ≤ b.day) := by
  change a.fields ≤ b.fields ↔ _
  simp [fields, Prod.Lex.toLex_le_toLex]

end Date

/-- The date with some fields, if there is one. -/
def Date.ofFields? (year month day : ℕ) : Option Date :=
  if h : (1 ≤ year ∧ year ≤ 9999) ∧ (1 ≤ month ∧ month ≤ 12) ∧ (1 ≤ day ∧ day ≤ monthLength year month) then
    some ⟨year, month, day, h.1, h.2.1, h.2.2⟩
  else none

/-- A date has the fields that it is given. -/
theorem Date.ofFields?_eq_some {year month day : ℕ} {d : Date} :
    ofFields? year month day = some d ↔ d.year = year ∧ d.month = month ∧ d.day = day := by
  unfold ofFields?
  constructor
  · intro h
    split at h <;> cases h
    exact ⟨rfl, rfl, rfl⟩
  · rintro ⟨rfl, rfl, rfl⟩
    rw [dif_pos ⟨d.inYears, d.inMonths, d.inDays⟩]

/-- The same day some years earlier, or the last one of its month. -/
def Date.yearsBefore (d : Date) (years : ℕ) (h : years < d.year) : Date :=
  ⟨d.year - years, d.month, min d.day (monthLength (d.year - years) d.month),
    ⟨by omega, by have := d.inYears; omega⟩, d.inMonths,
    by have := (monthLength_bounds (d.year - years) d.month).1; have := d.inDays; omega, min_le_right _ _⟩

/-! ### Ordinals -/

/-- The number of days before a year. -/
def daysBeforeYear (year : ℕ) : ℕ := 365 * (year - 1) + (year - 1) / 4 - (year - 1) / 100 + (year - 1) / 400

/-- The number of days of a year before a month. -/
def daysBeforeMonth (year month : ℕ) : ℕ :=
  [0, 0, 31, 59, 90, 120, 151, 181, 212, 243, 273, 304, 334].getD month 0 +
    if 2 < month ∧ isLeap year = true then 1 else 0

/-- The days before a month are those of the month before it and of the ones before that. -/
theorem daysBeforeMonth_succ (year : ℕ) {month : ℕ} (h : 1 ≤ month ∧ month ≤ 11) :
    daysBeforeMonth year (month + 1) = daysBeforeMonth year month + monthLength year month := by
  obtain ⟨hlow, hhigh⟩ := h
  unfold daysBeforeMonth monthLength
  cases isLeap year <;> interval_cases month <;> rfl

/-- The days before a year are those of the year before it and of the ones before that. -/
theorem daysBeforeYear_succ {year : ℕ} (h : 1 ≤ year) :
    daysBeforeYear (year + 1) = daysBeforeYear year + daysBeforeMonth year 12 + 31 := by
  obtain ⟨y, rfl⟩ : ∃ y, year = y + 1 := ⟨year - 1, by omega⟩
  have hmonths : daysBeforeMonth (y + 1) 12 = 334 + if isLeap (y + 1) = true then 1 else 0 := by
    simp [daysBeforeMonth]
  have hleap : isLeap (y + 1) = true ↔ 4 ∣ y + 1 ∧ (¬ 100 ∣ y + 1 ∨ 400 ∣ y + 1) := by
    simp [isLeap, Nat.dvd_iff_mod_eq_zero]
  have hspread : y / 100 ≤ y / 4 := Nat.div_le_div_left (by decide) (by decide)
  rw [hmonths]
  simp only [daysBeforeYear, Nat.add_sub_cancel, hleap, Nat.succ_div]
  generalize y / 4 = a at hspread ⊢
  generalize y / 100 = b at hspread ⊢
  generalize y / 400 = c
  split_ifs <;> omega

/-- The days before a month of a year, and those of the month, do not go past a later month. -/
theorem daysBeforeMonth_lt (year : ℕ) {month later : ℕ} (h : 1 ≤ month) (hlater : month < later) (hlast : later ≤ 12) :
    daysBeforeMonth year month + monthLength year month ≤ daysBeforeMonth year later := by
  induction later, hlater using Nat.le_induction with
  | base => exact (daysBeforeMonth_succ year ⟨h, by omega⟩).ge
  | succ later hle ih =>
    have hstep := daysBeforeMonth_succ year (show 1 ≤ later ∧ later ≤ 11 from ⟨by omega, by omega⟩)
    have := ih (by omega)
    omega

/-- The days before a year do not decrease. -/
theorem daysBeforeYear_lt {year later : ℕ} (h : 1 ≤ year) (hlater : year < later) :
    daysBeforeYear year + daysBeforeMonth year 12 + 31 ≤ daysBeforeYear later := by
  induction later, hlater using Nat.le_induction with
  | base => exact (daysBeforeYear_succ h).ge
  | succ later hle ih =>
    have := daysBeforeYear_succ (show 1 ≤ later by omega)
    omega

namespace Date

/-- The number of a date, counted from the first one. -/
def toOrdinal (d : Date) : ℕ := daysBeforeYear d.year + daysBeforeMonth d.year d.month + d.day

/-- The day of a date within its year. -/
theorem dayOfYear_le (d : Date) : daysBeforeMonth d.year d.month + d.day ≤ daysBeforeMonth d.year 12 + 31 := by
  obtain ⟨hmonth, hlast⟩ := d.inMonths
  have hday := d.inDays.2
  rcases hlast.lt_or_eq with hlt | heq
  · have := daysBeforeMonth_lt d.year hmonth hlt (le_refl _)
    omega
  · have hlength : monthLength d.year d.month ≤ 31 := (monthLength_bounds _ _).2
    rw [heq] at hlength hday ⊢
    omega

/-- Ordinals follow the order of dates. -/
theorem toOrdinal_strictMono : StrictMono toOrdinal := by
  intro a b h
  have hday := a.inDays.2
  have hfirst := b.inDays.1
  unfold toOrdinal
  rcases lt_iff.mp h with hyear | ⟨hyear, hmonth | ⟨hmonth, hdays⟩⟩
  · have hpast := daysBeforeYear_lt a.inYears.1 hyear
    have := a.dayOfYear_le
    omega
  · have hpast := daysBeforeMonth_lt a.year a.inMonths.1 hmonth b.inMonths.2
    rw [← hyear]
    omega
  · rw [← hyear, ← hmonth]
    omega

/-- A date is before another one exactly when its ordinal is. -/
theorem toOrdinal_lt {a b : Date} : a.toOrdinal < b.toOrdinal ↔ a < b := toOrdinal_strictMono.lt_iff_lt

/-- A date is not after another one exactly when its ordinal is not. -/
theorem toOrdinal_le {a b : Date} : a.toOrdinal ≤ b.toOrdinal ↔ a ≤ b := toOrdinal_strictMono.le_iff_le

/-- The date after a date; there is none after the last one. -/
def addDay (d : Date) : Option Date :=
  if hday : d.day < monthLength d.year d.month then
    some ⟨d.year, d.month, d.day + 1, d.inYears, d.inMonths, by omega, hday⟩
  else if hmonth : d.month < 12 then
    some ⟨d.year, d.month + 1, 1, d.inYears, ⟨by omega, by omega⟩, le_refl _, by have := monthLength_bounds d.year (d.month + 1); omega⟩
  else if hyear : d.year < 9999 then
    some ⟨d.year + 1, 1, 1, ⟨by omega, by omega⟩, ⟨le_refl _, by omega⟩, le_refl _, by have := monthLength_bounds (d.year + 1) 1; omega⟩
  else none

/-- The date after a date has the next ordinal. -/
theorem toOrdinal_addDay {d next : Date} (h : d.addDay = some next) : next.toOrdinal = d.toOrdinal + 1 := by
  have hlast := d.inDays.2
  unfold addDay at h
  split at h
  case isTrue hday =>
    cases h
    unfold toOrdinal
    simp only
    omega
  case isFalse hday =>
    split at h
    case isTrue hmonth =>
      cases h
      have := daysBeforeMonth_succ d.year (show 1 ≤ d.month ∧ d.month ≤ 11 from ⟨d.inMonths.1, by omega⟩)
      unfold toOrdinal
      simp only
      omega
    case isFalse hmonth =>
      split at h
      case isTrue hyear =>
        cases h
        have hdecember : d.month = 12 := le_antisymm d.inMonths.2 (not_lt.mp hmonth)
        have hyears := daysBeforeYear_succ d.inYears.1
        have hdays : d.day = 31 := by
          have : monthLength d.year d.month = 31 := by rw [hdecember]; rfl
          omega
        have hjanuary : daysBeforeMonth (d.year + 1) 1 = 0 := by simp [daysBeforeMonth]
        unfold toOrdinal
        simp only [hjanuary, hdecember, hdays]
        omega
      case isFalse => cases h

/-- A date is not before the date after another one exactly when it is after that one. -/
theorem le_of_toOrdinal {d next x : Date} (h : next.toOrdinal = d.toOrdinal + 1) : next ≤ x ↔ d < x := by
  rw [← toOrdinal_le, ← toOrdinal_lt, h]
  exact Nat.succ_le_iff

/-- Only the last date has none after it. -/
theorem addDay_isSome {a b : Date} (h : a < b) : ∃ next, a.addDay = some next := by
  unfold addDay
  split
  case isTrue => exact ⟨_, rfl⟩
  case isFalse hday =>
    split
    case isTrue => exact ⟨_, rfl⟩
    case isFalse hmonth =>
      split
      case isTrue => exact ⟨_, rfl⟩
      case isFalse hyear =>
        exfalso
        have hyears := b.inYears.2
        have hmonths := b.inMonths.2
        have hdays := b.inDays.2
        have hlength := (monthLength_bounds b.year b.month).2
        have hdecember : a.month = 12 := le_antisymm a.inMonths.2 (not_lt.mp hmonth)
        have hfull : monthLength a.year a.month = 31 := by rw [hdecember]; rfl
        rcases lt_iff.mp h with _ | ⟨_, _ | ⟨_, _⟩⟩ <;> omega

/-- The last day of the month of a date. -/
def monthEnd (d : Date) : Prop := d.day = monthLength d.year d.month

instance (d : Date) : Decidable d.monthEnd := inferInstanceAs (Decidable (_ = _))

/-- The number of months that a first and a last day touch. -/
def months (first last : Date) : ℤ := ((last.year : ℤ) - first.year) * 12 + last.month - first.month + 1

/-- Of two last days of months, the one that is more months after a first day is later. -/
theorem lt_of_months {first a b : Date} (h : months first a < months first b) : a < b := by
  have hmonth := a.inMonths
  have hmonth' := b.inMonths
  unfold months at h
  rw [lt_iff]
  omega

end Date

end Gregorian
