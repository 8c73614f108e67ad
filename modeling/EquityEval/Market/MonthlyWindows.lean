import EquityEval.Calendar.Tilings
import EquityEval.Normalization.Digits
import EquityEval.Pagination.Fred

/-!
# Monthly windows

A source that publishes a file a month is asked for the months that a request touches, one window for
each. The first window begins where the request does, the last one ends where it does, and the ones
between are whole months.
-/

namespace EquityEval.Market

open Gregorian Pagination
open Normalization (digitsNumber padded padded_digits)
open Relational (bind_eq_ok orRaise orRaise_eq_ok)

/-! ### Texts of months -/

/-- `strftime("%Y%m")`, with the year of four digits. -/
def strftimeMonth (d : Date) : String := padded 4 d.year ++ padded 2 d.month

/-! ### Windows -/

/-- `MAX_MONTHS`. -/
def maxMonths : ℕ := 120

/-- A key of a month, and the first and the last day that are asked for of it. -/
structure Window where
  key : String
  start : Date
  «end» : Date
deriving DecidableEq

/-- `current.replace(day=1)`. -/
def monthStart (d : Date) : Date :=
  ⟨d.year, d.month, 1, d.inYears, d.inMonths, le_refl _, by have := (monthLength_bounds d.year d.month).1; omega⟩

/-- `current.replace(day=calendar.monthrange(current.year, current.month)[1])`. -/
def monthLast (d : Date) : Date :=
  ⟨d.year, d.month, monthLength d.year d.month, d.inYears, d.inMonths,
    by have := (monthLength_bounds d.year d.month).1; omega, le_refl _⟩

/-- The loop of `_windows`, with the number of months that are left. -/
def windowsFrom (start last : Date) : ℕ → Date → Except Refusal (List Window)
  | 0, _ => .ok []
  | remaining + 1, current => do
    let window : Window :=
      ⟨padded 4 current.year ++ padded 2 current.month, max start current, min last (monthLast current)⟩
    if remaining = 0 then
      return [window]
    else
      let next ← orRaise (Date.ofFields? (current.year + if current.month = 12 then 1 else 0) (current.month % 12 + 1) 1)
        .unreadable
      let rest ← windowsFrom start last remaining next
      return window :: rest

/-- `_windows`. -/
def windows (start last : Date) : Except Refusal (List Window) := do
  let count := Date.months start last
  require (count ≤ maxMonths) "Market monthly request exceeds execution budget"
  windowsFrom start last count.toNat (monthStart start)

/-! ### The resource and the check of a window -/

/-- A month of the yields. -/
structure TreasuryResource where
  month : String
deriving DecidableEq

/-- `TreasuryResource.__post_init__`. -/
def TreasuryResource.ofMonth (month : String) : Except Refusal TreasuryResource := do
  let text := month.toList
  require (text.length = 6 ∧ isDigits text = true) "Treasury month must be YYYYMM"
  require (Date.ofFields? (digitsNumber (text.take 4)) (digitsNumber (text.drop 4)) 1 ≠ none) "Invalid Treasury month"
  return ⟨month⟩

/-- The checks of `normalize_treasury` that are about the month. -/
def treasuryMonth (month : Option String) (requestedStart requestedEnd : Date) : Except Refusal Unit := do
  let month ← orRaise (month.filter fun month => month.toList.length = 6 ∧ isDigits month.toList = true)
    (.valueError "Explicit Treasury YYYYMM resource required")
  let _ ← isoDate (month.toList.take 4 ++ ['-'] ++ month.toList.drop 4 ++ ['-', '0', '1'])
  require (∀ value ∈ [requestedStart, requestedEnd], strftimeMonth value = month)
    "Selection must lie within the explicit Treasury resource month"

/-- The resources that are asked for, each with the days of its window, as the pipeline makes them in turn. -/
def treasuryRequests (start last : Date) : Except Refusal (List (TreasuryResource × Date × Date)) := do
  let windows ← windows start last
  windows.mapM fun window => do
    let resource ← TreasuryResource.ofMonth window.key
    return (resource, window.start, window.end)


/-! ### What the windows are -/

section

variable {start last current next : Date} {w : Window} {month : List Char}

/-- A month is written with four digits for the year and two for itself. -/
theorem strftimeMonth_parts (d : Date) :
    (strftimeMonth d).toList.length = 6 ∧ isDigits (strftimeMonth d).toList = true ∧
      digitsNumber ((strftimeMonth d).toList.take 4) = d.year ∧ digitsNumber ((strftimeMonth d).toList.drop 4) = d.month := by
  obtain ⟨hyearLength, hyearDigits, hyear⟩ := padded_digits 4 d.year (by decide) (by have := d.inYears; omega)
  obtain ⟨hmonthLength, hmonthDigits, hmonth⟩ := padded_digits 2 d.month (by decide) (by have := d.inMonths; omega)
  have htext : (strftimeMonth d).toList = (padded 4 d.year).toList ++ (padded 2 d.month).toList := String.toList_append
  have hlength : (strftimeMonth d).toList.length = 6 := by rw [htext, List.length_append, hyearLength, hmonthLength]
  have hdigits : (strftimeMonth d).toList.all Char.isDigit = true := by
    rw [htext, List.all_append, List.all_eq_true.mpr hyearDigits, List.all_eq_true.mpr hmonthDigits]
    rfl
  refine ⟨hlength, ?_, ?_, ?_⟩
  · have hne : (strftimeMonth d).toList ≠ [] := List.ne_nil_of_length_pos (by omega)
    simp only [isDigits, Bool.and_eq_true, decide_eq_true_eq]
    exact ⟨hne, hdigits⟩
  · rw [htext, List.take_left' hyearLength, hyear]
  · rw [htext, List.drop_left' hyearLength, hmonth]

/-- A month that is written out can be asked for. -/
theorem ofMonth_strftimeMonth (d : Date) : TreasuryResource.ofMonth (strftimeMonth d) = .ok ⟨strftimeMonth d⟩ := by
  obtain ⟨hlength, hdigits, hyear, hmonth⟩ := strftimeMonth_parts d
  have hdate : Date.ofFields? d.year d.month 1 = some (monthStart d) := Date.ofFields?_eq_some.mpr ⟨rfl, rfl, rfl⟩
  simp only [TreasuryResource.ofMonth, require, hlength, hdigits, hyear, hmonth, hdate]
  rfl

/-- The first day of a month that is written out is read back. -/
theorem isoDate_month (hlength : month.length = 6) (hdigits : isDigits month = true) :
    isoDate (month.take 4 ++ ['-'] ++ month.drop 4 ++ ['-', '0', '1']) =
      orRaise (Date.ofFields? (digitsNumber (month.take 4)) (digitsNumber (month.drop 4)) 1) .unreadable := by
  match month, hlength with
  | [y₁, y₂, y₃, y₄, m₁, m₂], _ =>
    have hall : isDigits [y₁, y₂, y₃, y₄, m₁, m₂, '0', '1'] = true := by
      simp only [isDigits, List.all_cons, List.all_nil, Bool.and_eq_true] at hdigits ⊢
      obtain ⟨-, hy₁, hy₂, hy₃, hy₄, hm₁, hm₂, -⟩ := hdigits
      exact ⟨rfl, hy₁, hy₂, hy₃, hy₄, hm₁, hm₂, rfl, rfl, trivial⟩
    have hday : digitsNumber ['0', '1'] = 1 := rfl
    simp [isoDate, hall, hday]

/-- Days of one month pass the check of that month. -/
theorem treasuryMonth_strftimeMonth {d requestedStart requestedEnd : Date} (hstart : strftimeMonth requestedStart = strftimeMonth d)
    (hend : strftimeMonth requestedEnd = strftimeMonth d) : treasuryMonth (some (strftimeMonth d)) requestedStart requestedEnd = .ok () := by
  obtain ⟨hlength, hdigits, hyear, hmonth⟩ := strftimeMonth_parts d
  have hdate : Date.ofFields? d.year d.month 1 = some (monthStart d) := Date.ofFields?_eq_some.mpr ⟨rfl, rfl, rfl⟩
  have hread := isoDate_month hlength hdigits
  rw [hyear, hmonth, hdate] at hread
  have hpinned : (some (strftimeMonth d)).filter (fun month => month.toList.length = 6 ∧ isDigits month.toList = true) =
      some (strftimeMonth d) := by
    rw [Option.filter_some, decide_eq_true ⟨hlength, hdigits⟩, if_pos rfl]
  have hmonths : ∀ value ∈ [requestedStart, requestedEnd], strftimeMonth value = strftimeMonth d := by simp [hstart, hend]
  exact bind_eq_ok.mpr ⟨strftimeMonth d, orRaise_eq_ok.mpr hpinned, bind_eq_ok.mpr ⟨monthStart d, hread, require_eq_ok.mpr hmonths⟩⟩

/-! ### The windows of a request -/

/-- The last day of a month is followed by the first day of the next one. -/
theorem addDay_monthLast {d next : Date} (h : Date.ofFields? (d.year + if d.month = 12 then 1 else 0) (d.month % 12 + 1) 1 = some next) :
    (monthLast d).addDay = some next := by
  obtain ⟨hyear, hmonth, hday⟩ := Date.ofFields?_eq_some.mp h
  have hmonths := d.inMonths
  have hyears := next.inYears
  have hlast : ¬ (monthLast d).day < monthLength (monthLast d).year (monthLast d).month := lt_irrefl _
  rw [Date.addDay, dif_neg hlast]
  by_cases hdecember : d.month = 12
  · have hyear' : (monthLast d).year < 9999 := by
      rw [hyear, if_pos hdecember] at hyears
      exact Nat.lt_of_succ_le hyears.2
    rw [dif_neg (by simp [monthLast, hdecember]), dif_pos hyear']
    congr 1
    apply Date.fields_injective
    simp [Date.fields, monthLast, hyear, hmonth, hday, hdecember]
  · rw [dif_pos (show (monthLast d).month < 12 from lt_of_le_of_ne hmonths.2 hdecember)]
    congr 1
    apply Date.fields_injective
    have hmod : d.month % 12 = d.month := Nat.mod_eq_of_lt (lt_of_le_of_ne hmonths.2 hdecember)
    simp [Date.fields, monthLast, hyear, hmonth, hday, hdecember, hmod]

/-- A date is covered by the one after it, and by no other. -/
theorem covBy_iff_addDay {d next : Date} : d ⋖ next ↔ d.addDay = some next := by
  have hcovers : ∀ {next}, d.addDay = some next → d ⋖ next := by
    intro next h
    have hord := Date.toOrdinal_addDay h
    refine ⟨Date.toOrdinal_lt.mp (by omega), fun between hlow hhigh => ?_⟩
    have := Date.toOrdinal_lt.mpr hlow
    have := Date.toOrdinal_lt.mpr hhigh
    omega
  refine ⟨fun h => ?_, hcovers⟩
  obtain ⟨next', hnext'⟩ := Date.addDay_isSome h.1
  rw [hnext', h.unique_right (hcovers hnext')]

/-- A window lies in the month of its key. -/
structure Window.InMonth (w : Window) : Prop where
  start : strftimeMonth w.start = w.key
  «end» : strftimeMonth w.end = w.key
  year : w.start.year = w.end.year
  month : w.start.month = w.end.month

/-- Days of the month of a date are written as it is. -/
theorem strftimeMonth_congr {d e : Date} (hyear : d.year = e.year) (hmonth : d.month = e.month) : strftimeMonth d = strftimeMonth e := by
  rw [strftimeMonth, strftimeMonth, hyear, hmonth]

/-- The days between the first and the last one of a month are of that month. -/
theorem month_of_between {d e : Date} (hfirst : monthStart d ≤ e) (hlast : e ≤ monthLast d) : e.year = d.year ∧ e.month = d.month := by
  rw [Date.le_iff] at hfirst hlast
  simp only [monthStart, monthLast] at hfirst hlast
  omega

/-- The window of a month, cut to the days of a request that it has some of. -/
theorem inMonth_of_current {current start last : Date} (hday : current.day = 1) (hstart : start ≤ monthLast current)
    (hlast : current ≤ last) (hle : start ≤ last) :
    let w : Window := ⟨strftimeMonth current, max start current, min last (monthLast current)⟩
    w.InMonth ∧ w.start ≤ w.end := by
  have hcurrent : monthStart current = current := Date.fields_injective (by simp [Date.fields, monthStart, hday])
  have hends : current ≤ monthLast current := by
    rw [Date.le_iff]
    exact .inr ⟨rfl, .inr ⟨rfl, current.inDays.2⟩⟩
  obtain ⟨hyear, hmonth⟩ := month_of_between (d := current) (e := max start current) (hcurrent.le.trans (le_max_right _ _)) (max_le hstart hends)
  obtain ⟨hyear', hmonth'⟩ := month_of_between (d := current) (e := min last (monthLast current)) (hcurrent.le.trans (le_min hlast hends)) (min_le_right _ _)
  exact ⟨⟨strftimeMonth_congr hyear hmonth, strftimeMonth_congr hyear' hmonth', hyear.trans hyear'.symm, hmonth.trans hmonth'.symm⟩,
    max_le (le_min hle hstart) (le_min hlast hends)⟩

/-- The days of a window. -/
def Window.days (w : Window) : Date × Date := (w.start, w.end)

/-- The loop tiles what is left of the request with windows of single months. -/
theorem windowsFrom_tiles {start last : Date} (hle : start ≤ last) (remaining : ℕ) :
    ∀ {current : Date}, current.day = 1 → current ≤ last → start ≤ monthLast current →
      Date.months current last = (remaining + 1 : ℕ) →
      ∃ found, windowsFrom start last (remaining + 1) current = .ok found ∧
        Tiles (max start current) last (found.map Window.days) ∧ ∀ w ∈ found, w.InMonth := by
  induction remaining with
  | zero =>
    intro current hday hcurrent hstart hmonths
    obtain ⟨hin, hspread⟩ := inMonth_of_current hday hstart hcurrent hle
    -- the request ends in the month that is left
    have hends : last ≤ monthLast current := by
      have := last.inMonths
      have := current.inMonths
      have := last.inDays.2
      rw [Date.le_iff] at hcurrent ⊢
      simp only [Date.months, monthLast] at hmonths ⊢
      obtain ⟨hyear, hmonth⟩ : last.year = current.year ∧ last.month = current.month := by omega
      rw [← hyear, ← hmonth]
      omega
    have hlast : min last (monthLast current) = last := min_eq_left hends
    refine ⟨[_], rfl, ?_, List.forall_mem_singleton.mpr hin⟩
    simp only [List.map_cons, List.map_nil, Window.days, hlast] at hspread ⊢
    exact .single hspread
  | succ remaining ih =>
    intro current hday hcurrent hstart hmonths
    obtain ⟨hin, hspread⟩ := inMonth_of_current hday hstart hcurrent hle
    obtain ⟨next, hnext⟩ : ∃ next, Date.ofFields? (current.year + if current.month = 12 then 1 else 0) (current.month % 12 + 1) 1 = some next := by
      have := last.inMonths
      have := last.inYears
      have := current.inMonths
      have := current.inYears
      unfold Date.months at hmonths
      have hmonth : 1 ≤ current.month % 12 + 1 ∧ current.month % 12 + 1 ≤ 12 := by omega
      have hyear : 1 ≤ current.year + (if current.month = 12 then 1 else 0) ∧ current.year + (if current.month = 12 then 1 else 0) ≤ 9999 := by
        split_ifs <;> omega
      have hlength := (monthLength_bounds (current.year + if current.month = 12 then 1 else 0) (current.month % 12 + 1)).1
      rw [Date.ofFields?, dif_pos ⟨hyear, hmonth, le_refl _, by omega⟩]
      exact ⟨_, rfl⟩
    have hcovers : monthLast current ⋖ next := covBy_iff_addDay.mpr (addDay_monthLast hnext)
    obtain ⟨hyear, hmonth, hfirst⟩ := Date.ofFields?_eq_some.mp hnext
    have hleft : Date.months next last = (remaining + 1 : ℕ) := by
      have := current.inMonths
      unfold Date.months at hmonths ⊢
      rw [hyear, hmonth]
      split_ifs <;> push_cast <;> omega
    have hnextLast : next ≤ last := by
      have := last.inMonths
      have := next.inMonths
      have := last.inDays.1
      unfold Date.months at hleft
      rw [Date.le_iff, hfirst]
      omega
    have hnextEnd : next ≤ monthLast next := by
      rw [Date.le_iff]
      exact .inr ⟨rfl, .inr ⟨rfl, next.inDays.2⟩⟩
    obtain ⟨found, hfound, htiles, hmonthly⟩ := ih hfirst hnextLast (hstart.trans (hcovers.1.le.trans hnextEnd)) hleft
    have hend : min last (monthLast current) = monthLast current := min_eq_right (hcovers.1.le.trans hnextLast)
    have hbegin : max start next = next := max_eq_right (hstart.trans hcovers.1.le)
    rw [hbegin] at htiles
    simp only [hend] at hspread
    refine ⟨⟨strftimeMonth current, max start current, min last (monthLast current)⟩ :: found, ?_, ?_, List.forall_mem_cons.mpr ⟨hin, hmonthly⟩⟩
    · rw [windowsFrom]
      simp only [Nat.add_one_ne_zero, if_false, hnext, orRaise]
      change (windowsFrom start last (remaining + 1) next >>= _) = _
      rw [hfound]
      rfl
    · simp only [List.map_cons, Window.days, hend]
      exact .cons hspread hcovers htiles

/-- The first day of the month of a request. -/
theorem months_monthStart (start last : Date) : Date.months (monthStart start) last = Date.months start last := rfl

/-- The windows of a request of few enough months tile it; a request of more months is refused. -/
theorem windows_cases {start last : Date} (hle : start ≤ last) :
    (Date.months start last ≤ maxMonths ∧
        ∃ found, windows start last = .ok found ∧ Tiles start last (found.map Window.days) ∧ ∀ w ∈ found, w.InMonth) ∨
      ¬ Date.months start last ≤ maxMonths ∧ windows start last = refuse "Market monthly request exceeds execution budget" := by
  have hstart : monthStart start ≤ start := by
    rw [Date.le_iff]
    exact .inr ⟨rfl, .inr ⟨rfl, start.inDays.1⟩⟩
  have hend : start ≤ monthLast (monthStart start) := by
    rw [Date.le_iff]
    exact .inr ⟨rfl, .inr ⟨rfl, start.inDays.2⟩⟩
  by_cases hfew : Date.months start last ≤ maxMonths
  · refine .inl ⟨hfew, ?_⟩
    obtain ⟨remaining, hremaining⟩ : ∃ remaining : ℕ, Date.months start last = (remaining + 1 : ℕ) := by
      have hpositive : 1 ≤ Date.months start last := by
        have := start.inMonths
        have := last.inMonths
        rw [Date.le_iff] at hle
        unfold Date.months
        omega
      exact ⟨(Date.months start last - 1).toNat, by omega⟩
    obtain ⟨found, hfound, htiles, hmonthly⟩ := windowsFrom_tiles hle remaining rfl (hstart.trans hle) hend hremaining
    rw [max_eq_left hstart] at htiles
    refine ⟨found, ?_, htiles, hmonthly⟩
    exact bind_eq_ok.mpr ⟨(), require_eq_ok.mpr hfew, by rw [hremaining, Int.toNat_natCast]; exact hfound⟩
  · refine .inr ⟨hfew, ?_⟩
    simp only [windows, require, if_neg hfew]
    rfl

/-- What is asked for in turn is the window of each month, with the resource of its key. -/
theorem treasuryRequests_eq {found : List Window} (hfound : windows start last = .ok found) (hmonthly : ∀ w ∈ found, w.InMonth) :
    treasuryRequests start last = .ok (found.map fun w => (⟨w.key⟩, w.start, w.end)) := by
  refine bind_eq_ok.mpr ⟨found, hfound, ?_⟩
  clear hfound
  induction found with
  | nil => rfl
  | cons w found ih =>
    obtain ⟨hw, hrest⟩ := List.forall_mem_cons.mp hmonthly
    have hresource : TreasuryResource.ofMonth w.key = .ok ⟨w.key⟩ := by rw [← hw.start, ofMonth_strftimeMonth]
    rw [List.mapM_cons, hresource, ih hrest]
    rfl

/-- The windows of a request that does not touch too many months begin and end where it does, each begins on the day
after the one before it, and each lies in the month that its key names and passes the check of that month; every
resource can be asked for, and each day of the request is in exactly one window. A request of more months is refused. -/
theorem windows_tile_request {start last : Date} (hle : start ≤ last) :
    (Date.months start last ≤ maxMonths → ∃ found, windows start last = .ok found ∧
      found.head?.map (·.start) = some start ∧ found.getLast?.map (·.end) = some last ∧
      found.IsChain (fun w next => w.end.addDay = some next.start) ∧
      (∀ w ∈ found, w.start ≤ w.end ∧ w.InMonth ∧ treasuryMonth (some w.key) w.start w.end = .ok ()) ∧
      treasuryRequests start last = .ok (found.map fun w => (⟨w.key⟩, w.start, w.end)) ∧
      ∀ day, found.countP (fun w => w.start ≤ day ∧ day ≤ w.end) = if start ≤ day ∧ day ≤ last then 1 else 0) ∧
    (¬ Date.months start last ≤ maxMonths →
      windows start last = refuse "Market monthly request exceeds execution budget") := by
  obtain ⟨hfew, found, hfound, htiles, hmonthly⟩ | ⟨hmany, hrefused⟩ := windows_cases hle
  · refine ⟨fun _ => ?_, fun hmany => absurd hfew hmany⟩
    refine ⟨found, hfound, ?_, ?_, ?_, fun w hw => ⟨?_, hmonthly w hw, ?_⟩, treasuryRequests_eq hfound hmonthly, fun day => ?_⟩
    · simpa [Window.days] using htiles.fst_head
    · simpa [Window.days] using htiles.snd_getLast
    · exact ((List.isChain_map _).mp htiles.isChain).imp fun _ _ => covBy_iff_addDay.mp
    · exact htiles.fst_le_snd _ (List.mem_map_of_mem hw)
    · have hin := hmonthly w hw
      rw [← hin.start]
      exact treasuryMonth_strftimeMonth rfl (hin.end.trans hin.start.symm)
    · have hcount := htiles.countP_mem (x := day)
      rw [List.countP_map] at hcount
      exact hcount
  · exact ⟨fun hfew => absurd hfew hmany, fun _ => hrefused⟩

/-- A request up to the last day of the calendar is tiled, from the last day of a month on. -/
theorem windows_tile_last_month :
    ∃ found, windows ⟨9999, 11, 30, by decide, by decide, by decide⟩ ⟨9999, 12, 31, by decide, by decide, by decide⟩ = .ok found ∧
      (found.countP fun w => w.start ≤ (⟨9999, 12, 1, by decide, by decide, by decide⟩ : Date) ∧ ⟨9999, 12, 1, by decide, by decide, by decide⟩ ≤ w.end) = 1 := by
  have h := (@windows_tile_request ⟨9999, 11, 30, by decide, by decide, by decide⟩
    ⟨9999, 12, 31, by decide, by decide, by decide⟩ (by decide)).1 (by norm_num [Date.months, maxMonths])
  obtain ⟨found, hfound, -, -, -, -, -, hdays⟩ := h
  exact ⟨found, hfound, (hdays _).trans (if_pos ⟨by decide, by decide⟩)⟩

end

end EquityEval.Market
