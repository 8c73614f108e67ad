import EquityEval.Arithmetic.Exact
import EquityEval.Arithmetic.Interpolation
import EquityEval.Fundamentals.Bands

/-!
# Quantiles of a history

A quantile interpolates at a precision that keeps every digit of its two entries, so it is the exact
interpolation. The three quantiles of sorted values are ordered, and a value is compared with exact bounds.
-/

namespace EquityEval.Fundamentals

open DecimalArithmetic Gregorian Interpolation
open Discovery (sortedSet)
open Vintage (hasText)

/-- `sys.maxsize`: no list is longer. -/
def maxsize : ℕ := 2 ^ 63 - 1

/-- The proportions of the quantiles of a band. -/
def quantileProportions : List Decimal := [⟨false, 25, -2⟩, ⟨false, 5, -1⟩, ⟨false, 75, -2⟩]

/-- Where a value lies in its own history. -/
inductive HistoryRelation where
  | below
  | within
  | above
deriving DecidableEq, Repr

/-- A value beside a band. -/
structure HistoryComparison where
  relation : Option HistoryRelation
  value : Option Decimal
  inputHash : String
  seriesKey : String
  band : HistoryBand
  flags : List String

/-- What keeps a value from being compared with a band. -/
def comparisonReasons (value : Option Number) (band : HistoryBand) (seriesKey inputHash : String) (flags : List String) :
    List String :=
  flags ++ band.flags ++ flagIf (seriesKey ≠ band.seriesKey) "incompatible_series" ++
    flagIf (hasText inputHash = false) "missing_lineage" ++ valueReasons value ++
    flagIf (band.p25 = none ∨ band.p75 = none) "comparison_unavailable"

/-- `compare_to_history`; nothing where it raises. -/
def compareToHistory (value : Option Number) (band : HistoryBand) (seriesKey inputHash : String) (flags : List String) :
    Option HistoryComparison :=
  let reasons := comparisonReasons value band seriesKey inputHash flags
  let finite := value.bind (·.decimal?)
  if ∀ flag ∈ flags, hasText flag = true then
    if reasons ≠ [] then some ⟨none, finite, inputHash, seriesKey, band, sortedSet reasons⟩
    else do
      let d ← finite
      let p25 ← band.p25
      let p75 ← band.p75
      some ⟨some (if d < p25 then .below else if p75 < d then .above else .within), finite, inputHash, seriesKey, band, []⟩
  else none

/-! ### Exactness -/

/-- The whole part of a number that is not negative. -/
theorem truncate_eq_floor {d : Decimal} (h : 0 ≤ d.value) : truncate d = ⌊d.value⌋ := by
  have hsigned : 0 ≤ d.signed := by
    have hpos : (0 : ℚ) < (10 : ℚ) ^ d.exponent := zpow_pos (by norm_num) _
    exact_mod_cast nonneg_of_mul_nonneg_left h hpos
  rw [truncate]
  split
  case isTrue hexponent =>
    have hvalue : d.value = ((d.signed * 10 ^ d.exponent.toNat : ℤ) : ℚ) := by
      rw [Decimal.value]
      push_cast
      rw [← zpow_natCast, Int.toNat_of_nonneg hexponent]
    rw [hvalue, Int.floor_intCast]
  case isFalse hexponent =>
    have hvalue : d.value = (d.signed : ℚ) / ((10 ^ (-d.exponent).toNat : ℕ) : ℚ) := by
      rw [Decimal.value, div_eq_mul_inv]
      push_cast
      rw [← zpow_natCast, Int.toNat_of_nonneg (by omega), ← zpow_neg, neg_neg]
    rw [Int.tdiv_eq_ediv_of_nonneg hsigned, hvalue, Rat.floor_intCast_div_natCast]
    push_cast
    rfl

/-- The context that weighs two entries. -/
def weighing (left right : Decimal) : Context :=
  ⟨(max 50 (max left.adjusted right.adjusted - min left.exponent right.exponent + 4)).toNat, .halfEven, -999999, 999999⟩

/-- The context that weighs two entries has room for every digit of them, and for four more. -/
theorem prec_weighing (left right : Decimal) : 50 ≤ (weighing left right).prec ∧
    max left.adjusted right.adjusted - min left.exponent right.exponent + 4 ≤ (weighing left right).prec := by
  simp only [weighing]
  omega

/-- A share of a whole in hundredths. -/
structure Share (w : Decimal) : Prop where
  nonneg : 0 ≤ w.value
  le_one : w.value ≤ 1
  hundredths : ∃ m : ℤ, w.value = m * (10 : ℚ) ^ (-2 : ℤ)

/-- A number of quarters is a share. -/
theorem Share.of_quarters {w : Decimal} {n : ℕ} (hn : n ≤ 4) (h : w.value = n / 4) : Share w := by
  have hfour : (n : ℚ) ≤ 4 := by exact_mod_cast hn
  refine ⟨by rw [h]; positivity, by rw [h]; linarith, 25 * n, ?_⟩
  rw [h]
  push_cast
  norm_num
  ring

/-- The rest of a share is a share. -/
theorem Share.rest {w r : Decimal} (h : Share w) (hr : r.value = 1 - w.value) : Share r := by
  obtain ⟨m, hm⟩ := h.hundredths
  refine ⟨by linarith [h.le_one], by linarith [h.nonneg], 100 - m, ?_⟩
  rw [hr, hm]
  push_cast
  norm_num
  ring

/-- Any context of a band represents a share. -/
theorem Share.representable {w : Decimal} (h : Share w) {ctx : Context} (hprec : 50 ≤ ctx.prec) (hEmin : ctx.Emin = -999999) :
    ctx.Representable w.value := by
  obtain ⟨m, hm⟩ := h.hundredths
  refine Context.representable_of_lt ?_ hm (?_ : |w.value| < (10 : ℚ) ^ (1 : ℤ)) (by omega)
  · rw [Context.etiny]
    omega
  · rw [abs_of_nonneg h.nonneg]
    exact h.le_one.trans_lt (by norm_num)

/-- A share of an entry ends at most two digits after it. -/
theorem Share.mul {w d : Decimal} (h : Share w) {k : ℤ} (hk : k ≤ d.exponent) :
    ∃ m : ℤ, d.value * w.value = m * (10 : ℚ) ^ (k - 2) := by
  obtain ⟨m, hm⟩ := h.hundredths
  obtain ⟨n, hn⟩ := d.exists_scaled hk
  refine ⟨n * m, ?_⟩
  rw [hm, hn, sub_eq_add_neg, zpow_add₀ (by norm_num)]
  push_cast
  ring

/-- A share of an entry is no larger than the entry. -/
theorem Share.abs_mul_le {w d : Decimal} (h : Share w) : |d.value * w.value| ≤ |d.value| := by
  rw [abs_mul, abs_of_nonneg h.nonneg]
  exact mul_le_of_le_one_right (abs_nonneg _) h.le_one

/-- The traps of a band. -/
def losing : Traps := { inexact := true }

section Weighing

variable {left right w : Decimal}

/-- A context that weighs two entries represents what ends two digits after both and is no larger than both. -/
theorem representable_weighing (hleft : WithinNumericLimits left) (hright : WithinNumericLimits right) {z : ℚ} {m k : ℤ}
    (hk : min left.exponent right.exponent - 2 ≤ k) (hz : z = m * (10 : ℚ) ^ k)
    (hlt : |z| < (10 : ℚ) ^ (max left.adjusted right.adjusted + 1)) :
    (weighing left right).Representable z ∧ |z| < (10 : ℚ) ^ ((weighing left right).Emax + 1) := by
  obtain ⟨-, hle, hla⟩ := hleft
  obtain ⟨-, hre, hra⟩ := hright
  have hprec := prec_weighing left right
  have hEmin : (weighing left right).Emin = -999999 := rfl
  have hEmax : (weighing left right).Emax = 999999 := rfl
  refine ⟨Context.representable_of_lt ?_ hz hlt (by omega), hlt.trans_le (zpow_le_zpow_right₀ (by norm_num) (by omega))⟩
  rw [Context.etiny]
  omega

/-- An entry lies below the power of ten after the leading digits of both. -/
theorem abs_value_lt_weighing (d : Decimal) (h : d = left ∨ d = right) :
    |d.value| < (10 : ℚ) ^ (max left.adjusted right.adjusted + 1) := by
  have hle : d.adjusted ≤ max left.adjusted right.adjusted := by
    rcases h with rfl | rfl
    · exact le_max_left _ _
    · exact le_max_right _ _
  exact d.abs_value_lt.trans_le (zpow_le_zpow_right₀ (by norm_num) (by omega))

/-- The share of an entry is computed exactly. -/
theorem mul?_weighing (hleft : WithinNumericLimits left) (hright : WithinNumericLimits right) (hw : Share w) {d : Decimal}
    (hd : d = left ∨ d = right) :
    ∃ r, (weighing left right).mul? losing d w = some r ∧ r.value = d.value * w.value := by
  have hexponent : min left.exponent right.exponent ≤ d.exponent := by
    rcases hd with rfl | rfl
    · exact min_le_left _ _
    · exact min_le_right _ _
  obtain ⟨m, hm⟩ := hw.mul hexponent
  obtain ⟨hrep, hrange⟩ := representable_weighing hleft hright le_rfl hm (hw.abs_mul_le.trans_lt (abs_value_lt_weighing d hd))
  exact Context.mul?_of_representable rfl (by have := (prec_weighing left right).1; omega) hrep hrange

/-- Two entries are weighed exactly. -/
theorem weigh_exact (hleft : WithinNumericLimits left) (hright : WithinNumericLimits right) (hw : Share w) :
    ∃ r, (((weighing left right).sub? losing (.ofInt 1) w).bind ((weighing left right).mul? losing left)).bind (fun a =>
        ((weighing left right).mul? losing right w).bind ((weighing left right).add? losing a)) = some r ∧
      r.value = left.value * (1 - w.value) + right.value * w.value := by
  have hprec := (prec_weighing left right).1
  have hpos : 0 < (weighing left right).prec := by omega
  -- the rest of the share
  have hrest : ∃ r, (weighing left right).sub? losing (.ofInt 1) w = some r ∧ r.value = 1 - w.value := by
    have hvalue : (Decimal.ofInt 1).value - w.value = 1 - w.value := by rw [Decimal.value_ofInt, Int.cast_one]
    obtain ⟨m, hm⟩ := hw.hundredths
    have hz : 1 - w.value = ((100 - m : ℤ) : ℚ) * (10 : ℚ) ^ (-2 : ℤ) := by
      rw [hm]
      push_cast
      norm_num
      ring
    have hlt : |1 - w.value| < (10 : ℚ) ^ (1 : ℤ) := by
      rw [abs_of_nonneg (sub_nonneg.mpr hw.le_one)]
      linarith [hw.nonneg]
    rw [← hvalue] at hz hlt ⊢
    refine Context.sub?_of_representable rfl hpos (Context.representable_of_lt ?_ hz hlt (by omega))
      (hlt.trans_le (zpow_le_zpow_right₀ (by norm_num) ?_))
    · have hEmin : (weighing left right).Emin = -999999 := rfl
      rw [Context.etiny]
      omega
    · have hEmax : (weighing left right).Emax = 999999 := rfl
      omega
  obtain ⟨rest, hsub, hrestValue⟩ := hrest
  obtain ⟨a, ha, hav⟩ := mul?_weighing hleft hright (hw.rest hrestValue) (Or.inl rfl)
  obtain ⟨b, hb, hbv⟩ := mul?_weighing hleft hright hw (Or.inr rfl)
  -- the sum lies between the entries
  have hsum : ∃ r, (weighing left right).add? losing a b = some r ∧ r.value = a.value + b.value := by
    obtain ⟨m, hm⟩ := (hw.rest hrestValue).mul (min_le_left left.exponent right.exponent)
    obtain ⟨n, hn⟩ := hw.mul (min_le_right left.exponent right.exponent)
    have hz : a.value + b.value = ((m + n : ℤ) : ℚ) * (10 : ℚ) ^ (min left.exponent right.exponent - 2) := by
      rw [hav, hbv, hm, hn]
      push_cast
      ring
    have hlt : |a.value + b.value| < (10 : ℚ) ^ (max left.adjusted right.adjusted + 1) := by
      have hl : |left.value| < (10 : ℚ) ^ (max left.adjusted right.adjusted + 1) := abs_value_lt_weighing left (Or.inl rfl)
      have hr : |right.value| < (10 : ℚ) ^ (max left.adjusted right.adjusted + 1) := abs_value_lt_weighing right (Or.inr rfl)
      rw [hav, hbv, hrestValue]
      calc |left.value * (1 - w.value) + right.value * w.value|
          ≤ |left.value| * (1 - w.value) + |right.value| * w.value := by
            refine (abs_add_le _ _).trans (add_le_add ?_ ?_)
            · rw [abs_mul, abs_of_nonneg (sub_nonneg.mpr hw.le_one)]
            · rw [abs_mul, abs_of_nonneg hw.nonneg]
        _ ≤ max |left.value| |right.value| * (1 - w.value) + max |left.value| |right.value| * w.value :=
            add_le_add (mul_le_mul_of_nonneg_right (le_max_left _ _) (sub_nonneg.mpr hw.le_one))
              (mul_le_mul_of_nonneg_right (le_max_right _ _) hw.nonneg)
        _ = max |left.value| |right.value| := by ring
        _ < (10 : ℚ) ^ (max left.adjusted right.adjusted + 1) := max_lt hl hr
    obtain ⟨hrep, hrange⟩ := representable_weighing hleft hright le_rfl hz hlt
    exact Context.add?_of_representable rfl hpos hrep hrange
  obtain ⟨r, hr, hrv⟩ := hsum
  refine ⟨r, ?_, by rw [hrv, hav, hbv, hrestValue]⟩
  simp only [hsub, Option.bind_some, ha, hb, hr]

end Weighing

/-! ### Quantiles -/

section Quantiles

variable {values : List Decimal} {proportion : Decimal}

/-- The position of a quantile in some values. -/
def positionOf (values : List Decimal) (proportion : Decimal) : ℚ := ((values.length : ℚ) - 1) * proportion.value

/-- A quartile is one, two or three quarters. -/
theorem value_quartile (h : proportion ∈ quantileProportions) : ∃ j : ℕ, 0 < j ∧ j < 4 ∧ proportion.value = j / 4 := by
  simp only [quantileProportions, List.mem_cons, List.not_mem_nil, or_false] at h
  rcases h with rfl | rfl | rfl
  · exact ⟨1, by decide, by decide, by norm_num [Decimal.value, Decimal.signed]⟩
  · exact ⟨2, by decide, by decide, by norm_num [Decimal.value, Decimal.signed]⟩
  · exact ⟨3, by decide, by decide, by norm_num [Decimal.value, Decimal.signed]⟩

/-- The position of a quartile is a number of quarters, and lies in the list. -/
theorem positionOf_quartile (hne : values ≠ []) (h : proportion ∈ quantileProportions) :
    ∃ k : ℕ, k ≤ 3 * (values.length - 1) ∧ positionOf values proportion = (k : ℚ) / 4 ∧
      0 ≤ positionOf values proportion ∧ positionOf values proportion ≤ (values.length : ℚ) - 1 := by
  obtain ⟨j, hzero, hfour, hj⟩ := value_quartile h
  have hlength : 1 ≤ values.length := List.length_pos_iff.mpr hne
  have hcast : (values.length : ℚ) - 1 = ((values.length - 1 : ℕ) : ℚ) := by
    push_cast [hlength]
    rfl
  have hposition : positionOf values proportion = (((values.length - 1) * j : ℕ) : ℚ) / 4 := by
    rw [positionOf, hj, hcast]
    push_cast
    ring
  refine ⟨(values.length - 1) * j, ?_, hposition, ?_, ?_⟩
  · rw [mul_comm]
    exact Nat.mul_le_mul_right _ (by omega)
  · rw [hposition]
    positivity
  · rw [positionOf]
    refine mul_le_of_le_one_right (hcast ▸ Nat.cast_nonneg _) ?_
    rw [hj, div_le_one (by norm_num)]
    exact_mod_cast hfour.le

/-- The context in which positions are computed. -/
def positions : Context := ⟨50, .halfEven, -999999, 999999⟩

/-- Positions are computed exactly where they are a number of quarters of a list. -/
theorem representable_quarters {k : ℕ} (hk : k ≤ 3 * maxsize) :
    positions.Representable ((k : ℚ) / 4) ∧ |(k : ℚ) / 4| < (10 : ℚ) ^ (positions.Emax + 1) := by
  have hz : (k : ℚ) / 4 = ((25 * k : ℤ) : ℚ) * (10 : ℚ) ^ (-2 : ℤ) := by
    push_cast
    norm_num
    ring
  have hlt : |(k : ℚ) / 4| < (10 : ℚ) ^ (40 : ℤ) := by
    have hnat : k ≤ 3 * 2 ^ 63 := hk.trans (by decide)
    have hbound : (k : ℚ) ≤ 3 * 2 ^ 63 := by exact_mod_cast hnat
    rw [abs_of_nonneg (by positivity)]
    calc (k : ℚ) / 4 ≤ 3 * 2 ^ 63 / 4 := by linarith
      _ < (10 : ℚ) ^ (40 : ℤ) := by norm_num
  exact ⟨Context.representable_of_lt (by decide) hz hlt (by decide),
    hlt.trans_le (zpow_le_zpow_right₀ (by norm_num) (by decide))⟩

/-- A product that is computed exactly, with no signal trapped. -/
theorem mul_positions {a b : Decimal} {k : ℕ} (hk : k ≤ 3 * maxsize) (h : a.value * b.value = k / 4) :
    ∃ r, positions.mul a b = .ok r ∧ r.value = k / 4 := by
  obtain ⟨hrep, hrange⟩ := representable_quarters hk
  rw [← h] at hrep hrange
  obtain ⟨r, hr, hvalue⟩ : ∃ r, positions.mul? {} a b = some r ∧ r.value = a.value * b.value :=
    Context.mul?_of_representable rfl (by decide) hrep hrange
  exact ⟨r, (Context.settle_eq_some hr).1, hvalue.trans h⟩

/-- A difference that is computed exactly, with no signal trapped. -/
theorem sub_positions {a b : Decimal} {k : ℕ} (hk : k ≤ 3 * maxsize) (h : a.value - b.value = k / 4) :
    ∃ r, positions.sub a b = .ok r ∧ r.value = k / 4 := by
  obtain ⟨hrep, hrange⟩ := representable_quarters hk
  rw [← h] at hrep hrange
  obtain ⟨r, hr, hvalue⟩ : ∃ r, positions.sub? {} a b = some r ∧ r.value = a.value - b.value :=
    Context.sub?_of_representable rfl (by decide) hrep hrange
  exact ⟨r, (Context.settle_eq_some (show positions.add? {} a b.copyNegate = some r from hr)).1, hvalue.trans h⟩

/-- A decimal is zero when its coefficient is. -/
theorem coefficient_eq_zero {d : Decimal} : d.coefficient = 0 ↔ d.value = 0 := by
  rw [← abs_eq_zero, d.abs_value, mul_eq_zero, Nat.cast_eq_zero, or_iff_left (zpow_ne_zero _ (by norm_num))]

/-- A quartile of a list is the exact interpolation at its position. -/
theorem quantile_exact (hne : values ≠ []) (hlength : values.length ≤ maxsize) (hlimits : ∀ v ∈ values, WithinNumericLimits v)
    (hproportion : proportion ∈ quantileProportions) :
    ∃ r, quantile values proportion = some r ∧
      r.value = interpolate (values.map Decimal.value) (positionOf values proportion) := by
  obtain ⟨k, hk, hposition, hnonneg, hle⟩ := positionOf_quartile hne hproportion
  have hkmax : k ≤ 3 * maxsize := hk.trans (Nat.mul_le_mul_left 3 ((Nat.sub_le _ _).trans hlength))
  obtain ⟨position, hmul, hvalue⟩ := mul_positions (a := .ofInt (values.length - 1)) (b := proportion) hkmax (by
    rw [← hposition, positionOf, Decimal.value_ofInt]
    push_cast
    rfl)
  rw [← hposition] at hvalue
  have hlower : truncate position = ⌊positionOf values proportion⌋ := by
    rw [truncate_eq_floor (hvalue ▸ hnonneg), hvalue]
  obtain ⟨weight, hsub, hweight⟩ := sub_positions (a := position) (b := .ofInt (truncate position)) (k := k % 4)
    (by omega) (by
      rw [Decimal.value_ofInt, hlower, hvalue, Int.self_sub_floor, hposition]
      exact_mod_cast Int.fract_div_natCast_eq_div_natCast_mod (k := ℚ) (m := k) (n := 4))
  have hfract : weight.value = Int.fract (positionOf values proportion) := by
    rw [hweight, hposition]
    exact_mod_cast (Int.fract_div_natCast_eq_div_natCast_mod (k := ℚ) (m := k) (n := 4)).symm
  have hfloor : (truncate position).toNat = ⌊positionOf values proportion⌋₊ := by
    rw [hlower, Int.floor_toNat]
  have hentry : ∀ i < values.length, ∃ v ∈ values, values[i]? = some v ∧ (values.map Decimal.value).getD i 0 = v.value := by
    intro i hi
    refine ⟨values.get ⟨i, hi⟩, List.get_mem _ _, List.getElem?_eq_getElem hi, ?_⟩
    rw [List.getD_eq_getElem _ _ (by rwa [List.length_map]), List.getElem_map, List.get_eq_getElem]
  have hinside : ⌊positionOf values proportion⌋₊ + 1 < (values.map Decimal.value).length ∨ Int.fract (positionOf values proportion) = 0 :=
    floor_lt_or_fract (by rwa [List.length_map]) hnonneg
  rw [List.length_map] at hinside
  have hfirst : ⌊positionOf values proportion⌋₊ < values.length := by
    have : (⌊positionOf values proportion⌋₊ : ℚ) < values.length := by linarith [Nat.floor_le hnonneg]
    exact_mod_cast this
  have hstart : quantile values proportion = (do
      let weight ← (positions.sub position (.ofInt (truncate position))).toOption
      if weight.coefficient = 0 then values[(truncate position).toNat]?
      else do
        let left ← values[(truncate position).toNat]?
        let right ← values[(truncate position).toNat + 1]?
        let a ← ((weighing left right).sub? losing (.ofInt 1) weight).bind ((weighing left right).mul? losing left)
        let b ← (weighing left right).mul? losing right weight
        (weighing left right).add? losing a b) := by
    change ((positions.mul (.ofInt (values.length - 1)) proportion).toOption >>= _) = _
    rw [hmul]
    rfl
  obtain ⟨left, hleft, hfound, hleftValue⟩ := hentry _ hfirst
  rw [hstart, hsub, hfloor, hfound]
  by_cases hzero : weight.coefficient = 0
  -- on an entry
  · refine ⟨left, if_pos hzero, ?_⟩
    rw [interpolate, ← hfract, coefficient_eq_zero.mp hzero, hleftValue]
    ring
  -- between two entries
  · have hnext := hinside.resolve_right (by rwa [← hfract, ← coefficient_eq_zero])
    obtain ⟨right, hright, hfoundNext, hrightValue⟩ := hentry _ hnext
    obtain ⟨r, hr, hrv⟩ := weigh_exact (hlimits _ hleft) (hlimits _ hright) (Share.of_quarters (by omega) hweight)
    refine ⟨r, ?_, ?_⟩
    · refine (if_neg hzero).trans ?_
      rw [hfoundNext]
      exact hr
    · rw [hrv, interpolate, ← hfract, hleftValue, hrightValue]

/-- Sorted values have sorted numbers. -/
theorem pairwise_values (h : values.Pairwise (· ≤ ·)) : (values.map Decimal.value).Pairwise (· ≤ ·) :=
  List.pairwise_map.mpr h

/-- The quartiles of sorted values are exact, and ordered between the smallest and the largest one. -/
theorem quantiles_ordered (hne : values ≠ []) (hlength : values.length ≤ maxsize)
    (hlimits : ∀ v ∈ values, WithinNumericLimits v) (hsorted : values.Pairwise (· ≤ ·)) :
    ∃ p25 p50 p75, quantile values ⟨false, 25, -2⟩ = some p25 ∧ quantile values ⟨false, 5, -1⟩ = some p50 ∧
      quantile values ⟨false, 75, -2⟩ = some p75 ∧
      p25.value = interpolate (values.map Decimal.value) (((values.length : ℚ) - 1) * (1 / 4)) ∧
      p50.value = interpolate (values.map Decimal.value) (((values.length : ℚ) - 1) * (1 / 2)) ∧
      p75.value = interpolate (values.map Decimal.value) (((values.length : ℚ) - 1) * (3 / 4)) ∧
      values.head hne ≤ p25 ∧ p25 ≤ p50 ∧ p50 ≤ p75 ∧ p75 ≤ values.getLast hne := by
  have hquarter : (⟨false, 25, -2⟩ : Decimal) ∈ quantileProportions ∧ (⟨false, 25, -2⟩ : Decimal).value = 1 / 4 :=
    ⟨by decide, by norm_num [Decimal.value, Decimal.signed]⟩
  have hhalf : (⟨false, 5, -1⟩ : Decimal) ∈ quantileProportions ∧ (⟨false, 5, -1⟩ : Decimal).value = 1 / 2 :=
    ⟨by decide, by norm_num [Decimal.value, Decimal.signed]⟩
  have hthree : (⟨false, 75, -2⟩ : Decimal) ∈ quantileProportions ∧ (⟨false, 75, -2⟩ : Decimal).value = 3 / 4 :=
    ⟨by decide, by norm_num [Decimal.value, Decimal.signed]⟩
  obtain ⟨p25, h25, hv25⟩ := quantile_exact hne hlength hlimits hquarter.1
  obtain ⟨p50, h50, hv50⟩ := quantile_exact hne hlength hlimits hhalf.1
  obtain ⟨p75, h75, hv75⟩ := quantile_exact hne hlength hlimits hthree.1
  rw [positionOf, hquarter.2] at hv25
  rw [positionOf, hhalf.2] at hv50
  rw [positionOf, hthree.2] at hv75
  have hpositive : 0 < values.length := List.length_pos_iff.mpr hne
  have hlast : ((values.map Decimal.value).length : ℚ) - 1 = ((values.length - 1 : ℕ) : ℚ) := by
    rw [List.length_map]
    push_cast [hpositive]
    rfl
  have hnonneg : (0 : ℚ) ≤ (values.length : ℚ) - 1 := by
    rw [← List.length_map Decimal.value, hlast]
    exact Nat.cast_nonneg _
  have hmono : ∀ {s t : ℚ}, 0 ≤ s → s ≤ t → t ≤ (values.length : ℚ) - 1 →
      interpolate (values.map Decimal.value) s ≤ interpolate (values.map Decimal.value) t := by
    intro s t hs hst ht
    exact interpolate_mono (pairwise_values hsorted) hs hst (by rwa [List.length_map])
  have hhead : (values.head hne).value = interpolate (values.map Decimal.value) ((0 : ℕ) : ℚ) := by
    rw [interpolate_natCast, List.getD_eq_getElem _ _ (by rwa [List.length_map]), List.getElem_map, List.head_eq_getElem]
  have hend : (values.getLast hne).value = interpolate (values.map Decimal.value) ((values.length - 1 : ℕ) : ℚ) := by
    rw [interpolate_natCast, List.getD_eq_getElem _ _ (by rw [List.length_map]; omega), List.getElem_map,
      List.getLast_eq_getElem]
  rw [← hlast, List.length_map] at hend
  refine ⟨p25, p50, p75, h25, h50, h75, hv25, hv50, hv75, ?_, ?_, ?_, ?_⟩ <;> rw [Decimal.le_iff_value]
  · rw [hhead, hv25]
    exact hmono (by norm_num) (by push_cast; positivity) (by linarith)
  · rw [hv25, hv50]
    exact hmono (by positivity) (by linarith) (by linarith)
  · rw [hv50, hv75]
    exact hmono (by positivity) (by linarith) (by linarith)
  · rw [hv75, hend]
    exact hmono (by positivity) (by linarith) le_rfl

end Quantiles

/-! ### Bands -/

/-- The sorted values of a band. -/
def HistoryBand.values (band : HistoryBand) : List Decimal :=
  (band.eligible.filterMap fun p => p.value.bind (·.decimal?)).insertionSort (· ≤ ·)

/-- The exact bound of a band at a proportion. -/
def HistoryBand.bound (band : HistoryBand) (proportion : ℚ) : ℚ :=
  interpolate (band.values.map Decimal.value) (((band.values.length : ℚ) - 1) * proportion)

section Bands

variable {w : Window} {policy : HistoryPolicy} {printable : Char → Bool} {points : List HistoryPoint} {band : HistoryBand}

/-- A sample that counts has a value within the limits. -/
theorem within_of_reasons {p : HistoryPoint} (h : w.reasons p = []) : ∃ d, p.value = some (.finite d) ∧ WithinNumericLimits d := by
  simp only [Window.reasons, List.append_eq_nil_iff] at h
  obtain ⟨-, hvalue⟩ := h
  cases hp : p.value with
  | none =>
    rw [hp] at hvalue
    cases hvalue
  | some n =>
    rw [hp] at hvalue
    cases n with
    | finite d => exact ⟨d, rfl, not_not.mp (flagIf_eq_nil.mp hvalue)⟩
    | infinite _ => cases hvalue
    | nan _ _ _ => cases hvalue

/-- The values of a band are few, sorted and within the limits. -/
theorem values_of_band {s : Scan} (hlooked : Looked w printable points s) (h : bandOf w policy s = some band)
    (hwindow : w.expectedQuarterEnds.length = 4 * policy.years) :
    band.values.length ≤ maxsize ∧ (∀ v ∈ band.values, WithinNumericLimits v) ∧ band.values.Pairwise (· ≤ ·) := by
  obtain ⟨-, heligible, -, hexpected, -⟩ := bandOf_eq_some h
  have hperm := List.perm_insertionSort (fun a b : Decimal => a ≤ b) (band.eligible.filterMap fun p => p.value.bind (·.decimal?))
  refine ⟨?_, ?_, ?_⟩
  · have hcount := (quarters_of_band hlooked h).length_eq
    rw [List.length_append, List.length_map, hexpected, hwindow] at hcount
    have hyears := policy.window
    simp only [List.mem_cons, List.not_mem_nil, or_false] at hyears
    have hle := List.length_filterMap_le (fun p : HistoryPoint => p.value.bind (·.decimal?)) band.eligible
    rw [HistoryBand.values, hperm.length_eq]
    have hmax : 40 ≤ maxsize := by decide
    omega
  · intro v hv
    obtain ⟨p, hp, hvalue⟩ := List.mem_filterMap.mp (hperm.subset hv)
    obtain ⟨d, hd, hwithin⟩ := within_of_reasons ((mem_eligible hlooked).mp (heligible ▸ hp)).2.1
    rw [hd] at hvalue
    cases hvalue
    exact hwithin
  · have : Std.Total (α := Decimal) (· ≤ ·) := ⟨fun a b => le_total a.value b.value⟩
    exact List.pairwise_insertionSort _ _

/-- The bounds of a band are exact; a band of too few values has none. -/
theorem bounds_of_band {s : Scan} (hlooked : Looked w printable points s) (h : bandOf w policy s = some band)
    (hwindow : w.expectedQuarterEnds.length = 4 * policy.years) :
    (∀ p25 ∈ band.p25, p25.value = band.bound (1 / 4)) ∧ (∀ p75 ∈ band.p75, p75.value = band.bound (3 / 4)) ∧
      ∀ p25 ∈ band.p25, ∀ p75 ∈ band.p75, p25 ≤ p75 := by
  obtain ⟨hlength, hlimits, hsorted⟩ := values_of_band hlooked h hwindow
  have heligible := (bandOf_eq_some h).2.1
  have hvalues : (s.eligible.filterMap fun p => p.value.bind (·.decimal?)).insertionSort (· ≤ ·) = band.values := by
    rw [HistoryBand.values, heligible]
  simp only [bandOf, hvalues, percentile, Option.bind_eq_bind, Option.bind_eq_some_iff] at h
  obtain ⟨p25, h25, p50, -, p75, h75, hband⟩ := h
  rw [← congrArg HistoryBand.p25 (Option.some.inj hband), ← congrArg HistoryBand.p75 (Option.some.inj hband)]
  by_cases henough : policy.minimumSamples ≤ band.values.length
  · have hne : band.values ≠ [] := by
      intro hnil
      have := policy.minimum.1
      rw [hnil, List.length_nil] at henough
      omega
    obtain ⟨q25, q50, q75, hq25, -, hq75, hv25, -, hv75, -, hle, hle', -⟩ := quantiles_ordered hne hlength hlimits hsorted
    rw [if_pos henough, hq25] at h25
    rw [if_pos henough, hq75] at h75
    cases h25
    cases h75
    simp only [Option.mem_some_iff, forall_eq']
    exact ⟨hv25, hv75, hle.trans hle'⟩
  · rw [if_neg henough] at h25
    cases h25
    rw [if_neg henough] at h75
    cases h75
    simp

/-- A band is one of the samples of its window. -/
theorem bandOf_of_historicalBand {asOf : Date} {seriesKey : String}
    (h : historicalBand printable points asOf seriesKey policy = some band) :
    ∃ w : Window, w.expectedQuarterEnds.length = 4 * policy.years ∧ bandOf w policy (scanOf printable w points) = some band := by
  simp only [historicalBand] at h
  split at h
  case isFalse => cases h
  case isTrue hyears =>
    split at h
    case isFalse => cases h
    case isTrue =>
      have hpositive : 0 < policy.years := by
        have := policy.window
        simp only [List.mem_cons, List.not_mem_nil, or_false] at this
        omega
      exact ⟨_, Window.length_expectedQuarterEnds hpositive hyears seriesKey, h⟩

/-- A comparison that relates a value with a band compares it with the two bounds of the band. -/
theorem relation_of_compareToHistory {value : Option Number} {seriesKey inputHash : String} {flags : List String}
    {c : HistoryComparison} (h : compareToHistory value band seriesKey inputHash flags = some c) {relation : HistoryRelation}
    (hrelation : c.relation = some relation) :
    ∃ d p25 p75, value = some (.finite d) ∧ band.p25 = some p25 ∧ band.p75 = some p75 ∧
      relation = if d < p25 then .below else if p75 < d then .above else .within := by
  simp only [compareToHistory] at h
  split at h
  case isFalse => cases h
  case isTrue =>
    split at h
    case isTrue =>
      cases h
      cases hrelation
    case isFalse =>
      simp only [Option.bind_eq_bind, Option.bind_eq_some_iff] at h
      obtain ⟨d, hd, p25, h25, p75, h75, hc⟩ := h
      cases hc
      obtain ⟨n, rfl, hn⟩ := hd
      rw [Number.decimal?_eq_some] at hn
      exact ⟨d, p25, p75, by rw [hn], h25, h75, (Option.some.inj hrelation).symm⟩

end Bands

/-- Quartiles of sorted values are exact and ordered, and a value is related with a band by its exact bounds. -/
theorem quantiles_exact_and_ordered :
    (∀ (values : List Decimal) (hne : values ≠ []), values.length ≤ maxsize → (∀ v ∈ values, WithinNumericLimits v) →
      values.Pairwise (· ≤ ·) →
      ∃ p25 p50 p75, quantile values ⟨false, 25, -2⟩ = some p25 ∧ quantile values ⟨false, 5, -1⟩ = some p50 ∧
        quantile values ⟨false, 75, -2⟩ = some p75 ∧
        p25.value = interpolate (values.map Decimal.value) (((values.length : ℚ) - 1) * (1 / 4)) ∧
        p50.value = interpolate (values.map Decimal.value) (((values.length : ℚ) - 1) * (1 / 2)) ∧
        p75.value = interpolate (values.map Decimal.value) (((values.length : ℚ) - 1) * (3 / 4)) ∧
        values.head hne ≤ p25 ∧ p25 ≤ p50 ∧ p50 ≤ p75 ∧ p75 ≤ values.getLast hne) ∧
    ∀ (printable : Char → Bool) (points : List HistoryPoint) (asOf : Date) (seriesKey : String) (policy : HistoryPolicy)
      (band : HistoryBand), historicalBand printable points asOf seriesKey policy = some band →
      ∀ (value : Option Number) (key inputHash : String) (flags : List String) (c : HistoryComparison),
        compareToHistory value band key inputHash flags = some c → ∀ relation, c.relation = some relation →
        ∃ d, value = some (.finite d) ∧ (relation = .below ↔ d.value < band.bound (1 / 4)) ∧
          (relation = .above ↔ band.bound (3 / 4) < d.value) ∧
          (relation = .within ↔ band.bound (1 / 4) ≤ d.value ∧ d.value ≤ band.bound (3 / 4)) := by
  refine ⟨fun values hne hlength hlimits hsorted => quantiles_ordered hne hlength hlimits hsorted, ?_⟩
  intro printable points asOf seriesKey policy band hband value key inputHash flags c hc relation hrelation
  obtain ⟨w, hwindow, hbandOf⟩ := bandOf_of_historicalBand hband
  obtain ⟨hlow, hhigh, hle⟩ := bounds_of_band (looked_scanOf w printable points) hbandOf hwindow
  obtain ⟨d, p25, p75, hvalue, h25, h75, rfl⟩ := relation_of_compareToHistory hc hrelation
  have hordered : p25.value ≤ p75.value := hle p25 h25 p75 h75
  refine ⟨d, hvalue, ?_⟩
  rw [← hlow p25 h25, ← hhigh p75 h75]
  simp only [Decimal.lt_iff_value]
  by_cases hbelow : d.value < p25.value
  · simp [hbelow, not_lt.mpr (hbelow.le.trans hordered), not_le.mpr hbelow]
  · by_cases habove : p75.value < d.value
    · simp [hbelow, habove, not_le.mpr habove]
    · simp [hbelow, habove, not_lt.mp hbelow, not_lt.mp habove]

/-- The first quartile of one and two is exact, and two lies above a band of one sample. -/
theorem quantiles_exact_and_ordered_sample :
    (∃ p25, quantile [⟨false, 1, 0⟩, ⟨false, 2, 0⟩] ⟨false, 25, -2⟩ = some p25 ∧ (⟨false, 1, 0⟩ : Decimal) ≤ p25) ∧
    ∃ band c, historicalBand Char.isAlphanum [samplePoint 15 "a"] ⟨2024, 5, 1, by decide, by decide, by decide⟩ "growth"
        samplePolicy = some band ∧
      compareToHistory (some (.finite ⟨false, 2, 0⟩)) band "growth" "b" [] = some c ∧ c.relation = some .above ∧
      band.bound (3 / 4) < 2 := by
  refine ⟨?_, ?_⟩
  · obtain ⟨p25, -, -, h25, -, -, -, -, -, hle, -⟩ := quantiles_exact_and_ordered.1 [⟨false, 1, 0⟩, ⟨false, 2, 0⟩] (by decide)
      (by decide) (by decide) (by decide)
    exact ⟨p25, h25, hle⟩
  · have hsome : ∃ band, historicalBand Char.isAlphanum [samplePoint 15 "a"] ⟨2024, 5, 1, by decide, by decide, by decide⟩
        "growth" samplePolicy = some band ∧ ∃ c, compareToHistory (some (.finite ⟨false, 2, 0⟩)) band "growth" "b" [] = some c ∧
          c.relation = some .above := by
      have hrun : ((historicalBand Char.isAlphanum [samplePoint 15 "a"] ⟨2024, 5, 1, by decide, by decide, by decide⟩
          "growth" samplePolicy).bind fun band => (compareToHistory (some (.finite ⟨false, 2, 0⟩)) band "growth" "b" []).bind
            (·.relation)) = some .above := by
        decide +kernel
      obtain ⟨band, hband, hrest⟩ := Option.bind_eq_some_iff.mp hrun
      obtain ⟨c, hc, hrelation⟩ := Option.bind_eq_some_iff.mp hrest
      exact ⟨band, hband, c, hc, hrelation⟩
    obtain ⟨band, hband, c, hc, hrelation⟩ := hsome
    obtain ⟨d, hd, -, habove, -⟩ := quantiles_exact_and_ordered.2 _ _ _ _ _ band hband _ _ _ _ c hc .above hrelation
    cases hd
    refine ⟨band, c, hband, hc, hrelation, ?_⟩
    have hlt := habove.mp rfl
    norm_num [Decimal.value, Decimal.signed] at hlt
    exact hlt

end EquityEval.Fundamentals
