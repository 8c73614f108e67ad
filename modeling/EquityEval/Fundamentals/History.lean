import EquityEval.Fundamentals.Periods
import EquityEval.Text.Decimals
import EquityEval.Text.Escapes
import Mathlib.Data.List.Lex

/-!
# History bands

A band is the range of the quarterly samples of one series within a window of years. Every flag
excludes a sample; the samples of a quarter that do not agree are all excluded, and evidence that
repeats counts once. The texts of values and of hashes order samples with one quarter end.
-/

namespace EquityEval.Fundamentals

open DecimalArithmetic Gregorian
open Discovery (sortedSet)
open Vintage (hasText)

/-- A sample of a series at the end of a quarter. -/
structure HistoryPoint where
  quarterEnd : Date
  value : Option Number
  seriesKey : String
  inputHash : String
  flags : List String
  flagged : ∀ flag ∈ flags, hasText flag = true
deriving DecidableEq

/-- How many years a window has and how many samples a range needs. -/
structure HistoryPolicy where
  years : ℕ
  minimumSamples : ℕ
  revision : String
  window : years ∈ [3, 5, 10]
  minimum : 1 ≤ minimumSamples ∧ minimumSamples ≤ 4 * years
  named : hasText revision = true

/-- A sample that does not count. -/
structure ExcludedHistoryPoint where
  point : HistoryPoint
  reasons : List String
deriving DecidableEq

/-- The samples of a window and their range. -/
structure HistoryBand where
  years : ℕ
  windowStart : Date
  windowEnd : Date
  seriesKey : String
  policyRevision : String
  minimumSamples : ℕ
  eligible : List HistoryPoint
  excluded : List ExcludedHistoryPoint
  expectedQuarterEnds : List Date
  missingQuarterEnds : List Date
  p25 : Option Decimal
  p50 : Option Decimal
  p75 : Option Decimal
  flags : List String

/-- `_within_numeric_limits`. -/
def WithinNumericLimits (value : Decimal) : Prop := Summable value

instance (value : Decimal) : Decidable (WithinNumericLimits value) := inferInstanceAs (Decidable (Summable value))

/-! ### Quantiles -/

/-- `int(value)`. -/
def truncate (d : Decimal) : ℤ :=
  if 0 ≤ d.exponent then d.signed * 10 ^ d.exponent.toNat else d.signed.tdiv (10 ^ (-d.exponent).toNat)

/-- `_quantile`; nothing where it raises. -/
def quantile (values : List Decimal) (proportion : Decimal) : Option Decimal := do
  let ctx : Context := ⟨50, .halfEven, -999999, 999999⟩
  let position ← (ctx.mul (.ofInt (values.length - 1)) proportion).toOption
  let lower := truncate position
  let weight ← (ctx.sub position (.ofInt lower)).toOption
  if weight.coefficient = 0 then
    values[lower.toNat]?
  else do
    let left ← values[lower.toNat]?
    let right ← values[lower.toNat + 1]?
    let precision := max 50 (max left.adjusted right.adjusted - min left.exponent right.exponent + 4)
    let exact : Context := ⟨precision.toNat, .halfEven, -999999, 999999⟩
    let traps : Traps := { inexact := true }
    let a ← (exact.sub? traps (.ofInt 1) weight).bind (exact.mul? traps left)
    let b ← exact.mul? traps right weight
    exact.add? traps a b

/-! ### Samples -/

/-- The text of a value in a record. -/
def reprValue : Option Number → List Char
  | none => ['N', 'o', 'n', 'e']
  | some n => ['D', 'e', 'c', 'i', 'm', 'a', 'l', '(', '\''] ++ n.toText ++ ['\'', ')']

/-- `_identity`. -/
def HistoryPoint.identity (printable : Char → Bool) (p : HistoryPoint) : String ×ₗ String ×ₗ String ×ₗ List String :=
  toLex (p.seriesKey, toLex (String.ofList (reprValue p.value),
    toLex (String.ofList (Text.repr printable p.inputHash.toList), p.flags)))

/-- The order of samples. -/
def HistoryPoint.sortKey (printable : Char → Bool) (p : HistoryPoint) : Date ×ₗ String ×ₗ String ×ₗ String ×ₗ List String :=
  toLex (p.quarterEnd, p.identity printable)

/-- The last days of the quarters of a year. -/
def quarterDays : List (ℕ × ℕ) := [(3, 31), (6, 30), (9, 30), (12, 31)]

/-- The ends of the quarters of a year. -/
def quarterEndsOf (year : ℕ) : List Date := quarterDays.filterMap fun quarter => Date.ofFields? year quarter.1 quarter.2

/-- What is wrong with the value of a sample. -/
def valueReasons : Option Number → List String
  | none => ["missing_value"]
  | some (.finite d) => flagIf (¬ WithinNumericLimits d) "numeric_range_exceeded"
  | some _ => ["nonfinite_value"]

/-- A series and a window of it. -/
structure Window where
  seriesKey : String
  start : Date
  asOf : Date

namespace Window

variable (w : Window)

/-- The day lies in the window. -/
def Contains (day : Date) : Prop := w.start < day ∧ day ≤ w.asOf

instance (day : Date) : Decidable (w.Contains day) := inferInstanceAs (Decidable (_ ∧ _))

/-- What is wrong with a sample, whatever the other samples are. -/
def reasons (p : HistoryPoint) : List String :=
  p.flags ++
    (if p.quarterEnd ≤ w.start then ["outside_window"] else flagIf (w.asOf < p.quarterEnd) "after_as_of") ++
    flagIf ((p.quarterEnd.month, p.quarterEnd.day) ∉ quarterDays) "not_quarter_end" ++
    flagIf (p.seriesKey ≠ w.seriesKey) "incompatible_series" ++
    flagIf (hasText p.inputHash = false) "missing_lineage" ++ valueReasons p.value

/-- The identities of the samples of a day. -/
def variants (printable : Char → Bool) (points : List HistoryPoint) (day : Date) :
    List (String ×ₗ String ×ₗ String ×ₗ List String) :=
  ((points.filter fun p => p.seriesKey = w.seriesKey ∧ w.Contains p.quarterEnd ∧ p.quarterEnd = day).map
    (·.identity printable)).dedup

/-- The sample is of a day whose samples do not agree. -/
def Conflicting (printable : Char → Bool) (points : List HistoryPoint) (p : HistoryPoint) : Prop :=
  p.seriesKey = w.seriesKey ∧ 1 < (w.variants printable points p.quarterEnd).length

instance (printable : Char → Bool) (points : List HistoryPoint) (p : HistoryPoint) :
    Decidable (w.Conflicting printable points p) :=
  inferInstanceAs (Decidable (_ ∧ _))

/-- The quarter ends of the window. -/
def expectedQuarterEnds : List Date :=
  (List.range' w.start.year (w.asOf.year + 1 - w.start.year)).flatMap fun year =>
    (quarterEndsOf year).filter fun day => w.Contains day

end Window

/-- The samples that count and those that do not, while they are looked at; the quarters seen are those that count. -/
structure Scan where
  eligible : List HistoryPoint
  excluded : List ExcludedHistoryPoint

/-- What is wrong with a sample, given the ones before it. -/
def Scan.given (reasons : HistoryPoint → List String) (conflicting : HistoryPoint → Prop) [DecidablePred conflicting]
    (s : Scan) (p : HistoryPoint) : List String :=
  reasons p ++
    if conflicting p then ["conflicting_quarter"]
    else flagIf (reasons p = [] ∧ p.quarterEnd ∈ s.eligible.map (·.quarterEnd)) "duplicate_sample"

/-- Look at a sample. -/
def Scan.step (reasons : HistoryPoint → List String) (conflicting : HistoryPoint → Prop) [DecidablePred conflicting]
    (s : Scan) (p : HistoryPoint) : Scan :=
  if s.given reasons conflicting p = [] then { s with eligible := s.eligible ++ [p] }
  else { s with excluded := s.excluded ++ [⟨p, sortedSet (s.given reasons conflicting p)⟩] }

/-- Look at all samples of a window in their order. -/
def scanOf (printable : Char → Bool) (w : Window) (points : List HistoryPoint) : Scan :=
  (points.insertionSort fun p q => p.sortKey printable ≤ q.sortKey printable).foldl
    (Scan.step w.reasons (w.Conflicting printable points)) ⟨[], []⟩

/-- A quantile of enough values; nothing where it raises. -/
def percentile (policy : HistoryPolicy) (values : List Decimal) (proportion : Decimal) : Option (Option Decimal) :=
  if policy.minimumSamples ≤ values.length then (quantile values proportion).map some else some none

/-- The band of the samples that were looked at; nothing where a quantile raises. -/
def bandOf (w : Window) (policy : HistoryPolicy) (scan : Scan) : Option HistoryBand := do
  let quarterEnds := scan.eligible.map (·.quarterEnd)
  let values := (scan.eligible.filterMap fun p => p.value.bind (·.decimal?)).insertionSort (· ≤ ·)
  let p25 ← percentile policy values ⟨false, 25, -2⟩
  let p50 ← percentile policy values ⟨false, 5, -1⟩
  let p75 ← percentile policy values ⟨false, 75, -2⟩
  some
    { years := policy.years, windowStart := w.start, windowEnd := w.asOf, seriesKey := w.seriesKey,
      policyRevision := policy.revision, minimumSamples := policy.minimumSamples, eligible := scan.eligible,
      excluded := scan.excluded, expectedQuarterEnds := w.expectedQuarterEnds,
      missingQuarterEnds := w.expectedQuarterEnds.filter fun day => day ∉ quarterEnds, p25 := p25, p50 := p50, p75 := p75,
      flags := if policy.minimumSamples ≤ values.length then [] else ["insufficient_history"] }

/-- `historical_band`; nothing where it raises. -/
def historicalBand (printable : Char → Bool) (points : List HistoryPoint) (asOf : Date) (seriesKey : String)
    (policy : HistoryPolicy) : Option HistoryBand :=
  if h : policy.years < asOf.year then
    let w : Window := ⟨seriesKey, asOf.yearsBefore policy.years h, asOf⟩
    if hasText seriesKey = true then bandOf w policy (scanOf printable w points) else none
  else none

end EquityEval.Fundamentals
