import EquityEval.Fundamentals.Issues

/-!
# Reviewed fiscal calendars

A fiscal calendar states the boundaries of fiscal years and their quarters. It is evidence for the
inputs that it names, and never inferred from the number of days of a period.
-/

namespace EquityEval.Fundamentals

open Workflow DecimalArithmetic Gregorian PointInTime
open Vintage (hasText)

/-- How the quarters of a fiscal year are counted. -/
inductive FiscalKind where
  | months
  | weeks
  | transition
deriving DecidableEq, Repr

/-- A fiscal year with its four quarter ends. -/
structure FiscalYear where
  label : String
  start : Date
  quarterEnds : List Date
  kind : FiscalKind
  labelled : hasText label = true
  four : quarterEnds.length = 4
  increasing : quarterEnds.Pairwise (· < ·)
  starts : ∀ quarterEnd ∈ quarterEnds, start ≤ quarterEnd
  inside : start.toOrdinal ≠ 1 ∧ ∀ quarterEnd ∈ quarterEnds, quarterEnd.addDay ≠ none
deriving DecidableEq

/-- A text that some evidence is cited with. -/
def Cited (refs : List String) (revision : String) : Prop :=
  refs ≠ [] ∧ (∀ ref ∈ refs, hasText ref = true) ∧ hasText revision = true

/-- The hashes name inputs once each. -/
def NamesInputs (hashes : List String) : Prop := hashes ≠ [] ∧ hashes.Nodup ∧ ∀ hash ∈ hashes, isSha256 hash = true

/-- A reviewed calendar for exactly the inputs that it names. -/
structure FiscalCalendarEvidence where
  issuerId : Uuid
  years : List FiscalYear
  inputHashes : List String
  knownOn : Day
  capturedAt : Instant
  evidenceRefs : List String
  reviewRevision : String
  listed : years ≠ [] ∧ (years.map (·.label)).Nodup
  ordered : years.IsChain fun earlier later => ∀ quarterEnd ∈ earlier.quarterEnds, quarterEnd < later.start
  named : NamesInputs inputHashes
  captured : knownOn ≤ dayOf capturedAt
  cited : Cited evidenceRefs reviewRevision
deriving DecidableEq

namespace FiscalYear

/-- The first days of the quarters. -/
def quarterStarts (y : FiscalYear) : List Date := y.start :: (y.quarterEnds.dropLast.filterMap (·.addDay))

/-- The quarters have the lengths of their kind. -/
def supported (y : FiscalYear) : Bool :=
  let quarters := y.quarterStarts.zip y.quarterEnds
  match y.kind with
  | .weeks =>
    let days := quarters.map fun q => (q.2.toOrdinal : ℤ) - q.1.toOrdinal + 1
    days.all (fun count => count = 91 || count = 98) && (days.sum = 364 || days.sum = 371)
  | .months => quarters.all fun q => decide (q.1.day = 1 ∧ q.2.monthEnd ∧ Date.months q.1 q.2 = 3)
  | .transition => false

/-- The ends of the quarters of a year follow their order. -/
theorem quarterEnd_lt {y : FiscalYear} {i j : ℕ} {a b : Date} (h : i < j) (ha : y.quarterEnds[i]? = some a)
    (hb : y.quarterEnds[j]? = some b) : a < b := by
  obtain ⟨hi, rfl⟩ := List.getElem?_eq_some_iff.mp ha
  obtain ⟨hj, rfl⟩ := List.getElem?_eq_some_iff.mp hb
  exact List.pairwise_iff_getElem.mp y.increasing i j hi hj h

/-- The first day of a quarter, or of the year up to it. -/
def startOf (y : FiscalYear) (cumulative : Bool) (quarter : ℕ) : Option Date :=
  if cumulative ∨ quarter = 0 then some y.start else y.quarterEnds[quarter - 1]?.bind (·.addDay)

end FiscalYear

/-- The days and policies of two calendars agree. -/
structure CalendarKey where
  issuerId : Uuid
  years : List FiscalYear
  knownOn : Day
  capturedAt : Instant
  evidenceRefs : List String
  reviewRevision : String
deriving DecidableEq

namespace FiscalCalendarEvidence

variable (c : FiscalCalendarEvidence)

/-- What two calendars of one comparison share. -/
def comparisonKey : CalendarKey :=
  ⟨c.issuerId, c.years, c.knownOn, c.capturedAt, c.evidenceRefs, c.reviewRevision⟩

/-- What keeps the calendar from being evidence for some inputs. -/
def problems (sources : List FinancialInput) : List String :=
  let hashes := sources.map (·.selection.inputHash)
  flagIf (¬ (c.inputHashes ⊆ hashes ∧ hashes ⊆ c.inputHashes)) "fiscal_calendar_input_mismatch" ++
    flagIf (∃ source ∈ sources, source.selection.query.issuerId ≠ c.issuerId) "fiscal_calendar_issuer_mismatch" ++
    flagIf (∃ source ∈ sources, source.selection.query.capturedBefore < c.capturedAt ∨
      source.selection.query.filedCutoff.getD (dayOf source.selection.query.capturedBefore) < c.knownOn)
      "fiscal_calendar_not_known_at_cutoff" ++
    flagIf ((∃ year ∈ c.years, year.supported = false) ∨ Differ (·.kind) c.years) "unsupported_fiscal_calendar"

/-- The years and quarters that a source spans, in the order of the calendar. -/
def quartersOf (source : FinancialInput) (cumulative : Bool) : List (ℕ × ℕ) :=
  c.years.zipIdx.flatMap fun year =>
    (year.1.quarterEnds.zipIdx.filter fun quarter =>
      source.period.startDate = year.1.startOf cumulative quarter.2 && source.period.endDate = quarter.1).map
      fun quarter => (year.2, quarter.2 + 1)

/-- The year and the quarter that a source spans, or the year and the quarter that it reaches. -/
def matchOf (source : FinancialInput) (cumulative : Bool) : Option (ℕ × ℕ) :=
  if source.period.periodKind = .duration then (c.quartersOf source cumulative).head? else none

variable {c}

/-- A source that reaches a quarter starts with its year and ends with the quarter. -/
theorem matchOf_cumulative {source : FinancialInput} {y q : ℕ} (h : c.matchOf source true = some (y, q)) :
    ∃ year, c.years[y]? = some year ∧ source.period.startDate = some year.start ∧
      0 < q ∧ year.quarterEnds[q - 1]? = some source.period.endDate := by
  unfold matchOf at h
  split at h
  case isFalse => cases h
  case isTrue =>
    have hmem := List.mem_of_mem_head? (Option.mem_def.mpr h)
    simp only [quartersOf, List.mem_flatMap, List.mem_map, List.mem_filter, Bool.and_eq_true, decide_eq_true_eq] at hmem
    obtain ⟨⟨year, y'⟩, hyear, ⟨quarterEnd, q'⟩, ⟨hquarter, hstart, hend⟩, hpair⟩ := hmem
    cases hpair
    refine ⟨year, List.mem_zipIdx_iff_getElem?.mp hyear, ?_, Nat.succ_pos _, ?_⟩
    · simpa [FiscalYear.startOf] using hstart
    · rw [Nat.add_sub_cancel, hend]
      exact List.mem_zipIdx_iff_getElem?.mp hquarter

/-- `comparable`. -/
def comparable (c : FiscalCalendarEvidence) (current prior : FinancialInput) : Bool :=
  [false, true].any fun cumulative =>
    match c.matchOf current cumulative, c.matchOf prior cumulative with
    | some (cy, cq), some (py, pq) =>
      decide (cy = py + 1 ∧ cq = pq) && (!cumulative || cq = 4) &&
        match c.years[py]?, c.years[cy]? with
        | some old, some new =>
          (old.quarterEnds.getLast?.any fun last => decide (last.toOrdinal + 1 = new.start.toOrdinal)) &&
            decide (old.kind = new.kind) &&
            (new.kind ≠ .weeks ||
              match current.period.startDate, prior.period.startDate with
              | some start, some oldStart =>
                decide ((current.period.endDate.toOrdinal : ℤ) - start.toOrdinal =
                  (prior.period.endDate.toOrdinal : ℤ) - oldStart.toOrdinal)
              | _, _ => false)
        | _, _ => false
    | _, _ => false

end FiscalCalendarEvidence

end EquityEval.Fundamentals
