import EquityEval.Fundamentals.CanonicalSql
import EquityEval.Workflow.Leases

/-!
# Reviewed payloads

A payload is read as `jsonb`, by the names of its members. The outcome of a result is derived from
its payload, and an absent member is not an error where a member of the wrong kind is one. The
children of a valuation are the entries of its lists.
-/

namespace EquityEval.Publication

open Relational Text Text.CodePoint
open Fundamentals (Jsonb JsonbScalar fundamentalsCanonical jsonbString numericOut)
open Workflow (SqlError SqlState StageAttempt)

/-- A name in a text. -/
def named (name : String) : List CodePoint := ascii name.toList

/-! ### Operators -/

/-- `p->name`. -/
def member (name : String) : Jsonb → Option Jsonb
  | .object members => (members.find? fun m => decide (m.1 = named name)).map (·.2)
  | _ => none

/-- `p->n`. -/
def item (n : ℕ) : Jsonb → Option Jsonb
  | .array items => items[n]?
  | _ => none

/-- The text of a scalar. -/
def scalarText : JsonbScalar → List CodePoint
  | .null => named "null"
  | .bool b => named (if b then "true" else "false")
  | .numeric n => numericOut n
  | .str s => jsonbString s

/-- Members as `jsonb` keeps them: shorter keys come first. -/
def stored {α : Type} (members : List (List CodePoint × α)) : List (List CodePoint × α) :=
  members.insertionSort fun m m' => toLex ((utf8 m.1).length, utf8 m.1) ≤ toLex ((utf8 m'.1).length, utf8 m'.1)

/-- `p::text`. -/
def jsonbOut : Jsonb → List CodePoint :=
  Tree.fold scalarText (fun items => named "[" ++ (named ", ").intercalate items ++ named "]") fun members =>
    named "\x7b" ++ (named ", ").intercalate ((stored members).map fun m => jsonbString m.1 ++ named ": " ++ m.2) ++ named "\x7d"

/-- A value as a text; that of a null is a null. -/
def textOf : Jsonb → Option (List CodePoint)
  | .scalar .null => none
  | .scalar (.str s) => some s
  | p => some (jsonbOut p)

/-- `p->>name`. -/
def text (name : String) (p : Jsonb) : Option (List CodePoint) := (member name p).bind textOf

/-- `p#>>'{first,second}'`. -/
def pathText (first second : String) (p : Jsonb) : Option (List CodePoint) := (member first p).bind (text second)

/-- `p='null'::JSONB`. -/
def isNull : Jsonb → Bool
  | .scalar .null => true
  | _ => false

/-- The value is a list, if it is there. -/
def IsList : Option Jsonb → Prop
  | none | some (.array _) => True
  | _ => False

/-- The error of a value that is no list. -/
def notArray : SqlError := ⟨.invalidParameterValue, "cannot extract elements from a scalar or an object"⟩

/-- `jsonb_array_elements(p)`. -/
def elements : Option Jsonb → Except SqlError (List Jsonb)
  | none => .ok []
  | some (.array items) => .ok items
  | _ => .error notArray

/-- `jsonb_array_length(p)`. -/
def arrayLength (p : Option Jsonb) : Except SqlError (Option ℕ) := (elements p).map fun items => p.map fun _ => items.length

/-- The entries of a list; none of anything else. -/
def entries (p : Option Jsonb) : List Jsonb := (elements p).toOption.getD []

/-- A list has its entries. -/
theorem elements_eq_ok {p : Option Jsonb} {items : List Jsonb} : elements p = .ok items ↔ IsList p ∧ entries p = items := by
  unfold entries elements IsList
  split <;> simp [Except.toOption]

/-! ### Outcomes -/

/-- A metric is not valid. -/
def metricGap (p : Jsonb) : Bool := (entries (member "metrics" p)).any fun x => (text "status" x).any (· ≠ named "valid")

/-- The accounts are there and do not match. -/
def accountingGap (p : Jsonb) : Bool :=
  (member "accounting" p).any fun accounting => !isNull accounting && decide (text "matches" accounting ≠ some (named "true"))

/-- A trend was asked for, and there is none. -/
def trendGap (p manifest : Jsonb) : Bool :=
  0 < (entries (member "trend_inputs" manifest)).length && (pathText "trend" "relation" p).isNone

/-- A part of the history has no relation. -/
def historyGap (p : Jsonb) : Bool := (entries (member "history" p)).any fun x => (text "relation" x).isNone

/-- Whether the payload of fundamentals, or a stage attempt before it, has gaps; the conditions are tried in turn. -/
def fundamentalsGaps (p manifest : Jsonb) (stages : List StageAttempt) : Except SqlError Bool := do
  let metrics ← elements (member "metrics" p)
  if metrics.any fun x => (text "status" x).any (· ≠ named "valid") then return true
  else if accountingGap p then return true
  else
    let inputs ← arrayLength (member "trend_inputs" manifest)
    if inputs.any (0 < ·) ∧ (pathText "trend" "relation" p).isNone then return true
    else
      let history ← elements (member "history" p)
      if history.any fun x => (text "relation" x).isNone then return true
      else return stages.any fun s => decide (¬ s.Running ∧ ¬ s.Completed)

/-- A scenario was not solved. -/
def scenarioGap (p : Jsonb) : Bool :=
  (entries (member "scenarios" p)).any fun x => (pathText "solve" "state" x).any (· ≠ named "converged")

/-- A cell has no value. -/
def cellGap (grid : Jsonb) : Bool := (entries (member "cells" grid)).any fun cell => (member "value" cell).any isNull

/-- Whether a grid has a cell without a value; the grids are read in turn. -/
def gridGaps : List Jsonb → Except SqlError Bool
  | [] => .ok false
  | grid :: grids => do
    let cells ← elements (member "cells" grid)
    if cells.any fun cell => (member "value" cell).any isNull then return true
    else gridGaps grids

/-- Whether the payload of a valuation has gaps; the conditions are tried in turn. -/
def valuationGaps (p : Jsonb) : Except SqlError Bool := do
  if (member "scenario_dispersion" p).any isNull then return true
  else
    let scenarios ← elements (member "scenarios" p)
    if scenarios.any fun x => (pathText "solve" "state" x).any (· ≠ named "converged") then return true
    else
      let grids ← elements (member "sensitivities" p)
      gridGaps grids

/-! ### When they can be read -/

/-- The members of a payload that its outcome is derived from are lists, up to the first gap. -/
def FundamentalsReadable (p manifest : Jsonb) : Prop :=
  IsList (member "metrics" p) ∧ (metricGap p = true ∨ accountingGap p = true ∨
    IsList (member "trend_inputs" manifest) ∧ (trendGap p manifest = true ∨ IsList (member "history" p)))

/-- The cells of grids are lists, up to the first gap. -/
def GridsReadable : List Jsonb → Prop
  | [] => True
  | grid :: grids => IsList (member "cells" grid) ∧ (cellGap grid = true ∨ GridsReadable grids)

/-- The payload of a valuation reports a gap itself. -/
def ownGap (p : Jsonb) : Bool :=
  (member "scenario_dispersion" p).any isNull || scenarioGap p || (entries (member "sensitivities" p)).any cellGap

variable {p manifest : Jsonb} {stages : List StageAttempt}

/-- The entries of a list that is read. -/
theorem elements_bind {β : Type} {q : Option Jsonb} {f : List Jsonb → Except SqlError β} {b : β} :
    (elements q >>= f) = .ok b ↔ IsList q ∧ f (entries q) = .ok b := by
  rw [bind_eq_ok]
  constructor
  · rintro ⟨items, hitems, hf⟩
    obtain ⟨hlist, rfl⟩ := elements_eq_ok.mp hitems
    exact ⟨hlist, hf⟩
  · rintro ⟨hlist, hf⟩
    exact ⟨_, elements_eq_ok.mpr ⟨hlist, rfl⟩, hf⟩

/-- The length of a list that is read. -/
theorem arrayLength_bind {β : Type} {q : Option Jsonb} {f : Option ℕ → Except SqlError β} {b : β} :
    (arrayLength q >>= f) = .ok b ↔ IsList q ∧ f (q.map fun _ => (entries q).length) = .ok b := by
  unfold arrayLength
  cases h : elements q with
  | error e =>
    have hnot : ¬ IsList q := fun hlist => by
      rw [elements_eq_ok.mpr ⟨hlist, rfl⟩] at h
      cases h
    constructor
    · intro hb
      cases hb
    · exact fun hb => absurd hb.1 hnot
  | ok items =>
    obtain ⟨hlist, rfl⟩ := elements_eq_ok.mp h
    exact ⟨fun hb => ⟨hlist, hb⟩, fun hb => hb.2⟩

/-- A list has entries when its length is positive. -/
theorem any_length (q : Option Jsonb) : (q.map fun _ => (entries q).length).any (0 < ·) = decide (0 < (entries q).length) := by
  cases q <;> rfl

/-- What the outcome of fundamentals is derived from. -/
theorem fundamentalsGaps_eq_ok {b : Bool} : fundamentalsGaps p manifest stages = .ok b ↔ FundamentalsReadable p manifest ∧
    b = (metricGap p || accountingGap p || trendGap p manifest || historyGap p ||
      stages.any fun s => decide (¬ s.Running ∧ ¬ s.Completed)) := by
  unfold fundamentalsGaps FundamentalsReadable
  rw [elements_bind]
  change _ ∧ (if metricGap p = true then _ else _) = _ ↔ _
  cases hmetric : metricGap p
  · rw [if_neg Bool.false_ne_true]
    cases haccounting : accountingGap p
    · rw [if_neg Bool.false_ne_true, arrayLength_bind, any_length]
      have htrend : trendGap p manifest = true ↔
          decide (0 < (entries (member "trend_inputs" manifest)).length) = true ∧ (pathText "trend" "relation" p).isNone = true :=
        Bool.and_eq_true _ _ ▸ Iff.rfl
      by_cases h : trendGap p manifest = true
      · rw [if_pos (htrend.mp h)]
        simp [h, and_assoc]
      · rw [if_neg (fun hboth => h (htrend.mpr hboth)), elements_bind]
        change _ ∧ _ ∧ _ ∧ (if historyGap p = true then _ else _) = _ ↔ _
        cases hhistory : historyGap p <;> simp only [h, Bool.or_false, Bool.or_true, Bool.false_or, Bool.true_or, Bool.false_eq_true,
          if_false, if_true, pure_eq_ok, false_or, and_assoc, eq_comm (a := b)]
    · simp
  · simp

/-- Whether a grid has a cell without a value. -/
theorem gridGaps_eq_ok {grids : List Jsonb} {b : Bool} : gridGaps grids = .ok b ↔ GridsReadable grids ∧ b = grids.any cellGap := by
  induction grids with
  | nil => simp [gridGaps, GridsReadable, eq_comm]
  | cons grid grids ih =>
    unfold gridGaps GridsReadable
    rw [elements_bind]
    change _ ∧ (if cellGap grid = true then _ else _) = _ ↔ _
    cases hcell : cellGap grid
    · rw [if_neg Bool.false_ne_true, ih]
      simp [hcell, and_assoc]
    · simp [hcell]

/-- What the outcome of a valuation is derived from, when its lists are lists. -/
theorem valuationGaps_eq_ok (hscenarios : IsList (member "scenarios" p)) (hgrids : IsList (member "sensitivities" p)) {b : Bool} :
    valuationGaps p = .ok b ↔
      ((member "scenario_dispersion" p).any isNull = true ∨ scenarioGap p = true ∨ GridsReadable (entries (member "sensitivities" p))) ∧
        b = ownGap p := by
  unfold valuationGaps ownGap
  cases hdispersion : (member "scenario_dispersion" p).any isNull
  · rw [if_neg Bool.false_ne_true, elements_bind]
    change _ ∧ (if scenarioGap p = true then _ else _) = _ ↔ _
    cases hscenario : scenarioGap p
    · rw [if_neg Bool.false_ne_true, elements_bind, gridGaps_eq_ok]
      simp [hscenarios, hgrids]
    · simp [hscenarios]
  · simp

end EquityEval.Publication
