import EquityEval.Valuation.Dual

/-!
# The interval solver

The solver keeps a stack of regions. Visiting a region excludes it, certifies a unique root
in it, records it as unresolved or splits it at its midpoint. Counters survive an exception,
so a method of the solver is a function from counters to a result or an error together with
the new counters. The exceptions that the run catches end it with the unvisited regions
retained; a validation error is not among them.
-/

namespace EquityEval.Valuation

open DecimalArithmetic

/-- The counters of a solver. -/
structure Counters where
  evaluations : ℕ := 0
  iterations : ℕ := 0
  subdivisions : ℕ := 0
deriving DecidableEq, Repr

/-- A method of the solver: it may raise, and keeps its counters when it does. -/
def SolverM (α : Type) : Type := Counters → Except Raised α × Counters

instance : Monad SolverM where
  pure a c := (.ok a, c)
  bind x f c :=
    match x c with
    | (.ok a, c') => f a c'
    | (.error e, c') => (.error e, c')

namespace SolverM

/-- A computation that does not touch the counters. -/
def lift {α : Type} (x : Except Raised α) : SolverM α := fun c => (x, c)

/-- A numeric computation. -/
def numeric {α : Type} (x : Except NumericError α) : SolverM α := lift (x.mapError .numeric)

/-- Update the counters. -/
def modify (f : Counters → Counters) : SolverM Unit := fun c => (.ok (), f c)

/-- Read the counters. -/
def read : SolverM Counters := fun c => (.ok c, c)

/-- A sequence runs its second part from the counters that its first part leaves. -/
theorem bind_apply {α β : Type} (x : SolverM α) (f : α → SolverM β) (c : Counters) :
    (x >>= f) c = match x c with
      | (.ok a, c') => f a c'
      | (.error e, c') => (.error e, c') := rfl

/-- A sequence that returns has returned from its first part. -/
theorem exists_of_bind {α β : Type} {x : SolverM α} {f : α → SolverM β} {c c' : Counters} {b : β}
    (h : (x >>= f) c = (.ok b, c')) : ∃ a c₁, x c = (.ok a, c₁) ∧ f a c₁ = (.ok b, c') := by
  rw [bind_apply] at h
  split at h
  · exact ⟨_, _, ‹_›, h⟩
  · simp at h

/-- A sequence that returns has returned from a lifted first part, with the same counters. -/
theorem exists_of_lift_bind {α β : Type} {x : Except Raised α} {f : α → SolverM β} {c c' : Counters} {b : β}
    (h : (lift x >>= f) c = (.ok b, c')) : ∃ a, x = .ok a ∧ f a c = (.ok b, c') := by
  obtain ⟨a, c₁, hx, hf⟩ := exists_of_bind h
  cases hx
  exact ⟨a, rfl, hf⟩

/-- A sequence that returns has returned from a numeric first part, with the same counters. -/
theorem exists_of_numeric_bind {α β : Type} {x : Except NumericError α} {f : α → SolverM β} {c c' : Counters}
    {b : β} (h : (numeric x >>= f) c = (.ok b, c')) : ∃ a, x = .ok a ∧ f a c = (.ok b, c') := by
  obtain ⟨a, hx, hf⟩ := exists_of_lift_bind h
  cases x with
  | error e => cases hx
  | ok v =>
    cases hx
    exact ⟨a, rfl, hf⟩

/-- Reading passes the counters on. -/
@[simp] theorem read_bind {α : Type} (f : Counters → SolverM α) (c : Counters) : (read >>= f) c = f c c := rfl

/-- An update passes the new counters on. -/
@[simp] theorem modify_bind {α : Type} (g : Counters → Counters) (f : Unit → SolverM α) (c : Counters) :
    (modify g >>= f) c = f () (g c) := rfl

/-- Returning keeps the counters. -/
@[simp] theorem pure_apply {α : Type} (a : α) (c : Counters) : (pure a : SolverM α) c = (.ok a, c) := rfl

/-- A sequence that raises has raised in its first part or after it. -/
theorem error_of_bind {α β : Type} {x : SolverM α} {f : α → SolverM β} {c c' : Counters} {e : Raised}
    (h : (x >>= f) c = (.error e, c')) :
    x c = (.error e, c') ∨ ∃ a c₁, x c = (.ok a, c₁) ∧ f a c₁ = (.error e, c') := by
  rw [bind_apply] at h
  split at h
  · exact Or.inr ⟨_, _, ‹_›, h⟩
  · cases h
    exact Or.inl ‹_›

/-- A method that counts no subdivision and raises no validation error. -/
def Measures {α : Type} (x : SolverM α) : Prop :=
  ∀ c, (x c).2.subdivisions = c.subdivisions ∧ ∀ message, (x c).1 ≠ .error (.valueError message)

/-- A numeric computation only measures. -/
theorem measures_numeric {α : Type} (x : Except NumericError α) : Measures (numeric x) := by
  intro c
  constructor
  · rfl
  · intro message h
    cases x <;> cases h

/-- Returning only measures. -/
theorem measures_pure {α : Type} (a : α) : Measures (pure a : SolverM α) := fun _ => ⟨rfl, fun _ => nofun⟩

/-- A sequence of methods that only measure only measures. -/
theorem measures_bind {α β : Type} {x : SolverM α} {f : α → SolverM β} (hx : Measures x)
    (hf : ∀ a, Measures (f a)) : Measures (x >>= f) := by
  intro c
  have hxc := hx c
  rw [bind_apply]
  split
  · rename_i a c' heq
    rw [heq] at hxc
    exact ⟨(hf a c').1.trans hxc.1, (hf a c').2⟩
  · rename_i e c' heq
    rw [heq] at hxc
    refine ⟨hxc.1, fun message h => ?_⟩
    cases h
    exact hxc.2 message rfl

end SolverM

/-- The rounded midpoint of two decimals. -/
def midpoint (a b : Decimal) : Except NumericError Decimal := do
  raising (context.div (← raising (context.add a b)) (.ofInt 2))

/-- The inputs of a solver. -/
structure Solver where
  inputs : Forecast
  spec : SolveSpec
  target : Decimal

namespace Solver

/-- One counted evaluation of the residual. -/
def «at» (s : Solver) (bounds : Bounds) : SolverM Dual := fun c =>
  if s.spec.maxEvaluations ≤ c.evaluations then (.error .budgetExhausted, c)
  else
    ((dualResidual s.inputs.toForecastOf s.spec.toSolveSpecFields bounds s.target).mapError .numeric,
      { c with evaluations := c.evaluations + 1 })

/-- The tolerance of the residual, rounded at every step. -/
def tolerance (s : Solver) : Except NumericError Decimal := do
  raising (context.add s.spec.absoluteTolerance
    (← raising (context.mul s.spec.relativeTolerance (← raising (context.abs s.target)))))

/-- The two-part acceptance test of a bracket; the residual is only read for a narrow bracket. -/
def accepts (s : Solver) (tolerance : Decimal) (bracket residual : Bounds) : Except NumericError Bool := do
  if (← raising (context.sub bracket.hi bracket.lo)) ≤ s.spec.widthTolerance then
    let lo ← raising (context.abs residual.lo)
    let hi ← raising (context.abs residual.hi)
    pure (decide (Decimal.maximum lo hi ≤ tolerance))
  else pure false

/-- How a turn of the bisection loop ends. -/
inductive RefineTurn where
  | done (result : Option (Bounds × Bounds))
  | again (bracket : Bounds)

/-- One turn of the bisection loop. -/
def refineTurn (s : Solver) (tolerance : Decimal) (leftSign : ℤ) (bracket : Bounds) : SolverM RefineTurn := do
  SolverM.modify fun c => { c with iterations := c.iterations + 1 }
  let residual := (← s.at bracket).value
  if ← SolverM.numeric (s.accepts tolerance bracket residual) then pure (.done (some (bracket, residual)))
  else
    let mid ← SolverM.numeric (midpoint bracket.lo bracket.hi)
    if mid.NumEq bracket.lo ∨ mid.NumEq bracket.hi then pure (.done none)
    else
      let sign := (← s.at (.point mid)).value.sign
      if sign ≠ 0 then
        pure (.again (if sign = leftSign then ⟨mid, bracket.hi⟩ else ⟨bracket.lo, mid⟩))
      else
        -- an exact root is never inferred from a rounded residual
        let low ← SolverM.numeric (midpoint bracket.lo mid)
        let high ← SolverM.numeric (midpoint mid bracket.hi)
        let ls := (← s.at (.point low)).value.sign
        let hs := (← s.at (.point high)).value.sign
        if ls = leftSign ∧ hs = -leftSign then pure (.again ⟨low, high⟩)
        else pure (.done none)

/-- The bisection loop, with the remaining number of iterations. -/
def refineLoop (s : Solver) (tolerance : Decimal) (leftSign : ℤ) :
    ℕ → Bounds → SolverM (Option (Bounds × Bounds))
  | 0, _ => pure none
  | rounds + 1, bracket => do
    match ← s.refineTurn tolerance leftSign bracket with
    | .done result => pure result
    | .again next => s.refineLoop tolerance leftSign rounds next

/-- Narrow a bracket with opposite certified signs until it is accepted. -/
def refine (s : Solver) (bracket : Bounds) (leftSign : ℤ) : SolverM (Option (Bounds × Bounds)) := do
  let tolerance ← SolverM.numeric s.tolerance
  s.refineLoop tolerance leftSign s.spec.maxIterations bracket

/-- The band that contains the kink of the tax base of a year with a positive weight. -/
def kink (anchor weight : Decimal) : Except NumericError Bounds := do
  let numerator ← (Bounds.point anchor).neg.mul (← (Bounds.point (.ofInt 1)).sub (.point weight))
  numerator.div (.point weight)

/-- Insert a cut into sorted cuts unless an equal one is there. -/
def insertCut (v : Decimal) : List Decimal → List Decimal
  | [] => [v]
  | c :: rest => if v < c then v :: c :: rest else if c < v then c :: insertCut v rest else c :: rest

/-- The sorted cuts of the domain: its ends and the kink bands of a margin solve. -/
def cuts (s : Solver) : Except NumericError (List Decimal) :=
  let ends := [s.spec.lower, s.spec.upper]
  if s.spec.solveVariable = .terminalOperatingMargin then
    s.spec.marginWeights.foldlM
      (fun cuts weight => do
        if .ofInt 0 < weight then
          let kink ← kink (s.spec.anchorMargin.getD (.ofInt 0)) weight
          let inside := [kink.lo, kink.hi].filter fun v => s.spec.lower < v ∧ v < s.spec.upper
          pure (inside.foldl (fun cuts v => insertCut v cuts) cuts)
        else pure cuts)
      ends
  else pure ends

/-- The regions between consecutive cuts. -/
def regionsBetween : List Decimal → List Bounds
  | a :: b :: rest => ⟨a, b⟩ :: regionsBetween (b :: rest)
  | _ => []

/-- Cut the domain at the kinks; every inner cut counts as a subdivision. -/
def partition (s : Solver) : SolverM (List Bounds) := do
  let ordered ← SolverM.numeric s.cuts
  SolverM.modify fun c => { c with subdivisions := ordered.length - 2 }
  pure (regionsBetween ordered)

/-- What the evaluations of a region show. -/
structure Inspection where
  result : Dual
  left : Option Bounds
  right : Option Bounds
  root : Option (Bounds × Bounds)
  disposition : Disposition

/-- Evaluate a region, and its ends when its slopes have one sign. -/
def inspect (s : Solver) (current : Bounds) : SolverM Inspection := do
  let result ← s.at current
  if result.value.sign ≠ 0 then pure ⟨result, none, none, none, .excluded⟩
  else if result.derivative.sign ≠ 0 then
    let left := (← s.at (.point current.lo)).value
    let right := (← s.at (.point current.hi)).value
    if left.sign ≠ 0 ∧ left.sign = right.sign then pure ⟨result, some left, some right, none, .excluded⟩
    else if left.sign * right.sign = -1 then
      match ← s.refine current left.sign with
      | some refined => pure ⟨result, some left, some right, some refined, .uniqueRoot⟩
      | none => pure ⟨result, some left, some right, none, .unresolved⟩
    else pure ⟨result, some left, some right, none, .unresolved⟩
  else pure ⟨result, none, none, none, .unresolved⟩

/-- Whether an unresolved region is split at its midpoint. -/
def splits (s : Solver) (current : Bounds) (mid : Decimal) (subdivisions : ℕ) : Except NumericError Bool :=
  if subdivisions < s.spec.maxSubdivisions ∧ ¬ (mid.NumEq current.lo ∨ mid.NumEq current.hi) then do
    let width ← raising (context.sub current.hi current.lo)
    pure (decide (s.spec.widthTolerance < width))
  else pure false

/-- The validated record of a region. -/
def record (current : Bounds) (seen : Inspection) : Except Raised ProofRegion := do
  let domain ← current.toInterval
  let residual ← seen.result.value.toInterval
  let derivative ← seen.result.derivative.toInterval
  let leftResidual ← seen.left.mapM Bounds.toInterval
  let rightResidual ← seen.right.mapM Bounds.toInterval
  let root ← (seen.root.map (·.1)).mapM Bounds.toInterval
  pure ⟨domain, residual, derivative, seen.disposition, leftResidual, rightResidual, root⟩

/-- What visiting a region leads to. -/
inductive Visit where
  | split (mid : Decimal)
  | recorded (proof : ProofRegion) (root : Option (Bounds × Bounds))

/-- Visit one region. -/
def visit (s : Solver) (current : Bounds) : SolverM Visit := do
  let seen ← s.inspect current
  if seen.disposition = .unresolved then
    let mid ← SolverM.numeric (midpoint current.lo current.hi)
    if ← SolverM.numeric (s.splits current mid (← SolverM.read).subdivisions) then
      SolverM.modify fun c => { c with subdivisions := c.subdivisions + 1 }
      pure (.split mid)
    else
      let proof ← SolverM.lift (record current seen)
      pure (.recorded proof none)
  else
    let proof ← SolverM.lift (record current seen)
    pure (.recorded proof seen.root)

/-- The variables of the run. The head of `pending` is the region visited next. -/
structure LoopState where
  pending : List Bounds
  current : Option Bounds
  proofs : List ProofRegion
  roots : List Bounds
  residuals : List Bounds
  unresolved : Bool
  counters : Counters

/-- The state before any region is visited. -/
def start (pending : List Bounds) (counters : Counters) : LoopState :=
  ⟨pending, none, [], [], [], false, counters⟩

/-- One turn of the loop on the next region, with the exception that interrupts it. -/
def turn (s : Solver) (st : LoopState) (current : Bounds) (rest : List Bounds) : Option Raised × LoopState :=
  match s.visit current st.counters with
  | (.ok (.split mid), c) =>
    (none, { st with pending := ⟨current.lo, mid⟩ :: ⟨mid, current.hi⟩ :: rest, counters := c })
  | (.ok (.recorded proof root), c) =>
    (none,
      { st with
        pending := rest
        proofs := st.proofs ++ [proof]
        roots := st.roots ++ (root.map (·.1)).toList
        residuals := st.residuals ++ (root.map (·.2)).toList
        unresolved := st.unresolved || proof.disposition == .unresolved
        counters := c })
  | (.error e, c) => (some e, { st with pending := rest, current := some current, counters := c })

/-- The loop over the pending regions; the fuel bounds the number of turns. -/
def loop (s : Solver) : ℕ → LoopState → Option Raised × LoopState
  | 0, st => (none, st)
  | fuel + 1, st =>
    match st.pending with
    | [] => (none, st)
    | current :: rest =>
      match s.turn st current rest with
      | (none, st') => s.loop fuel st'
      | (some e, st') => (some e, st')

/-- The guarded part of the run: the partition, its budget check and the loop. -/
def explore (s : Solver) : Option Raised × LoopState :=
  let whole := [⟨s.spec.lower, s.spec.upper⟩]
  match s.partition {} with
  | (.error e, c) => (some e, start whole c)
  | (.ok regions, c) =>
    if s.spec.maxSubdivisions < c.subdivisions then
      (some .budgetExhausted, start whole { c with subdivisions := 0 })
    else s.loop (regions.length + 2 * s.spec.maxSubdivisions) (start regions c)

/-- The regions that the run retains without a proof. -/
def LoopState.remaining (st : LoopState) : List Bounds := st.current.toList ++ st.pending.reverse

/-- The outcome from the certified roots when nothing is left open. -/
def outcome (st : LoopState) (reasons : List String) : SolveState :=
  if reasons ≠ [] then .inconclusive
  else if 1 < st.roots.length then .nonUnique
  else if st.roots ≠ [] then .converged
  else .noSolutionInDomain

/-- Build and validate the result of a run. -/
def report (st : LoopState) (unresolved : Bool) (reason : String) : Except Raised SolveResult := do
  let reasons := if unresolved ∨ st.remaining ≠ [] then [reason] else []
  let state := outcome st reasons
  let chosen := if state = .converged then st.roots.head? else none
  let representative ← chosen.mapM fun b => (midpoint b.lo b.hi).mapError Raised.numeric
  let interval ← chosen.mapM Bounds.toInterval
  let residual ← (if state = .converged then st.residuals.head? else none).mapM Bounds.toInterval
  let rootIntervals ← st.roots.mapM Bounds.toInterval
  let remaining ← st.remaining.mapM Bounds.toInterval
  SolveResult.validate
    { state, representative, interval, residual, rootIntervals
      unresolvedDomains :=
        remaining ++ (st.proofs.filter fun p => p.disposition = .unresolved).map (·.domain)
      proof := st.proofs
      evaluations := st.counters.evaluations
      subdivisions := st.counters.subdivisions
      iterations := st.counters.iterations
      reasons }

/-- The run: an exception other than a validation error leaves an inconclusive result. -/
def run (s : Solver) : Except Raised SolveResult :=
  match s.explore with
  | (none, st) => report st st.unresolved "uncertified_domain"
  | (some (.valueError message), _) => .error (.valueError message)
  | (some .budgetExhausted, st) => report st true "evaluation_budget"
  | (some _, st) => report st true "numeric_precision"

end Solver

/-- Solve for the unknown that makes the exact model value meet the target. -/
def solve (inputs : Forecast) (spec : SolveSpec) (target : Decimal) : Except Raised SolveResult :=
  if spec.solveVariable = .terminalOperatingMargin ∧ spec.marginWeights.length ≠ inputs.growth.length then
    .error (.valueError "Margin fade must cover every forecast year")
  else Solver.run ⟨inputs, spec, target⟩

end EquityEval.Valuation
