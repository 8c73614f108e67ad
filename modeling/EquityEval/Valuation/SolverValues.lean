import EquityEval.Valuation.Representation

/-!
# Solving numerically equal forecasts

Two solvers whose forecasts are numerically equal visit the same regions with the same counters, and so they end alike. Brackets
and the representative come from the bounds of the specification alone and are the same; residuals are numerically equal.
-/

namespace EquityEval.Valuation

open DecimalArithmetic

namespace SolverM

/-- Methods that keep equal counters equal and raise the same error or return related results. -/
def exceptExcept : MonadRelation SolverM SolverM where
  Rel R x y := ∀ c, Alike R (x c).1 (y c).1 ∧ (x c).2 = (y c).2
  pure h _ := ⟨Alike.ok h, rfl⟩
  bind := by
    intro α β γ δ R S x y f g hxy hfg c
    obtain ⟨hresult, hcounters⟩ := hxy c
    rw [bind_apply, bind_apply]
    cases hx : x c with
    | mk rx cx =>
      cases hy : y c with
      | mk ry cy =>
        rw [hx, hy] at hresult hcounters
        obtain rfl : cx = cy := hcounters
        rcases hresult with ⟨a, b, hra, hrb, hab⟩ | ⟨e, hra, hrb⟩
        · obtain rfl : rx = .ok a := hra
          obtain rfl : ry = .ok b := hrb
          exact hfg a b hab cx
        · obtain rfl : rx = .error e := hra
          obtain rfl : ry = .error e := hrb
          exact ⟨.inr ⟨e, rfl, rfl⟩, rfl⟩

/-- The methods keep equal counters equal and raise the same error or return related results. -/
abbrev AlikeM {α β : Type} (R : α → β → Prop) (x : SolverM α) (y : SolverM β) : Prop := exceptExcept.Rel R x y

variable {α β : Type} {R : α → β → Prop}

/-- Lifted computations are as alike as the computations. -/
theorem alike_lift {x : Except Raised α} {y : Except Raised β} (h : Alike R x y) : AlikeM R (lift x) (lift y) :=
  fun _ => ⟨h, rfl⟩

/-- Numeric computations are as alike as the computations. -/
theorem alike_numeric {x : Except NumericError α} {y : Except NumericError β} (h : Alike R x y) :
    AlikeM R (numeric x) (numeric y) := alike_lift (h.mapError _)

/-- A method is alike to itself. -/
theorem alike_refl {R : α → α → Prop} (hR : ∀ a, R a a) (x : SolverM α) : AlikeM R x x :=
  fun c => ⟨Alike.refl hR (x c).1, rfl⟩

end SolverM

open SolverM

/-- Numerically equal ends of an interval. -/
def Interval.NumEq (i j : Interval) : Prop := i.lower.NumEq j.lower ∧ i.upper.NumEq j.upper

/-- An interval is numerically equal to itself. -/
theorem Interval.NumEq.refl (i : Interval) : i.NumEq i := ⟨rfl, rfl⟩

/-- Numerically equal bounds make numerically equal intervals. -/
theorem Bounds.toInterval_congr {b b' : Bounds} (h : b.NumEq b') : Alike Interval.NumEq b.toInterval b'.toInterval := by
  unfold toInterval
  simp only [h.1.le_iff h.2]
  split
  · exact Alike.ok h
  · exact .inr ⟨_, rfl, rfl⟩

namespace Solver

variable {f g : Forecast} {spec : SolveSpec} {target : Decimal}

/-- A bracket with the bounds of its residual: the same bracket, and residuals that are numerically equal. -/
def SameRoot (p q : Bounds × Bounds) : Prop := p.1 = q.1 ∧ p.2.NumEq q.2

/-- One turn of two bisections ends alike. -/
inductive RefineTurn.Same : RefineTurn → RefineTurn → Prop
  | done {p q : Option (Bounds × Bounds)} (h : Option.Rel SameRoot p q) : Same (.done p) (.done q)
  | again (bracket : Bounds) : Same (.again bracket) (.again bracket)

/-- The acceptance test reads values only. -/
theorem accepts_congr {tolerance : Decimal} {bracket residual residual' : Bounds} (hresidual : residual.NumEq residual') :
    Alike Eq (accepts ⟨f, spec, target⟩ tolerance bracket residual) (accepts ⟨g, spec, target⟩ tolerance bracket residual') := by
  let M := MonadRelation.exceptExcept NumericError
  unfold accepts
  refine M.bind (Alike.refl (R := Eq) (fun _ => rfl) _) fun width _ hwidth => ?_
  subst hwidth
  split
  · refine M.bind ((context.abs_congr hresidual.1).mapError _) fun _ _ hlo => ?_
    refine M.bind ((context.abs_congr hresidual.2).mapError _) fun _ _ hhi => Alike.ok ?_
    exact decide_eq_decide.mpr ((Decimal.NumEq.maximum hlo hhi).le_iff (.refl _))
  · exact Alike.ok rfl

section

variable (h : f.toForecastOf.Related Decimal.NumEq g.toForecastOf)

include h

/-- Evaluations at the same bounds are alike. -/
theorem at_congr (bounds : Bounds) :
    AlikeM Dual.NumEq («at» ⟨f, spec, target⟩ bounds) («at» ⟨g, spec, target⟩ bounds) := by
  intro c
  unfold «at»
  split
  · exact ⟨.inr ⟨_, rfl, rfl⟩, rfl⟩
  · exact ⟨(dualResidual_congr h _ bounds target).mapError _, rfl⟩

/-- Turns of the bisection on the same bracket end alike. -/
theorem refineTurn_congr (tolerance : Decimal) (leftSign : ℤ) (bracket : Bounds) :
    AlikeM RefineTurn.Same (refineTurn ⟨f, spec, target⟩ tolerance leftSign bracket)
      (refineTurn ⟨g, spec, target⟩ tolerance leftSign bracket) := by
  let M := exceptExcept
  have hnumeric : ∀ {α : Type} (x : Except NumericError α), AlikeM Eq (numeric x) (numeric x) := fun x => alike_refl (fun _ => rfl) _
  unfold refineTurn
  refine M.bind (alike_refl (R := Eq) (fun _ => rfl) _) fun _ _ _ => ?_
  refine M.bind (at_congr h bracket) fun _ _ hat => ?_
  refine M.bind (alike_numeric (accepts_congr hat.1)) fun accepted _ haccepted => ?_
  subst haccepted
  split
  · exact M.pure (.done (.some ⟨rfl, hat.1⟩))
  refine M.bind (hnumeric _) fun mid _ hmid => ?_
  subst hmid
  split
  · exact M.pure (.done .none)
  refine M.bind (at_congr h _) fun _ _ hmiddle => ?_
  rw [Bounds.sign_congr hmiddle.1]
  dsimp only
  split
  · exact M.pure (.again _)
  refine M.bind (hnumeric _) fun low _ hlow => ?_
  subst hlow
  refine M.bind (hnumeric _) fun high _ hhigh => ?_
  subst hhigh
  refine M.bind (at_congr h _) fun _ _ hleft => ?_
  refine M.bind (at_congr h _) fun _ _ hright => ?_
  rw [Bounds.sign_congr hleft.1, Bounds.sign_congr hright.1]
  split
  · exact M.pure (.again _)
  · exact M.pure (.done .none)

/-- Bisections of the same bracket end alike. -/
theorem refineLoop_congr (tolerance : Decimal) (leftSign : ℤ) (rounds : ℕ) (bracket : Bounds) :
    AlikeM (Option.Rel SameRoot) (refineLoop ⟨f, spec, target⟩ tolerance leftSign rounds bracket)
      (refineLoop ⟨g, spec, target⟩ tolerance leftSign rounds bracket) := by
  induction rounds generalizing bracket with
  | zero => exact exceptExcept.pure .none
  | succ rounds ih =>
    refine exceptExcept.bind (refineTurn_congr h tolerance leftSign bracket) fun turn turn' hturn => ?_
    cases hturn with
    | done hroot => exact exceptExcept.pure hroot
    | again next => exact ih next

/-- Refinements of the same bracket end alike. -/
theorem refine_congr (bracket : Bounds) (leftSign : ℤ) :
    AlikeM (Option.Rel SameRoot) (refine ⟨f, spec, target⟩ bracket leftSign) (refine ⟨g, spec, target⟩ bracket leftSign) := by
  refine exceptExcept.bind (alike_refl (R := Eq) (fun _ => rfl) _) fun tolerance _ htolerance => ?_
  subst htolerance
  exact refineLoop_congr h tolerance leftSign _ bracket

/-- What the evaluations of a region show: the same disposition, with numerically equal bounds. -/
structure Inspection.Same (seen seen' : Inspection) : Prop where
  result : seen.result.NumEq seen'.result
  left : Option.Rel Bounds.NumEq seen.left seen'.left
  right : Option.Rel Bounds.NumEq seen.right seen'.right
  root : Option.Rel SameRoot seen.root seen'.root
  disposition : seen.disposition = seen'.disposition

/-- Inspections of the same region are alike. -/
theorem inspect_congr (current : Bounds) :
    AlikeM Inspection.Same (inspect ⟨f, spec, target⟩ current) (inspect ⟨g, spec, target⟩ current) := by
  let M := exceptExcept
  unfold inspect
  refine M.bind (at_congr h current) fun _ _ hresult => ?_
  rw [Bounds.sign_congr hresult.1, Bounds.sign_congr hresult.2]
  split
  · exact M.pure ⟨hresult, .none, .none, .none, rfl⟩
  split
  · refine M.bind (at_congr h _) fun _ _ hleft => ?_
    refine M.bind (at_congr h _) fun _ _ hright => ?_
    rw [Bounds.sign_congr hleft.1]
    dsimp only
    rw [Bounds.sign_congr hright.1]
    split
    · exact M.pure ⟨hresult, .some hleft.1, .some hright.1, .none, rfl⟩
    split
    · refine M.bind (refine_congr h current _) fun root root' hroot => ?_
      cases hroot with
      | some hsame => exact M.pure ⟨hresult, .some hleft.1, .some hright.1, .some hsame, rfl⟩
      | none => exact M.pure ⟨hresult, .some hleft.1, .some hright.1, .none, rfl⟩
    · exact M.pure ⟨hresult, .some hleft.1, .some hright.1, .none, rfl⟩
  · exact M.pure ⟨hresult, .none, .none, .none, rfl⟩

end

end Solver

/-- Records of the same region with numerically equal bounds. -/
structure ProofRegion.NumEq (p q : ProofRegion) : Prop where
  domain : p.domain = q.domain
  residual : p.residual.NumEq q.residual
  derivative : p.derivative.NumEq q.derivative
  disposition : p.disposition = q.disposition
  leftResidual : Option.Rel Interval.NumEq p.leftResidual q.leftResidual
  rightResidual : Option.Rel Interval.NumEq p.rightResidual q.rightResidual
  root : p.root = q.root

/-- Optional bounds that are numerically equal make numerically equal intervals. -/
theorem mapM_toInterval_congr {b b' : Option Bounds} (h : Option.Rel Bounds.NumEq b b') :
    Alike (Option.Rel Interval.NumEq) (b.mapM Bounds.toInterval) (b'.mapM Bounds.toInterval) := by
  cases h with
  | none => exact Alike.ok .none
  | some hb =>
    exact (MonadRelation.exceptExcept Raised).bind (Bounds.toInterval_congr hb) fun _ _ hi => Alike.ok (.some hi)

namespace Solver

variable {f g : Forecast} {spec : SolveSpec} {target : Decimal}

/-- Roots that are the same have the same bracket. -/
theorem brackets_eq {r r' : Option (Bounds × Bounds)} (h : Option.Rel SameRoot r r') : r.map (·.1) = r'.map (·.1) := by
  cases h with
  | none => rfl
  | some hsame => exact congrArg some hsame.1

/-- Records of the same region are alike. -/
theorem record_congr (current : Bounds) {seen seen' : Inspection} (hseen : seen.Same seen') :
    Alike ProofRegion.NumEq (record current seen) (record current seen') := by
  let M := MonadRelation.exceptExcept Raised
  unfold record
  rw [brackets_eq hseen.root, hseen.disposition]
  refine M.bind (Alike.refl (R := Eq) (fun _ => rfl) _) fun domain _ hdomain => ?_
  subst hdomain
  refine M.bind (Bounds.toInterval_congr hseen.result.1) fun _ _ hresidual => ?_
  refine M.bind (Bounds.toInterval_congr hseen.result.2) fun _ _ hderivative => ?_
  refine M.bind (mapM_toInterval_congr hseen.left) fun _ _ hleft => ?_
  refine M.bind (mapM_toInterval_congr hseen.right) fun _ _ hright => ?_
  refine M.bind (Alike.refl (R := Eq) (fun _ => rfl) _) fun root _ hroot => ?_
  subst hroot
  exact Alike.ok ⟨rfl, hresidual, hderivative, rfl, hleft, hright, rfl⟩

/-- Two visits of the same region lead to the same. -/
inductive Visit.Same : Visit → Visit → Prop
  | split (mid : Decimal) : Same (.split mid) (.split mid)
  | recorded {p q : ProofRegion} {r r' : Option (Bounds × Bounds)} (hproof : p.NumEq q) (hroot : Option.Rel SameRoot r r') :
    Same (.recorded p r) (.recorded q r')

/-- Visits of the same region are alike. -/
theorem visit_congr (spec : SolveSpec) (target : Decimal) (h : f.toForecastOf.Related Decimal.NumEq g.toForecastOf) (current : Bounds) :
    AlikeM Visit.Same (visit ⟨f, spec, target⟩ current) (visit ⟨g, spec, target⟩ current) := by
  let M := exceptExcept
  unfold visit
  refine M.bind (inspect_congr h current) fun seen seen' hseen => ?_
  rw [hseen.disposition]
  split
  · refine M.bind (alike_refl (R := Eq) (fun _ => rfl) _) fun mid _ hmid => ?_
    subst hmid
    refine M.bind (alike_refl (R := Eq) (fun _ => rfl) _) fun counters _ hcounters => ?_
    subst hcounters
    refine M.bind (alike_refl (R := Eq) (fun _ => rfl) _) fun splits _ hsplits => ?_
    subst hsplits
    split
    · exact M.bind (alike_refl (R := Eq) (fun _ => rfl) _) fun _ _ _ => M.pure (.split mid)
    · exact M.bind (alike_lift (record_congr current hseen)) fun _ _ hproof => M.pure (.recorded hproof .none)
  · exact M.bind (alike_lift (record_congr current hseen)) fun _ _ hproof => M.pure (.recorded hproof hseen.root)

/-- The variables of two runs that go alike. -/
structure LoopState.Same (st st' : LoopState) : Prop where
  pending : st.pending = st'.pending
  current : st.current = st'.current
  proofs : List.Forall₂ ProofRegion.NumEq st.proofs st'.proofs
  roots : st.roots = st'.roots
  residuals : List.Forall₂ Bounds.NumEq st.residuals st'.residuals
  unresolved : st.unresolved = st'.unresolved
  counters : st.counters = st'.counters

/-- The beginning of two runs. -/
theorem LoopState.Same.start (pending : List Bounds) (counters : Counters) :
    (Solver.start pending counters).Same (Solver.start pending counters) :=
  ⟨rfl, rfl, .nil, rfl, .nil, rfl, rfl⟩

/-- A turn of two runs that go alike keeps them so. -/
theorem turn_congr (spec : SolveSpec) (target : Decimal) (h : f.toForecastOf.Related Decimal.NumEq g.toForecastOf) {st st' : LoopState} (hst : st.Same st')
    (current : Bounds) (rest : List Bounds) :
    (turn ⟨f, spec, target⟩ st current rest).1 = (turn ⟨g, spec, target⟩ st' current rest).1 ∧
      (turn ⟨f, spec, target⟩ st current rest).2.Same (turn ⟨g, spec, target⟩ st' current rest).2 := by
  obtain ⟨hvisit, hcounters⟩ := visit_congr spec target h current st.counters
  unfold turn
  rw [← hst.counters]
  cases hx : visit ⟨f, spec, target⟩ current st.counters with
  | mk x c =>
    cases hy : visit ⟨g, spec, target⟩ current st.counters with
    | mk y c' =>
      rw [hx, hy] at hvisit hcounters
      obtain rfl : c = c' := hcounters
      rcases hvisit with ⟨v, v', hv, hv', hsame⟩ | ⟨e, he, he'⟩
      · obtain rfl : x = .ok v := hv
        obtain rfl : y = .ok v' := hv'
        cases hsame with
        | split mid => exact ⟨rfl, rfl, hst.current, hst.proofs, hst.roots, hst.residuals, hst.unresolved, rfl⟩
        | recorded hproof hroot =>
          refine ⟨rfl, rfl, hst.current, List.rel_append hst.proofs (.cons hproof .nil), ?_, ?_, ?_, rfl⟩
          · cases hroot with
            | none => simp [hst.roots]
            | some hroot => simp [hst.roots, hroot.1]
          · cases hroot with
            | none => exact List.rel_append hst.residuals .nil
            | some hroot => exact List.rel_append hst.residuals (.cons hroot.2 .nil)
          · simp [hst.unresolved, hproof.disposition]
      · obtain rfl : x = .error e := he
        obtain rfl : y = .error e := he'
        exact ⟨rfl, rfl, rfl, hst.proofs, hst.roots, hst.residuals, hst.unresolved, rfl⟩

/-- Two loops that start alike go alike. -/
theorem loop_congr (h : f.toForecastOf.Related Decimal.NumEq g.toForecastOf) (fuel : ℕ) {st st' : LoopState} (hst : st.Same st') :
    (loop ⟨f, spec, target⟩ fuel st).1 = (loop ⟨g, spec, target⟩ fuel st').1 ∧
      (loop ⟨f, spec, target⟩ fuel st).2.Same (loop ⟨g, spec, target⟩ fuel st').2 := by
  induction fuel generalizing st st' with
  | zero => exact ⟨rfl, hst⟩
  | succ fuel ih =>
    unfold loop
    rw [← hst.pending]
    cases st.pending with
    | nil => exact ⟨rfl, hst⟩
    | cons current rest =>
      obtain ⟨herror, hsame⟩ := turn_congr spec target h hst current rest
      cases hx : turn ⟨f, spec, target⟩ st current rest with
      | mk x next =>
        cases hy : turn ⟨g, spec, target⟩ st' current rest with
        | mk y next' =>
          rw [hx, hy] at herror hsame
          obtain rfl : x = y := herror
          dsimp only
          rw [hx, hy]
          cases x with
          | none => exact ih hsame
          | some e => exact ⟨rfl, hsame⟩

/-- The guarded parts of two runs go alike. -/
theorem explore_congr (spec : SolveSpec) (target : Decimal) (h : f.toForecastOf.Related Decimal.NumEq g.toForecastOf) :
    (explore ⟨f, spec, target⟩).1 = (explore ⟨g, spec, target⟩).1 ∧
      (explore ⟨f, spec, target⟩).2.Same (explore ⟨g, spec, target⟩).2 := by
  have hpartition : partition ⟨g, spec, target⟩ {} = partition ⟨f, spec, target⟩ {} := rfl
  unfold explore
  rw [hpartition]
  split
  · exact ⟨rfl, .start _ _⟩
  · split
    · exact ⟨rfl, .start _ _⟩
    · exact loop_congr h _ (.start _ _)

end Solver

/-! ### Results -/

/-- Results that differ in the representations of residuals and slopes at most. -/
structure SolveResultFields.NumEq (r r' : SolveResultFields) : Prop where
  state : r.state = r'.state
  representative : r.representative = r'.representative
  interval : r.interval = r'.interval
  residual : Option.Rel Interval.NumEq r.residual r'.residual
  rootIntervals : r.rootIntervals = r'.rootIntervals
  unresolvedDomains : r.unresolvedDomains = r'.unresolvedDomains
  proof : List.Forall₂ ProofRegion.NumEq r.proof r'.proof
  evaluations : r.evaluations = r'.evaluations
  subdivisions : r.subdivisions = r'.subdivisions
  iterations : r.iterations = r'.iterations
  reasons : r.reasons = r'.reasons

/-- The results differ in the representations of residuals and slopes at most. -/
def SolveResult.NumEq (r r' : SolveResult) : Prop := r.toSolveResultFields.NumEq r'.toSolveResultFields

/-- The check of a result reads values only. -/
theorem scalarRequiresCertificate_congr {r r' : SolveResultFields} (h : r.NumEq r') :
    r.scalarRequiresCertificate = r'.scalarRequiresCertificate := by
  have hproof : r.proof = [] ↔ r'.proof = [] := by
    rw [← List.length_eq_zero_iff, ← List.length_eq_zero_iff, h.proof.length_eq]
  obtain ⟨hstate, hrepresentative, hinterval, hresidual, hroots⟩ := h
  cases r with
  | mk state representative interval residual rootIntervals =>
    cases r'
    dsimp only at *
    subst hstate hrepresentative hinterval hroots
    simp only [SolveResultFields.scalarRequiresCertificate]
    cases hresidual with
    | none => cases representative <;> cases interval <;> rfl
    | some _ => cases representative <;> cases interval <;> simp only [hproof]

/-- Results with numerically equal slots are validated alike. -/
theorem SolveResult.validate_congr {r r' : SolveResultFields} (h : r.NumEq r') :
    Alike SolveResult.NumEq (SolveResult.validate r) (SolveResult.validate r') := by
  have hcheck := scalarRequiresCertificate_congr h
  cases hr : r.scalarRequiresCertificate with
  | ok _ =>
    obtain ⟨x, hx⟩ := SolveResult.validate_isOk hr
    obtain ⟨y, hy⟩ := SolveResult.validate_isOk (hcheck ▸ hr)
    rw [hx, hy]
    refine Alike.ok ?_
    rw [SolveResult.NumEq, SolveResult.fields_of_validate hx, SolveResult.fields_of_validate hy]
    exact h
  | error message =>
    have hr' : r'.scalarRequiresCertificate = .error message := hcheck ▸ hr
    have hfails : ∀ fields : SolveResultFields, fields.scalarRequiresCertificate = .error message →
        SolveResult.validate fields = .error (.valueError message) := by
      intro fields hfields
      unfold SolveResult.validate
      split
      · rename_i hok
        rw [hfields] at hok
        cases hok
      · rename_i message' heq
        rw [hfields] at heq
        cases heq
        rfl
    rw [hfails r hr, hfails r' hr']
    exact .inr ⟨_, rfl, rfl⟩

namespace Solver

variable {f g : Forecast} {spec : SolveSpec} {target : Decimal}

/-- The regions that two runs retain are the same. -/
theorem remaining_congr {st st' : LoopState} (h : st.Same st') : st.remaining = st'.remaining := by
  unfold LoopState.remaining
  rw [h.current, h.pending]

/-- The regions that two runs could not resolve are the same. -/
theorem unresolved_congr {proofs proofs' : List ProofRegion} (h : List.Forall₂ ProofRegion.NumEq proofs proofs') :
    (proofs.filter fun p => p.disposition = .unresolved).map (·.domain) =
      (proofs'.filter fun p => p.disposition = .unresolved).map (·.domain) := by
  induction h with
  | nil => rfl
  | cons hp _ ih =>
    simp only [List.filter_cons, hp.disposition]
    split
    · rw [List.map_cons, List.map_cons, hp.domain, ih]
    · exact ih

/-- Related lists have related first entries. -/
theorem head?_related {α β : Type} {R : α → β → Prop} {l : List α} {l' : List β} (h : List.Forall₂ R l l') :
    Option.Rel R l.head? l'.head? := by
  cases h with
  | nil => exact .none
  | cons hr _ => exact .some hr

/-- Reports of runs that went alike are alike. -/
theorem report_congr {st st' : LoopState} (h : st.Same st') (unresolved : Bool) (reason : String) :
    Alike SolveResult.NumEq (report st unresolved reason) (report st' unresolved reason) := by
  let M := MonadRelation.exceptExcept Raised
  have hrefl : ∀ {α : Type} (x : Except Raised α), Alike Eq x x := fun x => Alike.refl (fun _ => rfl) x
  have houtcome : ∀ reasons, outcome st reasons = outcome st' reasons := by
    intro reasons
    rw [outcome, outcome, h.roots]
  have hresidual : ∀ state : SolveState, Option.Rel Bounds.NumEq (if state = .converged then st.residuals.head? else none)
      (if state = .converged then st'.residuals.head? else none) := by
    intro state
    split
    · exact head?_related h.residuals
    · exact .none
  unfold report
  rw [remaining_congr h, h.roots]
  simp only [houtcome]
  refine M.bind (hrefl _) fun representative _ hrepresentative => ?_
  subst hrepresentative
  refine M.bind (hrefl _) fun interval _ hinterval => ?_
  subst hinterval
  refine M.bind (mapM_toInterval_congr (hresidual _)) fun residual _ hresiduals => ?_
  refine M.bind (hrefl _) fun rootIntervals _ hroots => ?_
  subst hroots
  refine M.bind (hrefl _) fun remaining _ hremaining => ?_
  subst hremaining
  refine SolveResult.validate_congr ⟨rfl, rfl, rfl, hresiduals, rfl, ?_, h.proofs, ?_, ?_, ?_, rfl⟩
  · rw [unresolved_congr h.proofs]
  all_goals rw [h.counters]

/-- Runs on numerically equal forecasts end alike. -/
theorem run_congr (h : f.toForecastOf.Related Decimal.NumEq g.toForecastOf) :
    Alike SolveResult.NumEq (run ⟨f, spec, target⟩) (run ⟨g, spec, target⟩) := by
  obtain ⟨herror, hsame⟩ := explore_congr spec target h
  unfold run
  cases hx : explore ⟨f, spec, target⟩ with
  | mk x st =>
    cases hy : explore ⟨g, spec, target⟩ with
    | mk y st' =>
      rw [hx, hy] at herror hsame
      obtain rfl : x = y := herror
      cases x with
      | none =>
        have hunresolved : st.unresolved = st'.unresolved := hsame.unresolved
        simp only [hunresolved]
        exact report_congr hsame _ _
      | some e =>
        cases e with
        | valueError message => exact .inr ⟨_, rfl, rfl⟩
        | budgetExhausted => exact report_congr hsame _ _
        | numeric e => exact report_congr hsame _ _

end Solver

variable {f g : Forecast}

/-- Numerically equal forecasts are solved alike. -/
theorem solve_congr (h : f.toForecastOf.Related Decimal.NumEq g.toForecastOf) (spec : SolveSpec) (target : Decimal) :
    Alike SolveResult.NumEq (solve f spec target) (solve g spec target) := by
  unfold solve
  rw [h.growth.length_eq]
  split
  · exact .inr ⟨_, rfl, rfl⟩
  · exact Solver.run_congr h

end EquityEval.Valuation
