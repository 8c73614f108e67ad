import EquityEval.Valuation.Evidence
import Mathlib.Data.List.ReduceOption

/-!
# The regions of a run tile the domain

The stack is ordered: its head is the leftmost unvisited region, so the proved regions, the
current one and the stack list the domain from left to right. A split whose rounded midpoint
leaves its region inverts one half. An inverted region is never split and never recorded, so
it survives to the end, where building the result refuses it.
-/

namespace EquityEval.Valuation

open DecimalArithmetic IntervalCalculus Set

/-- The endpoints of an interval. -/
def Interval.bounds (i : Interval) : Bounds := ⟨i.lower, i.upper⟩

/-- A validated interval has the endpoints it was built from. -/
theorem Bounds.bounds_of_toInterval {b : Bounds} {i : Interval} (h : b.toInterval = .ok i) : i.bounds = b := by
  unfold toInterval at h
  split at h
  · cases h
    rfl
  · cases h

/-- The endpoints of a validated interval are ordered. -/
theorem Bounds.ordered_of_toInterval {b : Bounds} {i : Interval} (h : b.toInterval = .ok i) : b.lo ≤ b.hi := by
  rw [← bounds_of_toInterval h]
  exact i.ordered

/-- Ordered endpoints form an interval. -/
theorem Bounds.toInterval_isOk {b : Bounds} (h : b.lo ≤ b.hi) : b.toInterval = .ok ⟨b.lo, b.hi, h⟩ :=
  dif_pos h

/-- Regions in order that cover the range from `a` to `b` without gap or overlap. -/
def Tiles : Decimal → Decimal → List Bounds → Prop
  | a, b, [] => a = b
  | a, b, r :: rest => r.lo = a ∧ r.lo < r.hi ∧ Tiles r.hi b rest

/-- A tiling of a concatenation splits at the seam. -/
theorem tiles_append {a b : Decimal} {l₁ l₂ : List Bounds} :
    Tiles a b (l₁ ++ l₂) ↔ ∃ c, Tiles a c l₁ ∧ Tiles c b l₂ := by
  induction l₁ generalizing a with
  | nil => simp [Tiles]
  | cons r rest ih => simp only [List.cons_append, Tiles, ih, and_assoc, exists_and_left]

/-- The ends of a tiled range are ordered. -/
theorem Tiles.le {a b : Decimal} {l : List Bounds} (h : Tiles a b l) : a.value ≤ b.value := by
  induction l generalizing a with
  | nil => exact le_of_eq (congrArg _ h)
  | cons r rest ih =>
    obtain ⟨rfl, hlt, hrest⟩ := h
    exact (Decimal.lt_iff_value.mp hlt).le.trans (ih hrest)

/-- A tile is ordered and lies in the range. -/
theorem Tiles.mem_range {a b : Decimal} {l : List Bounds} (h : Tiles a b l) {r : Bounds} (hr : r ∈ l) :
    a.value ≤ r.lo.value ∧ r.lo.value < r.hi.value ∧ r.hi.value ≤ b.value := by
  induction l generalizing a with
  | nil => cases hr
  | cons t rest ih =>
    obtain ⟨rfl, hlt, hrest⟩ := h
    rw [Decimal.lt_iff_value] at hlt
    rcases List.mem_cons.mp hr with rfl | hmem
    · exact ⟨le_rfl, hlt, hrest.le⟩
    · obtain ⟨h1, h2, h3⟩ := ih hrest hmem
      exact ⟨hlt.le.trans h1, h2, h3⟩

/-- Every number of the range lies in a tile. -/
theorem Tiles.exists_mem {a b : Decimal} {l : List Bounds} (h : Tiles a b l) (hab : a ≠ b) {x : ℝ}
    (hx : x ∈ Icc (a.value : ℝ) b.value) : ∃ r ∈ l, x ∈ r.set := by
  induction l generalizing a with
  | nil => exact absurd h hab
  | cons r rest ih =>
    obtain ⟨rfl, _, hrest⟩ := h
    rcases le_total x r.hi.value with hle | hge
    · exact ⟨r, by simp, hx.1, hle⟩
    · by_cases hend : r.hi = b
      · exact ⟨r, by simp, hx.1, by rw [hend]; exact hx.2⟩
      · obtain ⟨t, ht, hmem⟩ := ih hrest hend ⟨hge, hx.2⟩
        exact ⟨t, by simp [ht], hmem⟩

namespace Solver

variable {s : Solver} {c c' : Counters}

/-- A region that is split is ordered, and its midpoint is not one of its ends. -/
theorem splits_eq_true {current : Bounds} {mid : Decimal} {n : ℕ} (h : s.splits current mid n = .ok true) :
    n < s.spec.maxSubdivisions ∧ ¬ (mid.NumEq current.lo ∨ mid.NumEq current.hi) ∧ current.lo < current.hi := by
  unfold splits at h
  split at h
  · rename_i hcond
    obtain ⟨width, hwidth, h⟩ := exists_of_bind_eq_ok h
    have hwide : s.spec.widthTolerance < width := by simpa [pure, Except.pure] using h
    refine ⟨hcond.1, hcond.2, lt_of_not_decimal_le fun hle => ?_⟩
    -- a region without positive width has no positive rounded width
    have hnonpos := (Context.sub_rounds (by decide) (raising_eq_ok.mp hwidth)).nonpos
      (sub_nonpos.mpr (Decimal.le_iff_value.mp hle))
    have htol := Decimal.lt_iff_value.mp s.spec.domain_of_accepted.widthTolerance_pos
    rw [Decimal.value_ofInt, Int.cast_zero] at htol
    exact absurd (Decimal.lt_iff_value.mp hwide) (not_lt.mpr (hnonpos.trans htol.le))
  · simp [pure, Except.pure] at h

/-- A proof with the bracket behind its root certifies its disposition. -/
def Evidence (s : Solver) (p : ProofRegion) (root : Option (Bounds × Bounds)) : Prop :=
  s.Certifies p.domain.bounds p.disposition root ∧ p.root.map Interval.bounds = root.map (·.1)

/-- A recorded region keeps its endpoints, its disposition and its root. -/
theorem record_eq_ok {current : Bounds} {seen : Inspection} {p : ProofRegion}
    (h : record current seen = .ok p) :
    p.domain.bounds = current ∧ p.disposition = seen.disposition ∧
      p.root.map Interval.bounds = seen.root.map (·.1) := by
  unfold record at h
  obtain ⟨domain, hdomain, h⟩ := exists_of_bind_eq_ok h
  obtain ⟨_, _, h⟩ := exists_of_bind_eq_ok h
  obtain ⟨_, _, h⟩ := exists_of_bind_eq_ok h
  obtain ⟨_, _, h⟩ := exists_of_bind_eq_ok h
  obtain ⟨_, _, h⟩ := exists_of_bind_eq_ok h
  obtain ⟨root, hroot, h⟩ := exists_of_bind_eq_ok h
  cases h
  refine ⟨Bounds.bounds_of_toInterval hdomain, rfl, ?_⟩
  cases hseen : seen.root with
  | none =>
    rw [hseen] at hroot
    cases hroot
    rfl
  | some r =>
    rw [hseen] at hroot
    obtain ⟨i, hi, hroot⟩ := exists_of_bind_eq_ok hroot
    cases hroot
    exact congrArg some (Bounds.bounds_of_toInterval hi)

/-- An evaluation only measures. -/
theorem measures_at (s : Solver) (b : Bounds) : SolverM.Measures (s.at b) := by
  intro c
  unfold «at»
  split
  · exact ⟨rfl, fun _ => nofun⟩
  · exact ⟨rfl, (SolverM.measures_numeric (dualResidual s.inputs.toForecastOf s.spec.toSolveSpecFields b s.target) c).2⟩

/-- A turn of the bisection loop only measures. -/
theorem measures_refineTurn (s : Solver) (tolerance : Decimal) (leftSign : ℤ) (b : Bounds) :
    SolverM.Measures (s.refineTurn tolerance leftSign b) := by
  unfold refineTurn
  refine SolverM.measures_bind (fun _ => ⟨rfl, fun _ => nofun⟩) fun _ => ?_
  refine SolverM.measures_bind (s.measures_at _) fun _ => ?_
  refine SolverM.measures_bind (SolverM.measures_numeric _) fun _ => ?_
  split
  · exact SolverM.measures_pure _
  refine SolverM.measures_bind (SolverM.measures_numeric _) fun _ => ?_
  split
  · exact SolverM.measures_pure _
  refine SolverM.measures_bind (s.measures_at _) fun _ => ?_
  dsimp only
  split
  · exact SolverM.measures_pure _
  refine SolverM.measures_bind (SolverM.measures_numeric _) fun _ => ?_
  refine SolverM.measures_bind (SolverM.measures_numeric _) fun _ => ?_
  refine SolverM.measures_bind (s.measures_at _) fun _ => ?_
  refine SolverM.measures_bind (s.measures_at _) fun _ => ?_
  split <;> exact SolverM.measures_pure _

/-- The bisection loop only measures. -/
theorem measures_refineLoop (s : Solver) (tolerance : Decimal) (leftSign : ℤ) (rounds : ℕ) (b : Bounds) :
    SolverM.Measures (s.refineLoop tolerance leftSign rounds b) := by
  induction rounds generalizing b with
  | zero => exact SolverM.measures_pure _
  | succ rounds ih =>
    unfold refineLoop
    refine SolverM.measures_bind (s.measures_refineTurn _ _ _) fun turn => ?_
    cases turn with
    | done result => exact SolverM.measures_pure _
    | again next => exact ih next

/-- An inspection only measures. -/
theorem measures_inspect (s : Solver) (b : Bounds) : SolverM.Measures (s.inspect b) := by
  unfold inspect
  refine SolverM.measures_bind (s.measures_at _) fun _ => ?_
  split
  · exact SolverM.measures_pure _
  split
  · refine SolverM.measures_bind (s.measures_at _) fun _ => ?_
    refine SolverM.measures_bind (s.measures_at _) fun _ => ?_
    dsimp only
    split
    · exact SolverM.measures_pure _
    split
    · refine SolverM.measures_bind ?_ fun r => ?_
      · exact SolverM.measures_bind (SolverM.measures_numeric _) fun _ => s.measures_refineLoop _ _ _ _
      · cases r <;> exact SolverM.measures_pure _
    · exact SolverM.measures_pure _
  · exact SolverM.measures_pure _

/-- What a visit of a region that returns leads to. -/
theorem visit_cases {current : Bounds} {v : Visit} (h : s.visit current c = (.ok v, c')) :
    (∃ mid, v = .split mid ∧ midpoint current.lo current.hi = .ok mid ∧
        s.splits current mid c.subdivisions = .ok true ∧ c'.subdivisions = c.subdivisions + 1) ∨
      ∃ p root, v = .recorded p root ∧ p.domain.bounds = current ∧ c'.subdivisions = c.subdivisions ∧
        (s.InDomain current.lo → s.InDomain current.hi → s.Evidence p root) := by
  unfold visit at h
  obtain ⟨seen, c₁, hseen, h⟩ := SolverM.exists_of_bind h
  have hkeeps : c₁.subdivisions = c.subdivisions := by simpa [hseen] using (s.measures_inspect current c).1
  split at h
  · rename_i hunresolved
    obtain ⟨mid, hmid, h⟩ := SolverM.exists_of_numeric_bind h
    rw [SolverM.read_bind] at h
    obtain ⟨split, hsplit, h⟩ := SolverM.exists_of_numeric_bind h
    split at h
    · rename_i htrue
      rw [hkeeps, htrue] at hsplit
      cases h
      exact Or.inl ⟨mid, rfl, hmid, hsplit, congrArg (· + 1) hkeeps⟩
    · obtain ⟨p, hp, h⟩ := SolverM.exists_of_lift_bind h
      cases h
      obtain ⟨hdomain, hdisposition, hroot⟩ := record_eq_ok hp
      refine Or.inr ⟨p, none, rfl, hdomain, hkeeps, fun hlo hhi => ?_⟩
      have hcertified := inspect_certifies hlo hhi hseen
      rw [hunresolved] at hcertified hdisposition
      unfold Evidence
      rw [hdomain, hdisposition, hroot]
      generalize seen.root = r at hcertified
      cases hcertified
      exact ⟨.unresolved, rfl⟩
  · obtain ⟨p, hp, h⟩ := SolverM.exists_of_lift_bind h
    cases h
    obtain ⟨hdomain, hdisposition, hroot⟩ := record_eq_ok hp
    refine Or.inr ⟨p, seen.root, rfl, hdomain, hkeeps, fun hlo hhi => ⟨?_, hroot⟩⟩
    rw [hdomain, hdisposition]
    exact inspect_certifies hlo hhi hseen

/-- The ways in which one turn of the loop can end. -/
inductive TurnTo (s : Solver) (st : LoopState) (current : Bounds) (rest : List Bounds) :
    Option Raised → LoopState → Prop where
  | split (mid : Decimal) (c : Counters) (hmid : midpoint current.lo current.hi = .ok mid)
    (hsplit : s.splits current mid st.counters.subdivisions = .ok true)
    (hcount : c.subdivisions = st.counters.subdivisions + 1) :
    s.TurnTo st current rest none
      { st with pending := ⟨current.lo, mid⟩ :: ⟨mid, current.hi⟩ :: rest, counters := c }
  | recorded (p : ProofRegion) (root : Option (Bounds × Bounds)) (c : Counters)
    (hdomain : p.domain.bounds = current) (hcount : c.subdivisions = st.counters.subdivisions)
    (hevidence : s.InDomain current.lo → s.InDomain current.hi → s.Evidence p root) :
    s.TurnTo st current rest none
      { st with
        pending := rest
        proofs := st.proofs ++ [p]
        roots := st.roots ++ (root.map (·.1)).toList
        residuals := st.residuals ++ (root.map (·.2)).toList
        unresolved := st.unresolved || p.disposition == .unresolved
        counters := c }
  | interrupted (e : Raised) (c : Counters) :
    s.TurnTo st current rest (some e) { st with pending := rest, current := some current, counters := c }

/-- Every turn ends in one of these ways. -/
theorem turn_turnTo {st st' : LoopState} {current : Bounds} {rest : List Bounds} {e : Option Raised}
    (h : s.turn st current rest = (e, st')) : s.TurnTo st current rest e st' := by
  unfold turn at h
  split at h <;> cases h
  · rename_i mid c h
    rcases visit_cases h with ⟨mid', hv, hmid, hsplit, hcount⟩ | ⟨p, root, hv, _⟩
    · cases hv
      exact .split mid c hmid hsplit hcount
    · cases hv
  · rename_i p root c h
    rcases visit_cases h with ⟨mid', hv, _⟩ | ⟨p', root', hv, hdomain, hcount, hevidence⟩
    · cases hv
    · cases hv
      exact .recorded p root c hdomain hcount hevidence
  · rename_i e c _
    exact .interrupted e c

/-- The loop follows turns: it ends with nothing pending, out of fuel or at an interrupted turn. -/
theorem loop_induction {s : Solver} {motive : ℕ → LoopState → Option Raised → LoopState → Prop}
    (stop : ∀ fuel st, fuel = 0 ∨ st.pending = [] → motive fuel st none st)
    (interrupted : ∀ fuel st current rest e st', st.pending = current :: rest →
      s.turn st current rest = (some e, st') → motive (fuel + 1) st (some e) st')
    (step : ∀ fuel st current rest st₁ e st', st.pending = current :: rest →
      s.turn st current rest = (none, st₁) → s.loop fuel st₁ = (e, st') → motive fuel st₁ e st' →
      motive (fuel + 1) st e st')
    (fuel : ℕ) (st : LoopState) : motive fuel st (s.loop fuel st).1 (s.loop fuel st).2 := by
  induction fuel generalizing st with
  | zero => exact stop 0 st (Or.inl rfl)
  | succ fuel ih =>
    unfold loop
    split
    · rename_i hpending
      exact stop _ st (Or.inr hpending)
    · rename_i current rest hpending
      split
      · rename_i st₁ hturn
        exact step fuel st current rest st₁ _ _ hpending hturn rfl (ih st₁)
      · rename_i e st₁ hturn
        exact interrupted fuel st current rest e st₁ hpending hturn

/-- The turns that a state has room for: a split spends a subdivision, every other turn a region. -/
def LoopState.room (st : LoopState) (spec : SolveSpecFields) : ℕ :=
  st.pending.length + 2 * (spec.maxSubdivisions - st.counters.subdivisions)

/-- A turn that goes on spends some of the room. -/
theorem TurnTo.room_lt {st st' : LoopState} {current : Bounds} {rest : List Bounds}
    (h : s.TurnTo st current rest none st') (hpending : st.pending = current :: rest) :
    st'.room s.spec.toSolveSpecFields < st.room s.spec.toSolveSpecFields := by
  unfold LoopState.room
  rw [hpending]
  cases h with
  | split mid c hmid hsplit hcount =>
    have hroom := (splits_eq_true hsplit).1
    simp only [List.length_cons, hcount]
    omega
  | recorded p root c hdomain hcount hevidence =>
    simp only [List.length_cons, hcount]
    omega

/-- Fuel for the room of a state is enough to visit every region. -/
theorem loop_pending_nil (s : Solver) (fuel : ℕ) (st : LoopState)
    (hfuel : st.room s.spec.toSolveSpecFields ≤ fuel) (h : (s.loop fuel st).1 = none) :
    (s.loop fuel st).2.pending = [] := by
  refine loop_induction (s := s)
    (motive := fun fuel st e st' => st.room s.spec.toSolveSpecFields ≤ fuel → e = none → st'.pending = [])
    ?_ ?_ ?_ fuel st hfuel h
  · rintro fuel st (rfl | hnil) hle _
    · unfold LoopState.room at hle
      exact List.eq_nil_of_length_eq_zero (by omega)
    · exact hnil
  · rintro fuel st current rest e st' _ _ _ ⟨⟩
  · intro fuel st current rest st₁ e st' hpending hturn _ ih hle hnone
    have hlt := (turn_turnTo hturn).room_lt hpending
    exact ih (by omega) hnone

/-- A proof stays until the loop ends. -/
theorem loop_proofs (s : Solver) (fuel : ℕ) (st : LoopState) : ∀ p ∈ st.proofs, p ∈ (s.loop fuel st).2.proofs := by
  refine loop_induction (s := s) (motive := fun _ st _ st' => ∀ p ∈ st.proofs, p ∈ st'.proofs) ?_ ?_ ?_ fuel st
  · intro _ _ _ p hp
    exact hp
  · intro _ st current rest e st' _ hturn p hp
    cases turn_turnTo hturn
    exact hp
  · intro _ st current rest st₁ e st' _ hturn _ ih p hp
    apply ih
    cases turn_turnTo hturn with
    | split => exact hp
    | recorded => exact List.mem_append_left _ hp

/-- A pending region is ordered or still retained when the loop ends. -/
theorem loop_retains (s : Solver) (fuel : ℕ) (st : LoopState) :
    ∀ b ∈ st.pending, b.lo ≤ b.hi ∨ b ∈ (s.loop fuel st).2.remaining := by
  refine loop_induction (s := s)
    (motive := fun _ st _ st' => ∀ b ∈ st.pending, b.lo ≤ b.hi ∨ b ∈ st'.remaining) ?_ ?_ ?_ fuel st
  · intro fuel st _ b hb
    exact Or.inr (List.mem_append_right _ (List.mem_reverse.mpr hb))
  · intro fuel st current rest e st' hpending hturn b hb
    cases turn_turnTo hturn
    rw [hpending] at hb
    simp only [LoopState.remaining, Option.toList_some, List.mem_append, List.mem_singleton, List.mem_reverse]
    exact Or.inr (List.mem_cons.mp hb)
  · intro fuel st current rest st₁ e st' hpending hturn _ ih b hb
    rw [hpending] at hb
    rcases List.mem_cons.mp hb with rfl | hrest
    · left
      cases turn_turnTo hturn with
      | split mid c hmid hsplit hcount => exact (splits_eq_true hsplit).2.2.le
      | recorded p root c hdomain hcount hevidence =>
        rw [← hdomain]
        exact p.domain.ordered
    · refine ih b ?_
      cases turn_turnTo hturn with
      | split mid c hmid hsplit hcount => simp [hrest]
      | recorded p root c hdomain hcount hevidence => exact hrest

/-- The regions of a state from left to right. -/
def LoopState.regions (st : LoopState) : List Bounds :=
  st.proofs.map (·.domain.bounds) ++ (st.current.toList ++ st.pending)

/-- What the run keeps: the regions tile the domain and every proof has its evidence. -/
structure RunInv (s : Solver) (st : LoopState) : Prop where
  tiles : Tiles s.spec.lower s.spec.upper st.regions
  evidence : ∃ roots, List.Forall₂ s.Evidence st.proofs roots ∧
    st.roots = roots.reduceOption.map (·.1) ∧ st.residuals = roots.reduceOption.map (·.2)
  unresolved : st.unresolved = true ↔ ∃ p ∈ st.proofs, p.disposition = .unresolved

/-- Regions in a tiling of the domain have their ends in the domain. -/
theorem RunInv.inDomain {st : LoopState} (h : s.RunInv st) {b : Bounds} (hb : b ∈ st.regions) :
    s.InDomain b.lo ∧ s.InDomain b.hi := by
  obtain ⟨h1, h2, h3⟩ := h.tiles.mem_range hb
  exact ⟨⟨h1, h2.le.trans h3⟩, ⟨h1.trans h2.le, h3⟩⟩

/-- One turn keeps the invariant when a split cuts inside its region. -/
theorem RunInv.turn {st st' : LoopState} {current : Bounds} {rest : List Bounds} {e : Option Raised}
    (h : s.RunInv st) (hcurrent : st.current = none) (hpending : st.pending = current :: rest)
    (hturn : s.TurnTo st current rest e st')
    (hinside : ∀ mid, st'.pending = ⟨current.lo, mid⟩ :: ⟨mid, current.hi⟩ :: rest →
      current.lo < mid ∧ mid < current.hi) : s.RunInv st' := by
  have hregions : st.regions = st.proofs.map (·.domain.bounds) ++ current :: rest := by
    rw [LoopState.regions, hcurrent, hpending]
    rfl
  have hmem := h.inDomain (b := current) (by rw [hregions]; simp)
  have htiles := h.tiles
  rw [hregions, tiles_append] at htiles
  obtain ⟨a, hproofs, rfl, hlt, hrest⟩ := htiles
  obtain ⟨roots, hevidence, hroots, hresiduals⟩ := h.evidence
  cases hturn with
  | split mid c hmid hsplit hcount =>
    obtain ⟨hlo, hhi⟩ := hinside mid rfl
    refine { tiles := ?_, evidence := ⟨roots, hevidence, hroots, hresiduals⟩, unresolved := h.unresolved }
    simp only [LoopState.regions, hcurrent, Option.toList_none, List.nil_append]
    exact tiles_append.mpr ⟨_, hproofs, rfl, hlo, rfl, hhi, hrest⟩
  | recorded p root c hdomain hcount hp =>
    refine { tiles := ?_, evidence := ⟨roots ++ [root], ?_, ?_, ?_⟩, unresolved := ?_ }
    · simp only [LoopState.regions, hcurrent, Option.toList_none, List.nil_append, List.map_append,
        List.map_cons, List.map_nil, List.append_assoc, List.singleton_append, hdomain]
      exact tiles_append.mpr ⟨_, hproofs, rfl, hlt, hrest⟩
    · exact List.rel_append hevidence (.cons (hp hmem.1 hmem.2) .nil)
    · rw [hroots]
      cases root <;> simp [List.reduceOption_append]
    · rw [hresiduals]
      cases root <;> simp [List.reduceOption_append]
    · have hu := h.unresolved
      simp only [Bool.or_eq_true, beq_iff_eq, List.mem_append, List.mem_singleton, or_and_right, exists_or,
        exists_eq_left, hu]
  | interrupted e c =>
    refine { tiles := ?_, evidence := ⟨roots, hevidence, hroots, hresiduals⟩, unresolved := h.unresolved }
    simp only [LoopState.regions, Option.toList_some, List.singleton_append]
    exact tiles_append.mpr ⟨_, hproofs, rfl, hlt, hrest⟩

/-- A turn that goes on leaves no current region. -/
theorem TurnTo.current_none {st st' : LoopState} {current : Bounds} {rest : List Bounds}
    (h : s.TurnTo st current rest none st') (hcurrent : st.current = none) : st'.current = none := by
  cases h <;> exact hcurrent

/-- The loop keeps the invariant when every region it retains is ordered. -/
theorem RunInv.loop {st : LoopState} (fuel : ℕ) (h : s.RunInv st) (hcurrent : st.current = none)
    (hordered : ∀ b ∈ (s.loop fuel st).2.remaining, b.lo ≤ b.hi) : s.RunInv (s.loop fuel st).2 := by
  refine loop_induction (s := s)
    (motive := fun _ st _ st' => s.RunInv st → st.current = none → (∀ b ∈ st'.remaining, b.lo ≤ b.hi) →
      s.RunInv st') ?_ ?_ ?_ fuel st h hcurrent hordered
  · intro _ st _ hinv _ _
    exact hinv
  · intro fuel st current rest e st' hpending hturn hinv hcurrent _
    refine hinv.turn hcurrent hpending (turn_turnTo hturn) fun mid heq => ?_
    cases turn_turnTo hturn
    have hlength := congrArg List.length heq
    simp only [List.length_cons] at hlength
    omega
  · intro fuel st current rest st₁ e st' hpending hturn hloop ih hinv hcurrent hordered
    refine ih (hinv.turn hcurrent hpending (turn_turnTo hturn) fun mid heq => ?_) ((turn_turnTo hturn).current_none hcurrent) hordered
    -- both halves are ordered at the end, and the midpoint is not one of the ends
    have hst : st' = (s.loop fuel st₁).2 := by rw [hloop]
    have hhalf : ∀ b ∈ st₁.pending, b.lo ≤ b.hi := fun b hb =>
      (s.loop_retains fuel st₁ b hb).elim id fun hret => hordered b (hst ▸ hret)
    have hleft := hhalf ⟨current.lo, mid⟩ (by rw [heq]; simp)
    have hright := hhalf ⟨mid, current.hi⟩ (by rw [heq]; simp)
    cases turn_turnTo hturn with
    | split mid' c hmid hsplit hcount =>
      simp only [List.cons.injEq, Bounds.mk.injEq, true_and, and_true] at heq
      obtain ⟨rfl, _⟩ := heq
      obtain ⟨_, hne, _⟩ := splits_eq_true hsplit
      simp only [not_or, Decimal.NumEq] at hne
      exact ⟨lt_of_le_of_ne hleft (Ne.symm hne.1), lt_of_le_of_ne hright hne.2⟩
    | recorded p root c hdomain hcount hp =>
      have hlength := congrArg List.length heq
      simp only [List.length_cons] at hlength
      omega

end Solver

end EquityEval.Valuation
