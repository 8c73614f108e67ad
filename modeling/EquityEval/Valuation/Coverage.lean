import EquityEval.Valuation.Verdict
import EquityEval.Transition.System

/-!
# Whole-domain accounting

Every region of a result is a tile of the solve domain, and every root lies in its own tile.
The rounded midpoint of two neighbouring decimals may lie outside them, and then a split or a
bisection inverts a region, so that building the result raises a validation error. The run
accounts for its domain exactly when no split cuts outside its region, no bisection accepts a
bracket that has left its region, and the midpoint of a single root lies in its bracket.
-/

namespace EquityEval.Valuation

open DecimalArithmetic IntervalCalculus TransitionSystem Set

/-- An ordered pair of ends between the ends of another pair. -/
structure Bounds.Inside (inner outer : Bounds) : Prop where
  lower : outer.lo ≤ inner.lo
  ordered : inner.lo ≤ inner.hi
  upper : inner.hi ≤ outer.hi

/-- Being inside is transitive. -/
theorem Bounds.Inside.trans {a b c : Bounds} (hab : a.Inside b) (hbc : b.Inside c) : a.Inside c where
  lower := hbc.lower.trans hab.lower
  ordered := hab.ordered
  upper := hab.upper.trans hbc.upper

/-- An interval is determined by its endpoints. -/
theorem Interval.bounds_injective : Function.Injective Interval.bounds := by
  intro i j h
  cases i
  cases j
  simpa [Interval.bounds] using h

/-- Enclosing a value makes the endpoints ordered. -/
theorem Bounds.ordered_of_mem {b : Bounds} {x : ℝ} (h : x ∈ b.set) : b.lo ≤ b.hi := by
  have hle : (b.lo.value : ℝ) ≤ b.hi.value := h.1.trans h.2
  exact Decimal.le_iff_value.mpr (by exact_mod_cast hle)

/-- Ordered endpoints enclose their lower end. -/
theorem Bounds.lo_mem {b : Bounds} (h : b.lo ≤ b.hi) : (b.lo.value : ℝ) ∈ b.set :=
  ⟨le_rfl, by exact_mod_cast Decimal.le_iff_value.mp h⟩

/-- An enclosure over a region of positive width has ordered slopes. -/
theorem Dual.Encloses.derivative_ordered {d : Dual} {b : Bounds} {g : ℝ → ℝ} (h : d.Encloses b.set g)
    (hb : b.lo < b.hi) : d.derivative.lo ≤ d.derivative.hi := by
  have hlt : (b.lo.value : ℝ) < b.hi.value := by exact_mod_cast Decimal.lt_iff_value.mp hb
  exact Bounds.ordered_of_mem (h.slopes _ ⟨le_rfl, hlt.le⟩ _ ⟨hlt.le, le_rfl⟩ hlt)

/-- The tiles of a range are sorted by their lower ends. -/
theorem Tiles.sorted {a b : Decimal} {l : List Bounds} (h : Tiles a b l) :
    l.Pairwise fun r t => r.lo < t.lo := by
  induction l generalizing a with
  | nil => exact .nil
  | cons r rest ih =>
    obtain ⟨_, hlt, hrest⟩ := h
    apply List.Pairwise.cons
    · intro t ht
      exact Decimal.lt_iff_value.mpr ((Decimal.lt_iff_value.mp hlt).trans_le (hrest.mem_range ht).1)
    · exact ih hrest

/-- What a result accounts for: its regions tile the domain, its roots lie in their regions. -/
structure SolveResultFields.Accounted (r : SolveResultFields) (spec : SolveSpecFields) : Prop where
  tiles : ∃ domains : List Interval,
    domains.Perm ((r.proof.filter fun p => p.disposition ≠ .unresolved).map (·.domain) ++ r.unresolvedDomains) ∧
      domains.Pairwise (fun i j => i.lower < j.lower) ∧
      Tiles spec.lower spec.upper (domains.map Interval.bounds)
  roots : r.rootIntervals = r.proof.filterMap (·.root)
  uniqueRoot : ∀ p ∈ r.proof, p.disposition = .uniqueRoot ↔ p.root ≠ none
  inside : ∀ p ∈ r.proof, ∀ i, p.root = some i → i.bounds.Inside p.domain.bounds

namespace Solver

variable {s : Solver} {c c' : Counters}

/-- The run as a system: it starts from the partition and visits one region a step. -/
def system (s : Solver) : System LoopState Bounds where
  initial st := ∃ regions c, s.partition {} = (.ok regions, c) ∧ ¬ s.spec.maxSubdivisions < c.subdivisions ∧
    st = start regions c
  step st current st' := ∃ rest, st.pending = current :: rest ∧ s.turn st current rest = (none, st')

/-- A split of the next region cuts inside it. -/
def SplitsInside (s : Solver) (st : LoopState) : Prop :=
  ∀ current rest, st.pending = current :: rest →
    ∀ mid c, s.visit current st.counters = (.ok (.split mid), c) → current.lo ≤ mid ∧ mid ≤ current.hi

/-- A bracket that the bisection accepts lies inside the region. -/
def AcceptsInside (s : Solver) (tolerance : Decimal) (leftSign : ℤ) (region : Bounds) :
    ℕ → Bounds → Counters → Prop
  | 0, _, _ => True
  | rounds + 1, bracket, c =>
    match s.refineTurn tolerance leftSign bracket c with
    | (.ok (.done (some _)), _) => bracket.Inside region
    | (.ok (.again next), c') => s.AcceptsInside tolerance leftSign region rounds next c'
    | _ => True

/-- Inspecting a region leads to its bisection with this sign at the left end. -/
def Refines (s : Solver) (current : Bounds) (c : Counters) (leftSign : ℤ) (c' : Counters) : Prop :=
  ∃ result c₁ left c₂ right, s.at current c = (.ok result, c₁) ∧ s.at (.point current.lo) c₁ = (.ok left, c₂) ∧
    s.at (.point current.hi) c₂ = (.ok right, c') ∧ result.value.sign = 0 ∧ result.derivative.sign ≠ 0 ∧
    left.value.sign = leftSign ∧ left.value.sign * right.value.sign = -1

/-- The bisection of the next region accepts only brackets inside it. -/
def RootsInside (s : Solver) (st : LoopState) : Prop :=
  ∀ current rest, st.pending = current :: rest → ∀ leftSign c tolerance,
    s.Refines current st.counters leftSign c → s.tolerance = .ok tolerance →
      s.AcceptsInside tolerance leftSign current s.spec.maxIterations current c

/-- The midpoint of the single root of a finished run lies in its bracket. -/
def RepresentativeInside (st : LoopState) : Prop :=
  ∀ root, st.pending = [] → st.unresolved = false → st.roots = [root] →
    ∀ mid, midpoint root.lo root.hi = .ok mid → root.lo ≤ mid ∧ mid ≤ root.hi

/-- Rounding moves no end outside in any state of the run. -/
structure RoundsInside (s : Solver) : Prop where
  splits : ∀ st, s.system.Reachable st → s.SplitsInside st
  roots : ∀ st, s.system.Reachable st → s.RootsInside st
  representative : ∀ st, s.system.Reachable st → RepresentativeInside st

/-- An accepting turn returns the bracket that it holds. -/
theorem refineTurn_done {tolerance : Decimal} {leftSign : ℤ} {b : Bounds} {r : Bounds × Bounds}
    (h : s.refineTurn tolerance leftSign b c = (.ok (.done (some r)), c')) : r.1 = b := by
  unfold refineTurn at h
  rw [SolverM.modify_bind] at h
  obtain ⟨_, _, _, h⟩ := SolverM.exists_of_bind h
  obtain ⟨_, _, h⟩ := SolverM.exists_of_numeric_bind h
  split at h
  · cases h
    rfl
  obtain ⟨_, _, h⟩ := SolverM.exists_of_numeric_bind h
  split at h
  · cases h
  obtain ⟨_, _, _, h⟩ := SolverM.exists_of_bind h
  dsimp only at h
  split at h
  · cases h
  obtain ⟨_, _, h⟩ := SolverM.exists_of_numeric_bind h
  obtain ⟨_, _, h⟩ := SolverM.exists_of_numeric_bind h
  obtain ⟨_, _, _, h⟩ := SolverM.exists_of_bind h
  obtain ⟨_, _, _, h⟩ := SolverM.exists_of_bind h
  split at h <;> cases h

/-- Accepting only brackets inside means returning only brackets inside. -/
theorem acceptsInside_iff {tolerance : Decimal} {leftSign : ℤ} {region : Bounds} (rounds : ℕ) (b : Bounds)
    (c : Counters) : s.AcceptsInside tolerance leftSign region rounds b c ↔
      ∀ r c', s.refineLoop tolerance leftSign rounds b c = (.ok (some r), c') → r.1.Inside region := by
  induction rounds generalizing b c with
  | zero =>
    apply iff_of_true trivial
    intro r c' h
    cases h
  | succ rounds ih =>
    rw [refineLoop, SolverM.bind_apply, AcceptsInside]
    rcases hturn : s.refineTurn tolerance leftSign b c with ⟨_ | (_ | r) | next, c'⟩
    case error => simp
    case ok.again => exact ih next c'
    case ok.done.none => simp
    case ok.done.some =>
      have hr := refineTurn_done hturn
      subst hr
      constructor
      · intro h r' c'' heq
        cases heq
        exact h
      · intro h
        exact h r c' rfl

/-- An evaluation over ordered ends has ordered values. -/
theorem at_ordered {b : Bounds} {d : Dual} (h : s.at b c = (.ok d, c')) (hb : b.lo ≤ b.hi) :
    d.value.lo ≤ d.value.hi :=
  Bounds.ordered_of_mem ((at_encloses h).value (Bounds.lo_mem hb))

/-- What an inspection that returns has seen. -/
structure Seen (s : Solver) (current : Bounds) (c : Counters) (seen : Inspection) (c' : Counters) : Prop where
  value : seen.result.value.lo ≤ seen.result.value.hi
  derivative : seen.result.derivative.lo ≤ seen.result.derivative.hi
  left : ∀ b, seen.left = some b → b.lo ≤ b.hi
  right : ∀ b, seen.right = some b → b.lo ≤ b.hi
  root : ∀ r, seen.root = some r →
    ∃ leftSign c₁, s.Refines current c leftSign c₁ ∧ s.refine current leftSign c₁ = (.ok (some r), c')

/-- The evaluations of a region of positive width are ordered, and its root comes from its bisection. -/
theorem inspect_seen {current : Bounds} {seen : Inspection} (hlt : current.lo < current.hi)
    (h : s.inspect current c = (.ok seen, c')) : s.Seen current c seen c' := by
  unfold inspect at h
  obtain ⟨result, c₁, hresult, h⟩ := SolverM.exists_of_bind h
  have hvalue := at_ordered hresult hlt.le
  have hderivative := (at_encloses hresult).derivative_ordered hlt
  split at h
  · cases h
    exact ⟨hvalue, hderivative, by simp, by simp, by simp⟩
  rename_i hzero
  split at h
  · rename_i hslope
    obtain ⟨left, c₂, hleft, h⟩ := SolverM.exists_of_bind h
    obtain ⟨right, c₃, hright, h⟩ := SolverM.exists_of_bind h
    have hleftOrdered : ∀ b, some left.value = some b → b.lo ≤ b.hi := by
      intro b hb
      cases hb
      exact at_ordered hleft le_rfl
    have hrightOrdered : ∀ b, some right.value = some b → b.lo ≤ b.hi := by
      intro b hb
      cases hb
      exact at_ordered hright le_rfl
    dsimp only at h
    split at h
    · cases h
      exact ⟨hvalue, hderivative, hleftOrdered, hrightOrdered, by simp⟩
    · split at h
      · rename_i hopposite
        obtain ⟨refined, c₄, hrefined, h⟩ := SolverM.exists_of_bind h
        split at h
        · rename_i root residual
          cases h
          refine ⟨hvalue, hderivative, hleftOrdered, hrightOrdered, fun r hr => ?_⟩
          cases hr
          exact ⟨left.value.sign, c₃,
            ⟨result, c₁, left, c₂, right, hresult, hleft, hright, not_not.mp hzero, hslope, rfl, hopposite⟩,
            hrefined⟩
        · cases h
          exact ⟨hvalue, hderivative, hleftOrdered, hrightOrdered, by simp⟩
      · cases h
        exact ⟨hvalue, hderivative, hleftOrdered, hrightOrdered, by simp⟩
  · cases h
    exact ⟨hvalue, hderivative, by simp, by simp, by simp⟩

/-- A bisection that returns a bracket is the root of its inspection. -/
theorem inspect_of_refines {current : Bounds} {leftSign : ℤ} {r : Bounds × Bounds} {c₁ : Counters}
    (h : s.Refines current c leftSign c₁) (hr : s.refine current leftSign c₁ = (.ok (some r), c')) :
    ∃ seen, s.inspect current c = (.ok seen, c') ∧ seen.disposition = .uniqueRoot ∧ seen.root = some r := by
  obtain ⟨result, c₂, left, c₃, right, hresult, hleft, hright, hzero, hslope, rfl, hopposite⟩ := h
  have hdifferent : ¬ (left.value.sign ≠ 0 ∧ left.value.sign = right.value.sign) := by
    rintro ⟨_, heq⟩
    rw [← heq] at hopposite
    have := mul_self_nonneg left.value.sign
    omega
  refine ⟨⟨result, some left.value, some right.value, some r, .uniqueRoot⟩, ?_, rfl, rfl⟩
  unfold inspect
  rw [SolverM.bind_apply, hresult]
  dsimp only
  rw [if_neg (not_not.mpr hzero), if_pos hslope, SolverM.bind_apply, hleft]
  dsimp only
  rw [SolverM.bind_apply, hright]
  dsimp only
  rw [if_neg hdifferent, if_pos hopposite, SolverM.bind_apply, hr]
  rfl

/-- A recorded visit has recorded its inspection. -/
theorem visit_recorded {current : Bounds} {p : ProofRegion} {root : Option (Bounds × Bounds)}
    (h : s.visit current c = (.ok (.recorded p root), c')) :
    ∃ seen c₁, s.inspect current c = (.ok seen, c₁) ∧ record current seen = .ok p := by
  unfold visit at h
  obtain ⟨seen, c₁, hseen, h⟩ := SolverM.exists_of_bind h
  split at h
  · obtain ⟨mid, _, h⟩ := SolverM.exists_of_numeric_bind h
    rw [SolverM.read_bind] at h
    obtain ⟨split, _, h⟩ := SolverM.exists_of_numeric_bind h
    split at h
    · cases h
    · obtain ⟨p', hp, h⟩ := SolverM.exists_of_lift_bind h
      cases h
      exact ⟨seen, _, hseen, hp⟩
  · obtain ⟨p', hp, h⟩ := SolverM.exists_of_lift_bind h
    cases h
    exact ⟨seen, _, hseen, hp⟩

/-- A visit raises a validation error only when its record does. -/
theorem visit_invalid {current : Bounds} {message : String}
    (h : s.visit current c = (.error (.valueError message), c')) :
    ∃ seen c₁ e, s.inspect current c = (.ok seen, c₁) ∧ record current seen = .error e := by
  have hnumeric : ∀ {α : Type} {x : Except NumericError α} {c c' : Counters},
      SolverM.numeric x c ≠ (.error (.valueError message), c') := by
    intro α x c c' heq
    exact (SolverM.measures_numeric x c).2 message (congrArg Prod.fst heq)
  have hlift : ∀ {seen : Inspection} {f : ProofRegion → SolverM Visit} {c c' : Counters},
      (∀ p c, ∃ v, f p c = (.ok v, c)) →
        (SolverM.lift (record current seen) >>= f) c = (.error (.valueError message), c') →
          ∃ e, record current seen = .error e := by
    intro seen f c c' hf heq
    rcases SolverM.error_of_bind heq with hrecord | ⟨p, c₁, _, hp⟩
    · exact ⟨_, congrArg Prod.fst hrecord⟩
    · obtain ⟨v, hv⟩ := hf p c₁
      rw [hv] at hp
      cases hp
  unfold visit at h
  rcases SolverM.error_of_bind h with hinspect | ⟨seen, c₁, hseen, h⟩
  · exact absurd (congrArg Prod.fst hinspect) ((s.measures_inspect current c).2 message)
  split at h
  · rcases SolverM.error_of_bind h with hmid | ⟨mid, c₂, _, h⟩
    · exact absurd hmid hnumeric
    rw [SolverM.read_bind] at h
    rcases SolverM.error_of_bind h with hsplit | ⟨split, c₃, _, h⟩
    · exact absurd hsplit hnumeric
    split at h
    · cases h
    · obtain ⟨e, he⟩ := hlift (fun p c => ⟨_, rfl⟩) h
      exact ⟨seen, _, e, hseen, he⟩
  · obtain ⟨e, he⟩ := hlift (fun p c => ⟨_, rfl⟩) h
    exact ⟨seen, _, e, hseen, he⟩

/-- Ordered optional endpoints form an optional interval. -/
theorem option_toInterval_isOk {o : Option Bounds} (h : ∀ b, o = some b → b.lo ≤ b.hi) :
    ∃ i, o.mapM Bounds.toInterval = .ok i := by
  cases o with
  | none => exact ⟨none, rfl⟩
  | some b => exact ⟨some ⟨b.lo, b.hi, h b rfl⟩, by rw [Option.mapM_some, Bounds.toInterval_isOk (h b rfl)]; rfl⟩

/-- The record of a region passes its checks when its root is ordered. -/
theorem record_isOk {current : Bounds} {seen : Inspection} (hlt : current.lo < current.hi)
    (hseen : s.Seen current c seen c') (hroot : ∀ r, seen.root = some r → r.1.lo ≤ r.1.hi) :
    ∃ p, record current seen = .ok p := by
  obtain ⟨left, hleft⟩ := option_toInterval_isOk hseen.left
  obtain ⟨right, hright⟩ := option_toInterval_isOk hseen.right
  obtain ⟨root, hroot⟩ := option_toInterval_isOk (o := seen.root.map (·.1)) fun b hb => by
    obtain ⟨r, hr, rfl⟩ := Option.map_eq_some_iff.mp hb
    exact hroot r hr
  unfold record
  rw [Bounds.toInterval_isOk hlt.le, Bounds.toInterval_isOk hseen.value, Bounds.toInterval_isOk hseen.derivative,
    hleft, hright, hroot]
  exact ⟨_, rfl⟩

/-- A root that an inspection returns lies inside the region. -/
theorem RootsInside.inspect {st : LoopState} {current : Bounds} {rest : List Bounds} (h : s.RootsInside st)
    (hpending : st.pending = current :: rest) {seen : Inspection} (hseen : s.Seen current st.counters seen c') :
    ∀ r, seen.root = some r → r.1.Inside current := by
  intro r hr
  obtain ⟨leftSign, c₁, hrefines, hrefine⟩ := hseen.root r hr
  unfold refine at hrefine
  obtain ⟨tolerance, htol, hloop⟩ := SolverM.exists_of_numeric_bind hrefine
  exact (acceptsInside_iff _ _ _).mp (h current rest hpending leftSign c₁ tolerance hrefines htol) r c' hloop

/-- What a run keeps when rounding moves no end outside. -/
structure Covered (s : Solver) (st : LoopState) : Prop where
  inv : s.RunInv st
  inside : ∀ p ∈ st.proofs, ∀ i, p.root = some i → i.bounds.Inside p.domain.bounds

/-- A turn whose rounding moves no end outside keeps the regions and raises no validation error. -/
theorem Covered.turn {st st' : LoopState} {current : Bounds} {rest : List Bounds} {e : Option Raised}
    (h : s.Covered st) (hcurrent : st.current = none) (hpending : st.pending = current :: rest)
    (hsplits : s.SplitsInside st) (hroots : s.RootsInside st) (hturn : s.turn st current rest = (e, st')) :
    s.Covered st' ∧ ∀ message, e ≠ some (.valueError message) := by
  have hmem : current ∈ st.regions := by
    rw [LoopState.regions, hpending]
    simp
  have hlt : current.lo < current.hi := Decimal.lt_iff_value.mpr (h.inv.tiles.mem_range hmem).2.1
  have hinv := h.inv.turn hcurrent hpending (turn_turnTo hturn)
  unfold Solver.turn at hturn
  split at hturn
  · rename_i mid c' hvisit
    cases hturn
    refine ⟨⟨hinv fun mid' heq => ?_, h.inside⟩, by simp⟩
    obtain ⟨hlo, hhi⟩ := hsplits current rest hpending mid c' hvisit
    simp only [List.cons.injEq, Bounds.mk.injEq, true_and, and_true] at heq
    obtain ⟨rfl, _⟩ := heq
    rcases visit_cases hvisit with ⟨mid', hv, _, hsplit, _⟩ | ⟨p, root, hv, _⟩
    · cases hv
      obtain ⟨_, hne, _⟩ := splits_eq_true hsplit
      simp only [not_or, Decimal.NumEq] at hne
      exact ⟨lt_of_le_of_ne hlo (Ne.symm hne.1), lt_of_le_of_ne hhi hne.2⟩
    · cases hv
  · rename_i p root c' hvisit
    cases hturn
    refine ⟨⟨hinv fun mid' heq => ?_, ?_⟩, by simp⟩
    · have hlength := congrArg List.length heq
      simp only [List.length_cons] at hlength
      omega
    · intro q hq i hi
      rcases List.mem_append.mp hq with hold | hnew
      · exact h.inside q hold i hi
      · rw [List.mem_singleton] at hnew
        subst hnew
        obtain ⟨seen, c₁, hseen, hrecord⟩ := visit_recorded hvisit
        obtain ⟨hdomain, _, hroot⟩ := record_eq_ok hrecord
        rw [hi] at hroot
        obtain ⟨r, hr, hbounds⟩ := Option.map_eq_some_iff.mp hroot.symm
        rw [hdomain, ← hbounds]
        exact hroots.inspect hpending (inspect_seen hlt hseen) r hr
  · rename_i e c' hvisit
    cases hturn
    refine ⟨⟨hinv fun mid' heq => ?_, h.inside⟩, fun message heq => ?_⟩
    · have hlength := congrArg List.length heq
      simp only [List.length_cons] at hlength
      omega
    · cases heq
      obtain ⟨seen, c₁, e, hseen, hrecord⟩ := visit_invalid hvisit
      have hinspected := inspect_seen hlt hseen
      obtain ⟨p, hp⟩ := record_isOk hlt hinspected fun r hr => (hroots.inspect hpending hinspected r hr).ordered
      rw [hp] at hrecord
      cases hrecord

/-- Between turns no region is current. -/
theorem current_none_of_reachable {st : LoopState} (h : s.system.Reachable st) : st.current = none := by
  induction h with
  | initial h =>
    obtain ⟨_, _, _, _, rfl⟩ := h
    rfl
  | step _ hstep ih =>
    obtain ⟨_, _, hturn⟩ := hstep
    exact (turn_turnTo hturn).current_none ih

/-- The regions of a reachable state cover the domain when rounding moves no end outside. -/
theorem covered_of_reachable (hinside : s.RoundsInside) {st : LoopState} (h : s.system.Reachable st) :
    s.Covered st := by
  induction h with
  | initial h =>
    obtain ⟨regions, c, hpartition, _, rfl⟩ := h
    unfold partition at hpartition
    obtain ⟨l, hl, hpartition⟩ := SolverM.exists_of_numeric_bind hpartition
    cases hpartition
    exact ⟨start_inv (cuts_of_eq_ok hl).tiles _, by simp [start]⟩
  | step h hstep ih =>
    obtain ⟨rest, hpending, hturn⟩ := hstep
    exact (ih.turn (current_none_of_reachable h) hpending (hinside.splits _ h) (hinside.roots _ h) hturn).1

/-- A loop from a reachable state raises no validation error and ends in a covered state. -/
theorem loop_covered (hinside : s.RoundsInside) (fuel : ℕ) {st : LoopState} (h : s.system.Reachable st) :
    s.Covered (s.loop fuel st).2 ∧ (∀ message, (s.loop fuel st).1 ≠ some (.valueError message)) ∧
      ((s.loop fuel st).1 = none → s.system.Reachable (s.loop fuel st).2) := by
  refine loop_induction (s := s)
    (motive := fun _ st e st' => s.system.Reachable st → s.Covered st' ∧
      (∀ message, e ≠ some (.valueError message)) ∧ (e = none → s.system.Reachable st')) ?_ ?_ ?_ fuel st h
  · intro _ st _ h
    exact ⟨covered_of_reachable hinside h, by simp, fun _ => h⟩
  · intro _ st current rest e st' hpending hturn h
    have hcovered := (covered_of_reachable hinside h).turn (current_none_of_reachable h) hpending
      (hinside.splits _ h) (hinside.roots _ h) hturn
    exact ⟨hcovered.1, hcovered.2, nofun⟩
  · intro _ st current rest st₁ e st' hpending hturn _ ih h
    exact ih (.step h ⟨rest, hpending, hturn⟩)

/-- The exploration is a loop from the partition, unless the partition itself is interrupted. -/
theorem explore_cases (s : Solver) :
    (∃ e c, s.explore = (some e, start [⟨s.spec.lower, s.spec.upper⟩] c) ∧ ∀ message, e ≠ .valueError message) ∨
      ∃ st, s.system.initial st ∧
        s.explore = s.loop (st.pending.length + 2 * (s.spec.maxSubdivisions)) st := by
  unfold explore
  dsimp only
  split
  · rename_i e c hpartition
    left
    refine ⟨e, c, rfl, fun message heq => ?_⟩
    subst heq
    rcases SolverM.error_of_bind hpartition with hcuts | ⟨l, c₁, _, h⟩
    · exact (SolverM.measures_numeric s.cuts _).2 message (congrArg Prod.fst hcuts)
    · cases h
  · rename_i regions c hpartition
    split
    · exact Or.inl ⟨.budgetExhausted, _, rfl, by simp⟩
    · rename_i hfits
      exact Or.inr ⟨start regions c, ⟨regions, c, hpartition, hfits, rfl⟩, rfl⟩

/-- A run whose rounding moves no end outside ends in a covered state without a validation error. -/
theorem explore_covered (hinside : s.RoundsInside) :
    s.Covered s.explore.2 ∧ (∀ message, s.explore.1 ≠ some (.valueError message)) ∧
      (s.explore.1 = none → s.system.Reachable s.explore.2 ∧ s.explore.2.pending = []) := by
  rcases s.explore_cases with ⟨e, c, heq, hvalid⟩ | ⟨st, hinitial, heq⟩
  · rw [heq]
    have hwhole : Tiles s.spec.lower s.spec.upper [⟨s.spec.lower, s.spec.upper⟩] :=
      ⟨rfl, s.spec.domain_of_accepted.lower_lt_upper, rfl⟩
    exact ⟨⟨start_inv hwhole c, by simp [start]⟩, fun message h => hvalid message (Option.some.inj h), nofun⟩
  · rw [heq]
    obtain ⟨hcovered, hvalid, hreached⟩ := loop_covered hinside (st.pending.length + 2 * s.spec.maxSubdivisions)
      (.initial hinitial)
    refine ⟨hcovered, hvalid, fun hnone => ⟨hreached hnone, loop_pending_nil s _ st ?_ hnone⟩⟩
    unfold LoopState.room
    omega

/-- Ordered endpoints form intervals. -/
theorem mapM_toInterval_isOk {l : List Bounds} (h : ∀ b ∈ l, b.lo ≤ b.hi) :
    ∃ is, l.mapM Bounds.toInterval = .ok is := by
  induction l with
  | nil => exact ⟨[], rfl⟩
  | cons b rest ih =>
    obtain ⟨is, his⟩ := ih fun t ht => h t (by simp [ht])
    rw [List.mapM_cons, Bounds.toInterval_isOk (h b (by simp)), his]
    exact ⟨_, rfl⟩

/-- What building a result needs of the final state. -/
structure Reportable (st : LoopState) : Prop where
  remaining : ∀ b ∈ st.remaining, b.lo ≤ b.hi
  roots : ∀ b ∈ st.roots, b.lo ≤ b.hi
  residuals : ∀ b ∈ st.residuals, b.lo ≤ b.hi
  evidence : st.roots ≠ [] → st.residuals ≠ [] ∧ st.proofs ≠ []

/-- A reportable state has a result when the midpoint of its single root lies in the bracket. -/
theorem report_isOk {st : LoopState} {unresolved : Bool} {reason : String} (h : Reportable st)
    (hmid : ∀ root, outcome st (reasonsOf st unresolved reason) = .converged → st.roots = [root] →
      ∃ mid, midpoint root.lo root.hi = .ok mid ∧ root.lo ≤ mid ∧ mid ≤ root.hi) :
    ∃ r, report st unresolved reason = .ok r := by
  obtain ⟨rootIntervals, hroots⟩ := mapM_toInterval_isOk h.roots
  obtain ⟨remaining, hremaining⟩ := mapM_toInterval_isOk h.remaining
  have hreasons : (if unresolved = true ∨ st.remaining ≠ [] then [reason] else []) =
      reasonsOf st unresolved reason := rfl
  unfold report
  simp only [hreasons, hroots, hremaining]
  by_cases hstate : outcome st (reasonsOf st unresolved reason) = .converged
  · obtain ⟨root, hroot⟩ := roots_of_converged hstate
    obtain ⟨hresiduals, hproofs⟩ := h.evidence (by simp [hroot])
    obtain ⟨residual, rest, hresidual⟩ := List.exists_cons_of_ne_nil hresiduals
    obtain ⟨mid, hmid, hlo, hhi⟩ := hmid root hstate hroot
    have hordered : residual.lo ≤ residual.hi := h.residuals _ (by simp [hresidual])
    have hlength : rootIntervals.length = 1 := by
      have hmap := congrArg List.length (mapM_toInterval hroots)
      rwa [List.length_map, hroot] at hmap
    simp only [if_pos hstate, hroot, hresidual, List.head?_cons, Option.mapM_some, hmid, Except.mapError,
      Bounds.toInterval_isOk (hlo.trans hhi), Bounds.toInterval_isOk hordered]
    apply SolveResult.validate_isOk
    simp [SolveResultFields.scalarRequiresCertificate, hstate, hlo, hhi, hlength, hproofs]
  · simp only [if_neg hstate]
    apply SolveResult.validate_isOk
    simp [SolveResultFields.scalarRequiresCertificate, hstate]

/-- A certified root has its proof. -/
theorem exists_proof {proofs : List ProofRegion} {roots : List (Option (Bounds × Bounds))}
    (h : List.Forall₂ s.Evidence proofs roots) {r : Bounds × Bounds} (hr : r ∈ roots.reduceOption) :
    ∃ p ∈ proofs, s.Evidence p (some r) := by
  rw [List.reduceOption_mem_iff] at hr
  induction h with
  | nil => cases hr
  | cons hp _ ih =>
    rcases List.mem_cons.mp hr with rfl | hrest
    · exact ⟨_, by simp, hp⟩
    · obtain ⟨q, hq, hevidence⟩ := ih hrest
      exact ⟨q, by simp [hq], hevidence⟩

/-- The certified roots are the roots of the proofs. -/
theorem roots_of_proofs {proofs : List ProofRegion} {roots : List (Option (Bounds × Bounds))}
    (h : List.Forall₂ s.Evidence proofs roots) :
    (proofs.filterMap (·.root)).map Interval.bounds = roots.reduceOption.map (·.1) := by
  induction h with
  | nil => rfl
  | @cons p root proofs roots hp _ ih =>
    have hroot := hp.2
    cases root with
    | none =>
      rw [Option.map_none, Option.map_eq_none_iff] at hroot
      rw [List.filterMap_cons_none hroot, List.reduceOption_cons_of_none, ih]
    | some r =>
      obtain ⟨i, hi, hbounds⟩ := Option.map_eq_some_iff.mp hroot
      rw [List.filterMap_cons_some hi, List.reduceOption_cons_of_some, List.map_cons, List.map_cons, ih, hbounds]

/-- A proof claims a unique root exactly when it has one. -/
theorem Evidence.uniqueRoot_iff {p : ProofRegion} {root : Option (Bounds × Bounds)} (h : s.Evidence p root) :
    p.disposition = .uniqueRoot ↔ p.root ≠ none := by
  rcases h with ⟨hcertified, hroot⟩
  have hnone : p.root = none ↔ root = none := by
    rw [← Option.map_eq_none_iff (f := Interval.bounds), hroot, Option.map_eq_none_iff]
  rw [ne_eq, hnone]
  generalize p.disposition = d at hcertified
  cases hcertified <;> simp

/-- A covered final state is reportable. -/
theorem Covered.reportable {st : LoopState} (h : s.Covered st) : Reportable st := by
  obtain ⟨roots, hevidence, hroots, hresiduals⟩ := h.inv.evidence
  have hroot : ∀ r ∈ roots.reduceOption, r.1.lo ≤ r.1.hi ∧ r.2.lo ≤ r.2.hi := by
    intro r hr
    obtain ⟨p, _, hp⟩ := exists_proof hevidence hr
    obtain ⟨i, _, hbounds⟩ := Option.map_eq_some_iff.mp hp.2
    replace hbounds : i.bounds = r.1 := hbounds
    have hordered : r.1.lo ≤ r.1.hi := by
      rw [← hbounds]
      exact i.ordered
    obtain ⟨_, _, hrefined⟩ := hp.uniqueRoot.refined
    obtain ⟨slopes, henclosed⟩ := hrefined.encloses
    exact ⟨hordered, Bounds.ordered_of_mem (henclosed.value (Bounds.lo_mem hordered))⟩
  refine
    { remaining := fun b hb => ?_
      roots := fun b hb => ?_
      residuals := fun b hb => ?_
      evidence := fun hne => ⟨?_, ?_⟩ }
  · have hmem : b ∈ st.regions := by
      simp only [LoopState.remaining, List.mem_append, List.mem_reverse] at hb
      simp only [LoopState.regions, List.mem_append]
      exact Or.inr hb
    exact (Decimal.lt_iff_value.mpr (h.inv.tiles.mem_range hmem).2.1).le
  · rw [hroots] at hb
    obtain ⟨r, hr, rfl⟩ := List.mem_map.mp hb
    exact (hroot r hr).1
  · rw [hresiduals] at hb
    obtain ⟨r, hr, rfl⟩ := List.mem_map.mp hb
    exact (hroot r hr).2
  · rw [hroots, ne_eq, List.map_eq_nil_iff] at hne
    rwa [hresiduals, ne_eq, List.map_eq_nil_iff]
  · intro hnil
    rw [hnil] at hevidence
    cases hevidence
    simp [hroots] at hne

/-- The result of a covered run accounts for the whole domain. -/
theorem Covered.accounted {st : LoopState} {reasons : List String} {r : SolveResult} (h : s.Covered st)
    (hreports : Reports st reasons r) : r.Accounted s.spec.toSolveSpecFields := by
  obtain ⟨roots, hevidence, hroots, _⟩ := h.inv.evidence
  refine { tiles := ?_, roots := ?_, uniqueRoot := ?_, inside := ?_ }
  · -- the retained regions come before the unresolved proofs, the unvisited ones from right to left
    have hdomains := hreports.unresolvedDomains
    rw [LoopState.remaining, List.append_assoc] at hdomains
    obtain ⟨current, tail, hsplit, hcurrent, htail⟩ := List.map_eq_append_iff.mp hdomains
    obtain ⟨pending, unresolved, rfl, hpending, hunresolved⟩ := List.map_eq_append_iff.mp htail
    have hopen : unresolved = (st.proofs.filter fun p => p.disposition = .unresolved).map (·.domain) := by
      apply List.map_injective_iff.mpr Interval.bounds_injective
      rw [hunresolved, List.map_map]
      rfl
    have htiles : Tiles s.spec.lower s.spec.upper
        ((st.proofs.map (·.domain) ++ (current ++ pending.reverse)).map Interval.bounds) := by
      have := h.inv.tiles
      rw [LoopState.regions] at this
      simpa [hcurrent, hpending, List.map_reverse, Function.comp_def] using this
    refine ⟨_, ?_, ?_, htiles⟩
    · rw [hreports.proof, hsplit, hopen]
      have hparts := ((List.filter_append_perm (fun p : ProofRegion => p.disposition ≠ .unresolved) st.proofs).map
        (·.domain)).symm
      have hreverse : (current ++ pending.reverse).Perm (current ++ pending) :=
        (List.reverse_perm pending).append_left current
      refine (hparts.append hreverse).trans ?_
      rw [List.map_append, List.append_assoc]
      have hnot : (fun p : ProofRegion => !decide (p.disposition ≠ .unresolved)) =
          fun p => decide (p.disposition = .unresolved) := by
        funext p
        simp
      rw [hnot]
      exact (List.perm_append_comm.trans (by rw [List.append_assoc])).append_left _
    · have := htiles.sorted
      rwa [List.pairwise_map] at this
  · apply List.map_injective_iff.mpr Interval.bounds_injective
    rw [hreports.rootIntervals, hreports.proof, hroots, roots_of_proofs hevidence]
  · intro p hp
    rw [hreports.proof] at hp
    obtain ⟨_, hproof⟩ := exists_evidence hevidence hp
    exact hproof.uniqueRoot_iff
  · intro p hp
    rw [hreports.proof] at hp
    exact h.inside p hp

/-- The loop goes on after a turn that goes on. -/
theorem loop_succ {st st₁ : LoopState} {current : Bounds} {rest : List Bounds} (fuel : ℕ)
    (hpending : st.pending = current :: rest) (hturn : s.turn st current rest = (none, st₁)) :
    s.loop (fuel + 1) st = s.loop fuel st₁ := by
  rw [loop, hpending]
  simp only [hturn]

/-- The loop ends at an interrupted turn. -/
theorem loop_interrupted {st st₁ : LoopState} {current : Bounds} {rest : List Bounds} {e : Raised} (fuel : ℕ)
    (hpending : st.pending = current :: rest) (hturn : s.turn st current rest = (some e, st₁)) :
    s.loop (fuel + 1) st = (some e, st₁) := by
  rw [loop, hpending]
  simp only [hturn]

/-- The loop visits every reachable state with enough fuel left. -/
theorem loop_of_reachable {st : LoopState} (h : s.system.Reachable st) :
    ∃ fuel, st.room s.spec.toSolveSpecFields ≤ fuel ∧ s.explore = s.loop fuel st := by
  induction h with
  | initial h =>
    obtain ⟨regions, c, hpartition, hfits, rfl⟩ := h
    refine ⟨regions.length + 2 * s.spec.maxSubdivisions, ?_, ?_⟩
    · simp only [LoopState.room, start]
      omega
    · unfold explore
      simp only [hpartition, if_neg hfits]
  | @step st st₁ current _ hstep ih =>
    obtain ⟨rest, hpending, hturn⟩ := hstep
    obtain ⟨fuel, hfuel, hloop⟩ := ih
    have hlt := (turn_turnTo hturn).room_lt hpending
    obtain ⟨n, rfl⟩ : ∃ n, fuel = n + 1 := ⟨fuel - 1, by omega⟩
    exact ⟨n, by omega, hloop.trans (loop_succ n hpending hturn)⟩

/-- A check that raises nothing but validation errors. -/
def Validates {α : Type} (x : Except Raised α) : Prop := ∀ e, x = .error e → ∃ message, e = .valueError message

/-- A sequence of checks raises nothing but validation errors. -/
theorem Validates.bind {α β : Type} {x : Except Raised α} {f : α → Except Raised β} (hx : Validates x)
    (hf : ∀ a, Validates (f a)) : Validates (x >>= f) := by
  intro e h
  cases x with
  | error e' =>
    cases h
    exact hx _ rfl
  | ok a => exact hf a e h

/-- Building an interval raises nothing but validation errors. -/
theorem validates_toInterval (b : Bounds) : Validates b.toInterval := by
  intro e h
  unfold Bounds.toInterval at h
  split at h
  · cases h
  · cases h
    exact ⟨_, rfl⟩

/-- Building an optional interval raises nothing but validation errors. -/
theorem validates_option (o : Option Bounds) : Validates (o.mapM Bounds.toInterval) := by
  cases o with
  | none => exact fun _ => nofun
  | some b => exact (validates_toInterval b).bind fun _ _ => nofun

/-- Recording a region raises nothing but validation errors. -/
theorem validates_record (current : Bounds) (seen : Inspection) : Validates (record current seen) := by
  unfold record
  apply (validates_toInterval _).bind
  intro _
  apply (validates_toInterval _).bind
  intro _
  apply (validates_toInterval _).bind
  intro _
  apply (validates_option _).bind
  intro _
  apply (validates_option _).bind
  intro _
  exact (validates_option _).bind fun _ _ => nofun

/-- A returning run explores without a validation error. -/
theorem explore_valid {r : SolveResult} (h : s.run = .ok r) (message : String) :
    s.explore.1 ≠ some (.valueError message) := by
  intro hinvalid
  unfold run at h
  rcases hexplore : s.explore with ⟨e, st⟩
  rw [hexplore] at h hinvalid
  cases hinvalid
  cases h

/-- The splits of a returning run cut inside their regions. -/
theorem splitsInside_of_run {r : SolveResult} (h : s.run = .ok r) {st : LoopState}
    (hreachable : s.system.Reachable st) : s.SplitsInside st := by
  intro current rest hpending mid c hvisit
  have hturn : s.turn st current rest =
      (none, { st with pending := ⟨current.lo, mid⟩ :: ⟨mid, current.hi⟩ :: rest, counters := c }) := by
    unfold Solver.turn
    rw [hvisit]
  obtain ⟨_, _, hinv⟩ := run_reports h
  obtain ⟨fuel, _, hexplore⟩ := loop_of_reachable (.step hreachable ⟨rest, hpending, hturn⟩)
  -- a half that is never visited is a tile of the explored state
  have hordered : ∀ b ∈ [Bounds.mk current.lo mid, ⟨mid, current.hi⟩], b.lo ≤ b.hi := by
    intro b hb
    have hhalf : b ∈ ⟨current.lo, mid⟩ :: ⟨mid, current.hi⟩ :: rest := List.mem_append_left rest hb
    rcases s.loop_retains fuel { st with pending := _, counters := c } b hhalf with hle | hremaining
    · exact hle
    · rw [← hexplore] at hremaining
      have hmem : b ∈ s.explore.2.regions := by
        simp only [LoopState.remaining, List.mem_append, List.mem_reverse] at hremaining
        exact List.mem_append_right _ (List.mem_append.mpr hremaining)
      exact (Decimal.lt_iff_value.mpr (hinv.tiles.mem_range hmem).2.1).le
  exact ⟨hordered ⟨current.lo, mid⟩ (by simp), hordered ⟨mid, current.hi⟩ (by simp)⟩

/-- The bisections of an accounted run accept only brackets inside their regions. -/
theorem rootsInside_of_run {r : SolveResult} (h : s.run = .ok r)
    (haccounted : r.Accounted s.spec.toSolveSpecFields) {st : LoopState} (hreachable : s.system.Reachable st) :
    s.RootsInside st := by
  intro current rest hpending leftSign c₁ tolerance hrefines htol
  rw [acceptsInside_iff]
  intro root c' hloop
  have hrefine : s.refine current leftSign c₁ = (.ok (some root), c') := by
    unfold refine
    rw [SolverM.bind_apply, htol]
    exact hloop
  obtain ⟨seen, hseen, hunique, hroot⟩ := inspect_of_refines hrefines hrefine
  have hvisit : s.visit current st.counters =
      (SolverM.lift (record current seen) >>= fun proof => pure (Visit.recorded proof seen.root)) c' := by
    unfold visit
    rw [SolverM.bind_apply, hseen]
    simp [hunique]
  cases hrecord : record current seen with
  | error e =>
    obtain ⟨message, rfl⟩ := validates_record current seen e hrecord
    have hturn : s.turn st current rest = (some (.valueError message),
        { st with pending := rest, current := some current, counters := c' }) := by
      unfold Solver.turn
      rw [hvisit, hrecord]
      rfl
    obtain ⟨fuel, hfuel, hexplore⟩ := loop_of_reachable hreachable
    unfold LoopState.room at hfuel
    rw [hpending, List.length_cons] at hfuel
    obtain ⟨n, rfl⟩ : ∃ n, fuel = n + 1 := ⟨fuel - 1, by omega⟩
    rw [loop_interrupted n hpending hturn] at hexplore
    exact absurd (by rw [hexplore]) (explore_valid h message)
  | ok p =>
    obtain ⟨st₁, hturn, hp⟩ : ∃ st₁, s.turn st current rest = (none, st₁) ∧ p ∈ st₁.proofs := by
      unfold Solver.turn
      rw [hvisit, hrecord]
      exact ⟨_, rfl, by simp⟩
    obtain ⟨fuel, _, hexplore⟩ := loop_of_reachable (.step hreachable ⟨rest, hpending, hturn⟩)
    obtain ⟨_, hreports, _⟩ := run_reports h
    have hkept : p ∈ r.proof := by
      rw [hreports.proof, hexplore]
      exact s.loop_proofs fuel st₁ p hp
    obtain ⟨hdomain, _, hbounds⟩ := record_eq_ok hrecord
    rw [hroot, Option.map_some] at hbounds
    obtain ⟨i, hi, hi'⟩ := Option.map_eq_some_iff.mp hbounds
    rw [← hi', ← hdomain]
    exact haccounted.inside p hkept i hi

/-- The representative of a returning run lies in its bracket. -/
theorem representativeInside_of_run {r : SolveResult} (h : s.run = .ok r) {st : LoopState}
    (hreachable : s.system.Reachable st) : RepresentativeInside st := by
  intro root hpending hresolved hroots mid hmid
  obtain ⟨fuel, _, hexplore⟩ := loop_of_reachable hreachable
  have hend : s.explore = (none, st) := by
    rw [hexplore]
    cases fuel with
    | zero => rfl
    | succ n => rw [loop, hpending]
  obtain ⟨reason, hreports, _⟩ := run_reports h
  have hreasons : reasonsOf st (false || st.unresolved) reason = [] := by
    simp [reasonsOf, hresolved, LoopState.remaining, hpending, current_none_of_reachable hreachable]
  rw [hend] at hreports
  simp only [Option.isSome_none, hreasons] at hreports
  have hstate : outcome st [] = .converged := by simp [outcome, hroots]
  have hchosen : chosenRoot st [] = some root := by rw [chosenRoot, if_pos hstate, hroots, List.head?_cons]
  have hrepresentative := hreports.representative
  have hinterval := hreports.interval
  rw [hchosen] at hrepresentative hinterval
  obtain ⟨i, hi, rfl⟩ := Option.map_eq_some_iff.mp hinterval
  rw [Option.mapM_some, hmid] at hrepresentative
  have hrep : r.representative = some mid := (Except.ok.inj hrepresentative).symm
  have haccepted := r.accepted
  unfold SolveResultFields.scalarRequiresCertificate at haccepted
  rw [if_pos (hreports.state.trans hstate), hrep, hi] at haccepted
  split at haccepted
  · rename_i x j _ hx hj _
    cases hx
    cases hj
    rw [refuseIf_eq_ok] at haccepted
    exact not_not.mp (not_or.mp haccepted).1
  · cases haccepted

/-- A run whose rounding moves no end outside returns a result that accounts for the whole domain. -/
theorem run_accounts (hinside : s.RoundsInside) :
    ∃ r, s.run = .ok r ∧ r.Accounted s.spec.toSolveSpecFields := by
  obtain ⟨hcovered, hvalid, hfinished⟩ := explore_covered hinside
  have hreport : ∀ unresolved reason, (unresolved = true ∨ s.explore.1 = none ∧ unresolved = s.explore.2.unresolved) →
      ∃ r, report s.explore.2 unresolved reason = .ok r ∧ r.Accounted s.spec.toSolveSpecFields := by
    intro unresolved reason hcase
    have hmid : ∀ root, outcome s.explore.2 (reasonsOf s.explore.2 unresolved reason) = .converged →
        s.explore.2.roots = [root] → ∃ mid, midpoint root.lo root.hi = .ok mid ∧ root.lo ≤ mid ∧ mid ≤ root.hi := by
      intro root hstate hroots
      have hnil := reasons_nil_of_outcome (by rw [hstate]; simp)
      unfold reasonsOf at hnil
      split at hnil
      · simp at hnil
      rename_i hclosed
      rw [not_or] at hclosed
      rcases hcase with htrue | ⟨hnone, hunresolved⟩
      · exact absurd htrue hclosed.1
      obtain ⟨hreachable, hpending⟩ := hfinished hnone
      obtain ⟨roots, hevidence, hmap, _⟩ := hcovered.inv.evidence
      rw [hroots] at hmap
      obtain ⟨⟨bracket, residual⟩, hone, rfl⟩ := List.map_eq_singleton_iff.mp hmap.symm
      obtain ⟨p, _, hp⟩ := exists_proof hevidence (r := (bracket, residual)) (by rw [hone]; simp)
      obtain ⟨_, _, hrefined⟩ := hp.uniqueRoot.refined
      obtain ⟨mid, hmid⟩ := hrefined.signs.lo_inDomain.midpoint_isOk hrefined.signs.hi_inDomain
      have hresolved : s.explore.2.unresolved = false := by simpa [hunresolved] using hclosed.1
      exact ⟨mid, hmid, hinside.representative _ hreachable _ hpending hresolved hroots mid hmid⟩
    obtain ⟨r, hr⟩ := report_isOk hcovered.reportable hmid
    exact ⟨r, hr, hcovered.accounted (report_reports hr).1⟩
  unfold run
  rcases hexplore : s.explore with ⟨e, st⟩
  rw [hexplore] at hreport hvalid
  match e, hreport, hvalid with
  | none, hreport, _ => exact hreport _ _ (Or.inr ⟨rfl, rfl⟩)
  | some (.valueError message), _, hvalid => exact absurd rfl (hvalid message)
  | some .budgetExhausted, hreport, _ => exact hreport _ _ (Or.inl rfl)
  | some (.numeric e), hreport, _ => exact hreport _ _ (Or.inl rfl)

end Solver

/-- A list with an inverted entry is not a list of intervals. -/
theorem mapM_toInterval_raises {l : List Bounds} (h : ∃ b ∈ l, ¬ b.lo ≤ b.hi) :
    l.mapM Bounds.toInterval = .error (.valueError "Unordered interval") := by
  induction l with
  | nil => simp at h
  | cons first rest ih =>
    by_cases hfirst : first.lo ≤ first.hi
    · have hrest : ∃ b ∈ rest, ¬ b.lo ≤ b.hi := by
        obtain ⟨b, hb, hinverted⟩ := h
        rcases List.mem_cons.mp hb with rfl | hb
        · exact absurd hfirst hinverted
        · exact ⟨b, hb, hinverted⟩
      rw [List.mapM_cons, Bounds.toInterval_isOk hfirst, ih hrest]
      rfl
    · rw [List.mapM_cons, Bounds.toInterval, dif_neg hfirst]
      rfl

namespace Solver

variable {s : Solver}

/-- A run that leaves an inverted region open without a root raises. -/
theorem report_raises {st : LoopState} (hroots : st.roots = []) (h : ∃ b ∈ st.remaining, ¬ b.lo ≤ b.hi) (reason : String) :
    report st true reason = .error (.valueError "Unordered interval") := by
  simp only [report, outcome, hroots, true_or, if_true, ne_eq, List.cons_ne_nil, not_false_eq_true, reduceCtorEq, if_false,
    Option.mapM_none, List.mapM_nil, mapM_toInterval_raises h]
  rfl

/-- An evaluation within the budget. -/
theorem at_isOk {b : Bounds} {d : Dual} {c : Counters} (hbudget : c.evaluations < s.spec.maxEvaluations)
    (hd : dualResidual s.inputs.toForecastOf s.spec.toSolveSpecFields b s.target = .ok d) :
    s.at b c = (.ok d, { c with evaluations := c.evaluations + 1 }) := by
  rw [Solver.at, if_neg (Nat.not_le.mpr hbudget), hd]
  rfl

/-- A region with a root on neither side is split where the subdivisions and the width allow it. -/
theorem visit_splits {b : Bounds} {d l r : Dual} {m : Decimal} {c : Counters} (hbudget : c.evaluations + 3 ≤ s.spec.maxEvaluations)
    (hd : dualResidual s.inputs.toForecastOf s.spec.toSolveSpecFields b s.target = .ok d)
    (hl : dualResidual s.inputs.toForecastOf s.spec.toSolveSpecFields (.point b.lo) s.target = .ok l)
    (hr : dualResidual s.inputs.toForecastOf s.spec.toSolveSpecFields (.point b.hi) s.target = .ok r)
    (hsign : d.value.sign = 0 ∧ d.derivative.sign ≠ 0) (hends : l.value.sign = -1 ∧ r.value.sign = 0)
    (hmiddle : midpoint b.lo b.hi = .ok m) (hsplits : s.splits b m c.subdivisions = .ok true) :
    s.visit b c = (.ok (.split m), { c with evaluations := c.evaluations + 3, subdivisions := c.subdivisions + 1 }) := by
  have hdomain := at_isOk (s := s) (c := c) (by omega) hd
  have hleft := at_isOk (s := s) (c := { c with evaluations := c.evaluations + 1 }) (by dsimp only; omega) hl
  have hright := at_isOk (s := s) (c := { c with evaluations := c.evaluations + 2 }) (by dsimp only; omega) hr
  have hinspect : s.inspect b c =
      (.ok ⟨d, some l.value, some r.value, none, .unresolved⟩, { c with evaluations := c.evaluations + 3 }) := by
    simp only [inspect, SolverM.bind_apply, hdomain, hsign.1, hsign.2, hleft, hright, hends.1, hends.2, ne_eq, not_true_eq_false,
      not_false_eq_true, if_false, if_true]
    rfl
  simp only [visit, SolverM.bind_apply, hinspect, if_true, SolverM.numeric, SolverM.lift, hmiddle, Except.mapError, SolverM.read, hsplits]
  rfl

/-- The run raises when the split of its second region leaves an inverted half that the budget does not reach. -/
theorem run_raises {a b b' e mid : Decimal} {proof : ProofRegion} {c : Counters} (hcuts : s.cuts = .ok [a, b, b', e])
    (hsubdivisions : 2 ≤ s.spec.maxSubdivisions) (hbelow : s.visit ⟨a, b⟩ ⟨0, 0, 2⟩ = (.ok (.recorded proof none), c))
    {c' : Counters} (hsplit : s.visit ⟨b, b'⟩ c = (.ok (.split mid), c')) (hspent : s.spec.maxEvaluations ≤ c'.evaluations)
    (hinverted : ¬ mid ≤ b') : s.run = .error (.valueError "Unordered interval") := by
  have hpartition : s.partition {} = (.ok [⟨a, b⟩, ⟨b, b'⟩, ⟨b', e⟩], ⟨0, 0, 2⟩) := by
    simp only [partition, SolverM.bind_apply, SolverM.numeric, SolverM.lift, hcuts, Except.mapError]
    rfl
  have hthird : s.visit ⟨b, mid⟩ c' = (.error .budgetExhausted, c') := by
    simp only [visit, inspect, SolverM.bind_apply, Solver.at, if_pos hspent]
  have hexplore : s.explore = (some .budgetExhausted, ⟨[⟨mid, b'⟩, ⟨b', e⟩], some ⟨b, mid⟩, [proof], [], [],
      false || proof.disposition == .unresolved, c'⟩) := by
    simp only [explore, hpartition, if_neg (Nat.not_lt.mpr hsubdivisions), List.length_cons, List.length_nil]
    rw [show 0 + 1 + 1 + 1 + 2 * s.spec.maxSubdivisions = 2 * s.spec.maxSubdivisions + 1 + 1 + 1 by omega]
    simp only [loop, turn, start, hbelow, hsplit, hthird, Option.map_none, Option.toList_none, List.append_nil, List.nil_append]
  rw [run, hexplore]
  exact report_raises rfl ⟨⟨mid, b'⟩, by simp [LoopState.remaining], hinverted⟩ _

end Solver

/-- A forecast without profits before its terminal year. -/
def bandForecast : Forecast where
  revenueAnchor := .ofInt 210
  growth := [.ofInt 0, .ofInt 0]
  margins := [.ofInt 0, .ofInt 0]
  taxes := [.ofInt 0, .ofInt 0]
  reinvestment := [.ofInt 0, .ofInt 0]
  wacc := ⟨false, 1, -1⟩
  riskFree := ⟨false, 5, -2⟩
  terminalGrowth := .ofInt 0
  terminalMargin := ⟨false, 2, -1⟩
  terminalTax := .ofInt 0
  terminalRoic := ⟨false, 1, -1⟩
  accepted := by decide +kernel

/-- A margin solve whose kink lies between the neighbouring decimals 0.51333…33 and 0.51333…34. -/
def bandSpec : SolveSpec where
  solveVariable := .terminalOperatingMargin
  lower := ⟨false, 5, -1⟩
  upper := ⟨false, 6, -1⟩
  absoluteTolerance := ⟨false, 1, -100⟩
  relativeTolerance := .ofInt 0
  widthTolerance := ⟨false, 1, -100⟩
  maxIterations := 1
  maxSubdivisions := 3
  maxEvaluations := 4
  marginWeights := [⟨false, 3, -1⟩, .ofInt 1]
  anchorMargin := some ⟨true, 22, -2⟩
  accepted := by decide +kernel

/-- A target that the enclosure over the kink band contains. -/
def bandTarget : Decimal :=
  ⟨false, 98000000000000000000000000000000000000000000000000000000000000000000000000000005, -77⟩

/-- The decimals around the kink. -/
def bandPoint (last : ℕ) : Decimal := ⟨false, 5133333333333333333333333333333333333333333333333333333333333333333333333333333 * 10 + last, -80⟩

/-- The kink band is split at a rounded midpoint above it, and the inverted half ends the solve. -/
theorem solve_band : solve bandForecast bandSpec bandTarget = .error (.valueError "Unordered interval") := by
  have hbelow : (match Solver.visit ⟨bandForecast, bandSpec, bandTarget⟩ ⟨⟨false, 5, -1⟩, bandPoint 3⟩ ⟨0, 0, 2⟩ with
      | (.ok (.recorded _ none), c) => decide (c = ⟨1, 0, 2⟩)
      | _ => false) = true := by
    decide +kernel
  split at hbelow
  case h_2 => cases hbelow
  case h_1 proof c heq =>
    rw [of_decide_eq_true hbelow] at heq
    obtain ⟨d, hd, hsign⟩ := Solver.exists_of_evaluates (p := fun d => d.value.sign = 0 ∧ d.derivative.sign ≠ 0)
      (x := dualResidual bandForecast.toForecastOf bandSpec.toSolveSpecFields ⟨bandPoint 3, bandPoint 4⟩ bandTarget) (by decide +kernel)
    obtain ⟨l, hl, hlsign⟩ := Solver.exists_of_evaluates (p := fun l => l.value.sign = -1)
      (x := dualResidual bandForecast.toForecastOf bandSpec.toSolveSpecFields (.point (bandPoint 3)) bandTarget) (by decide +kernel)
    obtain ⟨r, hr, hrsign⟩ := Solver.exists_of_evaluates (p := fun r => r.value.sign = 0)
      (x := dualResidual bandForecast.toForecastOf bandSpec.toSolveSpecFields (.point (bandPoint 4)) bandTarget) (by decide +kernel)
    have hsplit := Solver.visit_splits (s := ⟨bandForecast, bandSpec, bandTarget⟩) (b := ⟨bandPoint 3, bandPoint 4⟩) (c := ⟨1, 0, 2⟩)
      (m := bandPoint 5) (by decide) hd hl hr hsign ⟨hlsign, hrsign⟩ (toOption_eq_some.mp (by decide +kernel))
      (toOption_eq_some.mp (by decide +kernel))
    rw [solve, if_neg fun hmargin => hmargin.2 rfl]
    exact Solver.run_raises (e := ⟨false, 6, -1⟩) (toOption_eq_some.mp (by decide +kernel)) (by decide) heq hsplit (by decide) (by decide +kernel)

end EquityEval.Valuation
