import EquityEval.Valuation.Accounting

/-!
# The verdict of a run

The cuts of the partition tile the domain, so every run starts from a tiling and keeps it.
A result that is not inconclusive has no region left over and no unresolved proof: its proofs
cover the domain, each zero lies in a region with a root, and the zeros of two such regions
are different because each lies strictly inside its own region.
-/

namespace EquityEval.Valuation

open DecimalArithmetic IntervalCalculus Set

/-- Strictly increasing cuts from `a` to `b`. -/
def Cuts (a b : Decimal) : List Decimal → Prop
  | [] => False
  | [c] => c = a ∧ c = b
  | c :: d :: rest => c = a ∧ c < d ∧ Cuts d b (d :: rest)

/-- A smaller cut in front keeps the cuts increasing. -/
theorem Cuts.cons {a b d : Decimal} {l : List Decimal} (h : Cuts d b l) (had : a < d) : Cuts a b (a :: l) := by
  cases l with
  | nil => exact h.elim
  | cons c rest =>
    have hc : c = d := by
      cases rest with
      | nil => exact h.1
      | cons e rest => exact h.1
    subst hc
    exact ⟨rfl, had, h⟩

/-- Inserting an inner cut keeps the cuts and their ends. -/
theorem Cuts.insertCut {a b v : Decimal} {l : List Decimal} (h : Cuts a b l) (hav : a < v) (hvb : v < b) :
    Cuts a b (Solver.insertCut v l) := by
  induction l generalizing a with
  | nil => exact h.elim
  | cons c rest ih =>
    have hca : c = a := by
      cases rest with
      | nil => exact h.1
      | cons d rest => exact h.1
    subst hca
    unfold Solver.insertCut
    rw [if_neg (lt_asymm hav), if_pos hav]
    cases rest with
    | nil =>
      obtain ⟨_, rfl⟩ := h
      exact absurd hav (lt_asymm hvb)
    | cons d rest =>
      obtain ⟨_, hcd, hrest⟩ := h
      by_cases hvd : v < d
      · rw [Solver.insertCut, if_pos hvd]
        exact ⟨rfl, hav, rfl, hvd, hrest⟩
      · by_cases hdv : d < v
        · exact (ih hrest hdv).cons hcd
        · rw [Solver.insertCut, if_neg hvd, if_neg hdv]
          exact hrest.cons hcd

/-- The regions between cuts tile their range. -/
theorem Cuts.tiles {a b : Decimal} {l : List Decimal} (h : Cuts a b l) : Tiles a b (Solver.regionsBetween l) := by
  induction l generalizing a with
  | nil => exact h.elim
  | cons c rest ih =>
    cases rest with
    | nil => exact h.1.symm.trans h.2
    | cons d rest =>
      obtain ⟨rfl, hlt, hrest⟩ := h
      exact ⟨rfl, hlt, ih hrest⟩

namespace Solver

variable {s : Solver}

/-- The cuts of a run are increasing from the lower to the upper end. -/
theorem cuts_of_eq_ok {l : List Decimal} (h : s.cuts = .ok l) : Cuts s.spec.lower s.spec.upper l := by
  have hends : Cuts s.spec.lower s.spec.upper [s.spec.lower, s.spec.upper] :=
    ⟨rfl, s.spec.domain_of_accepted.lower_lt_upper, rfl, rfl⟩
  have hinside : ∀ (vs l : List Decimal), (∀ v ∈ vs, s.spec.lower < v ∧ v < s.spec.upper) →
      Cuts s.spec.lower s.spec.upper l →
      Cuts s.spec.lower s.spec.upper (vs.foldl (fun cuts v => insertCut v cuts) l) := by
    intro vs
    induction vs with
    | nil => exact fun l _ hl => hl
    | cons v rest ih =>
      intro l hvs hl
      obtain ⟨h1, h2⟩ := hvs v (by simp)
      exact ih _ (fun w hw => hvs w (by simp [hw])) (hl.insertCut h1 h2)
  unfold cuts at h
  dsimp only at h
  split at h
  · generalize s.spec.marginWeights = weights at h
    generalize hstart : [s.spec.lower, s.spec.upper] = start at h hends
    clear hstart
    induction weights generalizing start with
    | nil =>
      cases h
      exact hends
    | cons weight rest ih =>
      rw [List.foldlM_cons] at h
      obtain ⟨next, hnext, h⟩ := exists_of_bind_eq_ok h
      refine ih next h ?_
      split at hnext
      · obtain ⟨band, _, hnext⟩ := exists_of_bind_eq_ok hnext
        cases hnext
        refine hinside _ start (fun v hv => ?_) hends
        simpa using (List.mem_filter.mp hv).2
      · cases hnext
        exact hends
  · cases h
    exact hends

/-- Every run starts from regions that tile the domain. -/
theorem start_inv {regions : List Bounds} (h : Tiles s.spec.lower s.spec.upper regions) (c : Counters) :
    s.RunInv (start regions c) where
  tiles := h
  evidence := ⟨[], .nil, rfl, rfl⟩
  unresolved := by simp [start]

/-- The explored state keeps the invariant when every region it retains is ordered. -/
theorem explore_inv (s : Solver) (hordered : ∀ b ∈ s.explore.2.remaining, b.lo ≤ b.hi) :
    s.RunInv s.explore.2 := by
  have hwhole : Tiles s.spec.lower s.spec.upper [⟨s.spec.lower, s.spec.upper⟩] :=
    ⟨rfl, s.spec.domain_of_accepted.lower_lt_upper, rfl⟩
  revert hordered
  unfold explore
  dsimp only
  split
  · exact fun _ => start_inv hwhole _
  · rename_i regions c hpartition
    split
    · exact fun _ => start_inv hwhole _
    · intro hordered
      unfold partition at hpartition
      obtain ⟨l, hl, hpartition⟩ := SolverM.exists_of_numeric_bind hpartition
      cases hpartition
      exact (start_inv (cuts_of_eq_ok hl).tiles _).loop _ rfl hordered

/-- A list of bounds that all became intervals. -/
theorem mapM_toInterval {l : List Bounds} {is : List Interval} (h : l.mapM Bounds.toInterval = .ok is) :
    is.map Interval.bounds = l := by
  induction l generalizing is with
  | nil =>
    cases h
    rfl
  | cons b rest ih =>
    rw [List.mapM_cons] at h
    obtain ⟨i, hi, h⟩ := exists_of_bind_eq_ok h
    obtain ⟨tail, htail, h⟩ := exists_of_bind_eq_ok h
    cases h
    rw [List.map_cons, Bounds.bounds_of_toInterval hi, ih htail]

/-- An optional bound that became an interval. -/
theorem option_mapM_toInterval {o : Option Bounds} {i : Option Interval}
    (h : o.mapM Bounds.toInterval = .ok i) : i.map Interval.bounds = o := by
  cases o with
  | none =>
    cases h
    rfl
  | some b =>
    obtain ⟨j, hj, h⟩ := exists_of_bind_eq_ok h
    cases h
    exact congrArg some (Bounds.bounds_of_toInterval hj)

/-- The reasons of a result: one when something is left open, none otherwise. -/
def reasonsOf (st : LoopState) (unresolved : Bool) (reason : String) : List String :=
  if unresolved ∨ st.remaining ≠ [] then [reason] else []

/-- The root that a converged run presents. -/
def chosenRoot (st : LoopState) (reasons : List String) : Option Bounds :=
  if outcome st reasons = .converged then st.roots.head? else none

/-- How a result presents the final state of its run. -/
structure Reports (st : LoopState) (reasons : List String) (r : SolveResult) : Prop where
  state : r.state = outcome st reasons
  resultReasons : r.reasons = reasons
  proof : r.proof = st.proofs
  representative : (chosenRoot st reasons).mapM (fun b => (midpoint b.lo b.hi).mapError Raised.numeric) =
    .ok r.representative
  interval : r.interval.map Interval.bounds = chosenRoot st reasons
  residual : r.residual.map Interval.bounds =
    if outcome st reasons = .converged then st.residuals.head? else none
  rootIntervals : r.rootIntervals.map Interval.bounds = st.roots
  unresolvedDomains : r.unresolvedDomains.map Interval.bounds = st.remaining ++
    (st.proofs.filter fun p => p.disposition = .unresolved).map (·.domain.bounds)

/-- A built result presents its state, whose retained regions are ordered. -/
theorem report_reports {st : LoopState} {unresolved : Bool} {reason : String} {r : SolveResult}
    (h : report st unresolved reason = .ok r) :
    Reports st (reasonsOf st unresolved reason) r ∧ ∀ b ∈ st.remaining, b.lo ≤ b.hi := by
  unfold report at h
  obtain ⟨representative, hrepresentative, h⟩ := exists_of_bind_eq_ok h
  obtain ⟨interval, hinterval, h⟩ := exists_of_bind_eq_ok h
  obtain ⟨residual, hresidual, h⟩ := exists_of_bind_eq_ok h
  obtain ⟨rootIntervals, hroots, h⟩ := exists_of_bind_eq_ok h
  obtain ⟨remaining, hremaining, h⟩ := exists_of_bind_eq_ok h
  have hfields := SolveResult.fields_of_validate h
  replace hremaining := mapM_toInterval hremaining
  constructor
  · constructor <;> rw [hfields]
    · rfl
    · rfl
    · exact hrepresentative
    · exact option_mapM_toInterval hinterval
    · exact option_mapM_toInterval hresidual
    · exact mapM_toInterval hroots
    · rw [List.map_append, hremaining, List.map_map]
      rfl
  · intro b hb
    rw [← hremaining] at hb
    obtain ⟨i, _, rfl⟩ := List.mem_map.mp hb
    exact i.ordered

/-- A returned result reports the explored state; an interruption leaves it unresolved. -/
theorem run_reports {r : SolveResult} (h : s.run = .ok r) :
    ∃ reason, Reports s.explore.2
      (reasonsOf s.explore.2 (s.explore.1.isSome || s.explore.2.unresolved) reason) r ∧ s.RunInv s.explore.2 := by
  unfold run at h
  rcases hexplore : s.explore with ⟨e, st⟩
  have hinv : (∀ b ∈ st.remaining, b.lo ≤ b.hi) → s.RunInv st := by
    simpa [hexplore] using s.explore_inv
  rw [hexplore] at h
  cases e with
  | none =>
    obtain ⟨hreports, hordered⟩ := report_reports h
    exact ⟨_, by simpa using hreports, hinv hordered⟩
  | some e =>
    cases e with
    | valueError message => cases h
    | budgetExhausted =>
      obtain ⟨hreports, hordered⟩ := report_reports h
      exact ⟨_, hreports, hinv hordered⟩
    | numeric e =>
      obtain ⟨hreports, hordered⟩ := report_reports h
      exact ⟨_, hreports, hinv hordered⟩

/-- A solve returns what its run returns. -/
theorem run_of_solve {inputs : Forecast} {spec : SolveSpec} {target : Decimal} {r : SolveResult}
    (h : solve inputs spec target = .ok r) : Solver.run ⟨inputs, spec, target⟩ = .ok r := by
  unfold solve at h
  split at h
  · cases h
  · exact h

/-- A conclusive state has visited every region and resolved each. -/
structure Conclusive (s : Solver) (st : LoopState) : Prop where
  inv : s.RunInv st
  remaining : st.remaining = []
  resolved : ∀ p ∈ st.proofs, p.disposition ≠ .unresolved

/-- A result without reasons reports a conclusive state. -/
theorem conclusive_of_reports {st : LoopState} {interrupted : Bool} {reason : String} (hinv : s.RunInv st)
    (h : reasonsOf st (interrupted || st.unresolved) reason = []) : s.Conclusive st := by
  unfold reasonsOf at h
  split at h
  · simp at h
  · rename_i hopen
    simp only [Bool.or_eq_true, ne_eq, not_or, not_not] at hopen
    refine ⟨hinv, hopen.2, fun p hp hunresolved => ?_⟩
    exact hopen.1.2 (hinv.unresolved.mpr ⟨p, hp, hunresolved⟩)

/-- The proofs of a conclusive state cover the domain. -/
theorem Conclusive.covers {st : LoopState} (h : s.Conclusive st) {x : ℝ}
    (hx : x ∈ Icc (s.spec.lower.value : ℝ) s.spec.upper.value) : ∃ p ∈ st.proofs, x ∈ p.domain.bounds.set := by
  have hne : s.spec.lower ≠ s.spec.upper := by
    have hlt := Decimal.lt_iff_value.mp s.spec.domain_of_accepted.lower_lt_upper
    exact fun heq => absurd hlt (by rw [heq]; exact lt_irrefl _)
  obtain ⟨b, hb, hmem⟩ := h.inv.tiles.exists_mem hne hx
  have hremaining := h.remaining
  simp only [LoopState.remaining, List.append_eq_nil_iff, List.reverse_eq_nil_iff] at hremaining
  rw [LoopState.regions, hremaining.1, hremaining.2, List.append_nil, List.append_nil] at hb
  obtain ⟨p, hp, rfl⟩ := List.mem_map.mp hb
  exact ⟨p, hp, hmem⟩

/-- A region with a unique root has a zero strictly inside. -/
theorem UniqueRoot.exists_zero {region root residual : Bounds} (h : s.UniqueRoot region root residual)
    (hordered : region.lo ≤ region.hi) :
    ∃ z ∈ Ioo (region.lo.value : ℝ) region.hi.value, s.f z = 0 :=
  exists_zero_of_opposite (by exact_mod_cast Decimal.le_iff_value.mp hordered) h.continuous h.opposite

/-- An accepted bracket contains a zero of the domain. -/
theorem Refined.exists_zero {leftSign : ℤ} {root residual : Bounds} (h : s.Refined leftSign root residual)
    (hsign : leftSign = 1 ∨ leftSign = -1) (hordered : root.lo ≤ root.hi) :
    ∃ z ∈ root.set, z ∈ Icc (s.spec.lower.value : ℝ) s.spec.upper.value ∧ s.f z = 0 := by
  obtain ⟨slopes, henclosed⟩ := h.encloses
  have hcontinuous : ContinuousOn s.f root.set := SlopesIn.continuousOn henclosed.slopes
  have hopposite : s.f root.lo.value < 0 ∧ 0 < s.f root.hi.value ∨ 0 < s.f root.lo.value ∧ s.f root.hi.value < 0 := by
    rcases hsign with rfl | rfl
    · exact Or.inr ⟨h.signs.left.1 rfl, h.signs.right.2 rfl⟩
    · exact Or.inl ⟨h.signs.left.2 rfl, h.signs.right.1 rfl⟩
  obtain ⟨z, hz, hzero⟩ := exists_zero_of_opposite (by exact_mod_cast Decimal.le_iff_value.mp hordered)
    hcontinuous hopposite
  have hlo : (s.spec.lower.value : ℝ) ≤ root.lo.value := by exact_mod_cast h.signs.lo_inDomain.1
  have hhi : (root.hi.value : ℝ) ≤ s.spec.upper.value := by exact_mod_cast h.signs.hi_inDomain.2
  exact ⟨z, ⟨hz.1.le, hz.2.le⟩, ⟨hlo.trans hz.1.le, hz.2.le.trans hhi⟩, hzero⟩

/-- A proof that is neither open nor a root excludes zeros from its region. -/
theorem Evidence.ne_zero {p : ProofRegion} {root : Option (Bounds × Bounds)} (h : s.Evidence p root)
    (hopen : p.disposition ≠ .unresolved) (hroot : p.disposition ≠ .uniqueRoot) :
    ∀ x ∈ p.domain.bounds.set, s.f x ≠ 0 := by
  rcases h with ⟨hcertified, _⟩
  generalize p.disposition = d at hcertified hopen hroot
  cases hcertified with
  | excluded h => exact h
  | unresolved => exact absurd rfl hopen
  | uniqueRoot => exact absurd rfl hroot

/-- Every proof has its evidence. -/
theorem exists_evidence {proofs : List ProofRegion} {roots : List (Option (Bounds × Bounds))}
    (h : List.Forall₂ s.Evidence proofs roots) {p : ProofRegion} (hp : p ∈ proofs) :
    ∃ root, s.Evidence p root := by
  induction h with
  | nil => cases hp
  | cons hq _ ih =>
    rcases List.mem_cons.mp hp with rfl | hrest
    · exact ⟨_, hq⟩
    · exact ih hrest

/-- Without a root among the proofs no proof claims one. -/
theorem no_root_claimed {proofs : List ProofRegion} {roots : List (Option (Bounds × Bounds))}
    (h : List.Forall₂ s.Evidence proofs roots) (hnone : roots.reduceOption = []) :
    ∀ p ∈ proofs, p.disposition ≠ .uniqueRoot := by
  induction h with
  | nil => simp
  | @cons p root proofs roots hp _ ih =>
    cases root with
    | some root => simp at hnone
    | none =>
      rw [List.reduceOption_cons_of_none] at hnone
      intro q hq
      rcases List.mem_cons.mp hq with rfl | hrest
      · rcases hp with ⟨hcertified, _⟩
        generalize q.disposition = d at hcertified
        cases hcertified <;> simp
      · exact ih hnone q hrest

/-- A single root among the proofs belongs to the only proof that claims one. -/
theorem single_root_claimed {proofs : List ProofRegion} {roots : List (Option (Bounds × Bounds))}
    (h : List.Forall₂ s.Evidence proofs roots) {root : Bounds × Bounds} (hone : roots.reduceOption = [root]) :
    ∃ p ∈ proofs, s.Evidence p (some root) ∧ ∀ q ∈ proofs, q = p ∨ q.disposition ≠ .uniqueRoot := by
  induction h with
  | nil => simp at hone
  | @cons p r proofs roots hp htail ih =>
    cases r with
    | none =>
      rw [List.reduceOption_cons_of_none] at hone
      obtain ⟨q, hq, hevidence, hother⟩ := ih hone
      refine ⟨q, by simp [hq], hevidence, fun t ht => ?_⟩
      rcases List.mem_cons.mp ht with rfl | hrest
      · right
        rcases hp with ⟨hcertified, _⟩
        generalize t.disposition = d at hcertified
        cases hcertified <;> simp
      · exact hother t hrest
    | some r =>
      rw [List.reduceOption_cons_of_some, List.cons.injEq] at hone
      obtain ⟨rfl, hrest⟩ := hone
      refine ⟨p, by simp, hp, fun t ht => ?_⟩
      rcases List.mem_cons.mp ht with rfl | hmem
      · exact Or.inl rfl
      · exact Or.inr (no_root_claimed htail hrest t hmem)

/-- A proof with a root certifies a unique root of its region. -/
theorem Evidence.uniqueRoot {p : ProofRegion} {root residual : Bounds}
    (h : s.Evidence p (some (root, residual))) : s.UniqueRoot p.domain.bounds root residual := by
  rcases h with ⟨hcertified, _⟩
  generalize p.disposition = d at hcertified
  cases hcertified with
  | uniqueRoot h => exact h

/-- Tiled proofs have as many different zeros as certified roots. -/
theorem exists_zeros {proofs : List ProofRegion} {roots : List (Option (Bounds × Bounds))} {a b : Decimal}
    (h : List.Forall₂ s.Evidence proofs roots) (htiles : Tiles a b (proofs.map (·.domain.bounds))) :
    ∃ zs : List ℝ, zs.length = roots.reduceOption.length ∧ zs.Pairwise (· < ·) ∧
      ∀ z ∈ zs, z ∈ Ioo (a.value : ℝ) b.value ∧ s.f z = 0 := by
  induction h generalizing a with
  | nil => exact ⟨[], rfl, .nil, by simp⟩
  | @cons p root proofs roots hp _ ih =>
    obtain ⟨rfl, hlt, hrest⟩ := htiles
    obtain ⟨zs, hlength, hsorted, hzeros⟩ := ih hrest
    have hlt' : ((p.domain.bounds.lo.value : ℝ)) < p.domain.bounds.hi.value := by
      exact_mod_cast Decimal.lt_iff_value.mp hlt
    have hwiden : ∀ z ∈ zs, z ∈ Ioo (p.domain.bounds.lo.value : ℝ) b.value ∧ s.f z = 0 := fun z hz =>
      ⟨⟨hlt'.trans (hzeros z hz).1.1, (hzeros z hz).1.2⟩, (hzeros z hz).2⟩
    cases root with
    | none => exact ⟨zs, by rw [hlength, List.reduceOption_cons_of_none], hsorted, hwiden⟩
    | some root =>
      obtain ⟨z, hz, hzero⟩ := hp.uniqueRoot.exists_zero hlt.le
      refine ⟨z :: zs, by rw [List.length_cons, hlength, List.reduceOption_cons_of_some, List.length_cons], ?_, ?_⟩
      · exact List.pairwise_cons.mpr ⟨fun y hy => hz.2.trans (hzeros y hy).1.1, hsorted⟩
      · intro y hy
        rcases List.mem_cons.mp hy with rfl | hmem
        · exact ⟨⟨hz.1, hz.2.trans_le (by exact_mod_cast hrest.le)⟩, hzero⟩
        · exact hwiden y hmem

/-- The zeros of the exact residual in the solve domain. -/
def Zero (s : Solver) (x : ℝ) : Prop := x ∈ Icc (s.spec.lower.value : ℝ) s.spec.upper.value ∧ s.f x = 0

/-- The proofs of a conclusive state tile the domain by themselves. -/
theorem Conclusive.tiles {st : LoopState} (h : s.Conclusive st) :
    Tiles s.spec.lower s.spec.upper (st.proofs.map (·.domain.bounds)) := by
  have htiles := h.inv.tiles
  have hremaining := h.remaining
  simp only [LoopState.remaining, List.append_eq_nil_iff, List.reverse_eq_nil_iff] at hremaining
  rwa [LoopState.regions, hremaining.1, hremaining.2, List.append_nil, List.append_nil] at htiles

/-- Without a certified root the domain has no zero. -/
theorem Conclusive.no_zero {st : LoopState} (h : s.Conclusive st) (hroots : st.roots = []) (x : ℝ) : ¬ s.Zero x := by
  rintro ⟨hx, hzero⟩
  obtain ⟨roots, hevidence, heq, _⟩ := h.inv.evidence
  rw [hroots] at heq
  have hnone := no_root_claimed hevidence (List.map_eq_nil_iff.mp heq.symm)
  obtain ⟨p, hp, hmem⟩ := h.covers hx
  obtain ⟨root, hproof⟩ := exists_evidence hevidence hp
  exact hproof.ne_zero (h.resolved p hp) (hnone p hp) x hmem hzero

/-- With a single certified root the domain has a single zero, and it lies in that root's bracket. -/
theorem Conclusive.unique_zero {st : LoopState} (h : s.Conclusive st) {root : Bounds} (hroots : st.roots = [root])
    (hordered : root.lo ≤ root.hi) : ∃ z, s.Zero z ∧ z ∈ root.set ∧ ∀ y, s.Zero y → y = z := by
  obtain ⟨roots, hevidence, heq, _⟩ := h.inv.evidence
  rw [hroots] at heq
  obtain ⟨⟨bracket, residual⟩, hone, hfirst⟩ := List.map_eq_singleton_iff.mp heq.symm
  subst hfirst
  obtain ⟨p, hp, hproof, hother⟩ := single_root_claimed hevidence hone
  -- every zero lies in the one region that claims a root
  have hlocated : ∀ y, s.Zero y → y ∈ p.domain.bounds.set := by
    rintro y ⟨hy, hzero⟩
    obtain ⟨q, hq, hmem⟩ := h.covers hy
    obtain ⟨r, hr⟩ := exists_evidence hevidence hq
    rcases hother q hq with rfl | hne
    · exact hmem
    · exact absurd hzero (hr.ne_zero (h.resolved q hq) hne y hmem)
  have hunique := hproof.uniqueRoot
  obtain ⟨leftSign, hsign, hrefined⟩ := hunique.refined
  obtain ⟨z, hz, hdomain, hzero⟩ := hrefined.exists_zero hsign hordered
  refine ⟨z, ⟨hdomain, hzero⟩, hz, fun y hy => ?_⟩
  exact hunique.injective (hlocated y hy) (hlocated z ⟨hdomain, hzero⟩) (hy.2.trans hzero.symm)

/-- With several certified roots the domain has different zeros. -/
theorem Conclusive.two_zeros {st : LoopState} (h : s.Conclusive st) (hroots : 1 < st.roots.length) :
    ∃ y z, y ≠ z ∧ s.Zero y ∧ s.Zero z := by
  obtain ⟨roots, hevidence, heq, _⟩ := h.inv.evidence
  obtain ⟨zs, hlength, hsorted, hzeros⟩ := exists_zeros hevidence h.tiles
  rw [heq, List.length_map, ← hlength] at hroots
  match zs, hroots, hsorted, hzeros with
  | y :: z :: _, _, hsorted, hzeros =>
    have hlt : y < z := (List.pairwise_cons.mp hsorted).1 z (by simp)
    obtain ⟨hy, hfy⟩ := hzeros y (by simp)
    obtain ⟨hz, hfz⟩ := hzeros z (by simp)
    exact ⟨y, z, hlt.ne, ⟨⟨hy.1.le, hy.2.le⟩, hfy⟩, ⟨⟨hz.1.le, hz.2.le⟩, hfz⟩⟩

/-- A state that is not inconclusive has no reasons. -/
theorem reasons_nil_of_outcome {st : LoopState} {reasons : List String}
    (h : outcome st reasons ≠ .inconclusive) : reasons = [] := by
  by_contra hne
  exact h (if_pos hne)

/-- A converged outcome has a single root. -/
theorem roots_of_converged {st : LoopState} {reasons : List String} (h : outcome st reasons = .converged) :
    ∃ root, st.roots = [root] := by
  unfold outcome at h
  split at h
  · cases h
  split at h
  · cases h
  split at h
  · rename_i hle hne
    exact List.length_eq_one_iff.mp (by have := List.length_pos_iff.mpr hne; omega)
  · cases h

/-- An outcome without a solution has no root. -/
theorem roots_of_no_solution {st : LoopState} {reasons : List String}
    (h : outcome st reasons = .noSolutionInDomain) : st.roots = [] := by
  by_contra hne
  unfold outcome at h
  split at h
  · cases h
  split at h <;> cases h

/-- A non-unique outcome has several roots. -/
theorem roots_of_non_unique {st : LoopState} {reasons : List String} (h : outcome st reasons = .nonUnique) :
    1 < st.roots.length := by
  by_contra hle
  unfold outcome at h
  split at h
  · cases h
  split at h <;> cases h

/-! ### A domain that is certified at once -/

/-- The evaluations of a domain and of its ends certify one root in it: its bounds `d` are of both signs with slopes of one sign,
those at the ends `l` and `r` are of opposite signs, and the domain itself passes the acceptance test of its bisection. -/
structure Certified (s : Solver) (d l r : Dual) (tolerance mid : Decimal) : Prop where
  cuts : s.cuts = .ok [s.spec.lower, s.spec.upper]
  budget : 4 ≤ s.spec.maxEvaluations ∧ 0 < s.spec.maxIterations
  domain : dualResidual s.inputs.toForecastOf s.spec.toSolveSpecFields ⟨s.spec.lower, s.spec.upper⟩ s.target = .ok d
  left : dualResidual s.inputs.toForecastOf s.spec.toSolveSpecFields (.point s.spec.lower) s.target = .ok l
  right : dualResidual s.inputs.toForecastOf s.spec.toSolveSpecFields (.point s.spec.upper) s.target = .ok r
  sign : d.value.sign = 0
  slope : d.derivative.sign ≠ 0
  opposite : l.value.sign * r.value.sign = -1
  tolerated : s.tolerance = .ok tolerance
  accepted : s.accepts tolerance ⟨s.spec.lower, s.spec.upper⟩ d.value = .ok true
  ordered : (d.value.lo ≤ d.value.hi ∧ d.derivative.lo ≤ d.derivative.hi) ∧ l.value.lo ≤ l.value.hi ∧ r.value.lo ≤ r.value.hi
  middle : midpoint s.spec.lower s.spec.upper = .ok mid ∧ s.spec.lower ≤ mid ∧ mid ≤ s.spec.upper

namespace Certified

variable {s : Solver} {d l r : Dual} {tolerance mid : Decimal}

/-- An evaluation within the budget. -/
theorem evaluates (h : s.Certified d l r tolerance mid) {b : Bounds} {a : Dual} {c : Counters}
    (ha : dualResidual s.inputs.toForecastOf s.spec.toSolveSpecFields b s.target = .ok a) (hc : c.evaluations < 4) :
    s.at b c = (.ok a, { c with evaluations := c.evaluations + 1 }) := by
  have hbudget := h.budget.1
  rw [Solver.at, if_neg (by omega), ha]
  rfl

/-- The bisection accepts the domain itself. -/
theorem refines (h : s.Certified d l r tolerance mid) (sign : ℤ) :
    s.refine ⟨s.spec.lower, s.spec.upper⟩ sign ⟨3, 0, 0⟩ = (.ok (some (⟨s.spec.lower, s.spec.upper⟩, d.value)), ⟨4, 1, 0⟩) := by
  obtain ⟨n, hn⟩ := Nat.exists_eq_succ_of_ne_zero h.budget.2.ne'
  have hturn : s.refineTurn tolerance sign ⟨s.spec.lower, s.spec.upper⟩ ⟨3, 0, 0⟩ =
      (.ok (.done (some (⟨s.spec.lower, s.spec.upper⟩, d.value))), ⟨4, 1, 0⟩) := by
    have heval := h.evaluates (c := ⟨3, 1, 0⟩) h.domain (by decide)
    simp only [refineTurn, SolverM.bind_apply, SolverM.modify, heval, SolverM.numeric, SolverM.lift, h.accepted, Except.mapError]
    rfl
  simp only [refine, SolverM.bind_apply, SolverM.numeric, SolverM.lift, h.tolerated, Except.mapError, hn, refineLoop, hturn]
  rfl

/-- The domain has a certified root. -/
theorem inspects (h : s.Certified d l r tolerance mid) : s.inspect ⟨s.spec.lower, s.spec.upper⟩ ⟨0, 0, 0⟩ =
    (.ok ⟨d, some l.value, some r.value, some (⟨s.spec.lower, s.spec.upper⟩, d.value), .uniqueRoot⟩, ⟨4, 1, 0⟩) := by
  have hdomain := h.evaluates (c := ⟨0, 0, 0⟩) h.domain (by decide)
  have hleft := h.evaluates (c := ⟨1, 0, 0⟩) h.left (by decide)
  have hright := h.evaluates (c := ⟨2, 0, 0⟩) h.right (by decide)
  have hne : ¬ (l.value.sign ≠ 0 ∧ l.value.sign = r.value.sign) := by
    rintro ⟨-, heq⟩
    have hopposite := h.opposite
    rw [heq] at hopposite
    nlinarith [mul_self_nonneg r.value.sign]
  simp only [inspect, SolverM.bind_apply, hdomain, h.sign, h.slope, hleft, hright, hne, h.opposite, h.refines, ne_eq,
    not_true_eq_false, not_false_eq_true, if_false, if_true]
  rfl

/-- The visit of the domain records its root. -/
theorem visits (h : s.Certified d l r tolerance mid) : ∃ proof : ProofRegion, proof.disposition = .uniqueRoot ∧
    s.visit ⟨s.spec.lower, s.spec.upper⟩ ⟨0, 0, 0⟩ =
      (.ok (.recorded proof (some (⟨s.spec.lower, s.spec.upper⟩, d.value))), ⟨4, 1, 0⟩) := by
  have hdomain : s.spec.lower ≤ s.spec.upper := h.middle.2.1.trans h.middle.2.2
  let proof : ProofRegion :=
    { domain := ⟨s.spec.lower, s.spec.upper, hdomain⟩
      residual := ⟨d.value.lo, d.value.hi, h.ordered.1.1⟩
      derivative := ⟨d.derivative.lo, d.derivative.hi, h.ordered.1.2⟩
      disposition := .uniqueRoot
      leftResidual := some ⟨l.value.lo, l.value.hi, h.ordered.2.1⟩
      rightResidual := some ⟨r.value.lo, r.value.hi, h.ordered.2.2⟩
      root := some ⟨s.spec.lower, s.spec.upper, hdomain⟩ }
  have hrecord : record ⟨s.spec.lower, s.spec.upper⟩
      ⟨d, some l.value, some r.value, some (⟨s.spec.lower, s.spec.upper⟩, d.value), .uniqueRoot⟩ = .ok proof := by
    simp only [record, Option.map_some, Option.mapM_some, Bounds.toInterval_isOk (b := ⟨s.spec.lower, s.spec.upper⟩) hdomain,
      Bounds.toInterval_isOk (b := d.value) h.ordered.1.1, Bounds.toInterval_isOk (b := d.derivative) h.ordered.1.2,
      Bounds.toInterval_isOk (b := l.value) h.ordered.2.1, Bounds.toInterval_isOk (b := r.value) h.ordered.2.2]
    rfl
  refine ⟨proof, rfl, ?_⟩
  simp only [visit, SolverM.bind_apply, h.inspects, reduceCtorEq, if_false, SolverM.lift, hrecord]
  rfl

/-- The loop ends after the one visit. -/
theorem explores (h : s.Certified d l r tolerance mid) : ∃ proof : ProofRegion, s.explore =
    (none, ⟨[], none, [proof], [⟨s.spec.lower, s.spec.upper⟩], [d.value], false, ⟨4, 1, 0⟩⟩) := by
  obtain ⟨proof, hproof, hvisit⟩ := h.visits
  have hpartition : s.partition {} = (.ok [⟨s.spec.lower, s.spec.upper⟩], ⟨0, 0, 0⟩) := by
    simp only [partition, SolverM.bind_apply, SolverM.numeric, SolverM.lift, h.cuts, Except.mapError]
    rfl
  have hturn : s.turn (start [⟨s.spec.lower, s.spec.upper⟩] ⟨0, 0, 0⟩) ⟨s.spec.lower, s.spec.upper⟩ [] =
      (none, ⟨[], none, [proof], [⟨s.spec.lower, s.spec.upper⟩], [d.value], false, ⟨4, 1, 0⟩⟩) := by
    simp only [turn, start, hvisit, hproof]
    rfl
  refine ⟨proof, ?_⟩
  simp only [explore, hpartition, Nat.not_lt_zero, if_false]
  have hpending : (start [⟨s.spec.lower, s.spec.upper⟩] ⟨0, 0, 0⟩).pending = [⟨s.spec.lower, s.spec.upper⟩] := rfl
  rw [List.length_singleton, Nat.add_comm]
  simp only [loop, hpending, hturn]
  cases 2 * s.spec.maxSubdivisions <;> rfl

/-- A run on a certified domain converges on the domain, which it presents by its midpoint. -/
theorem converges (h : s.Certified d l r tolerance mid) : ∃ result, s.run = .ok result ∧ result.state = .converged ∧
    result.representative = some mid ∧ result.interval.map Interval.bounds = some ⟨s.spec.lower, s.spec.upper⟩ := by
  obtain ⟨proof, hexplore⟩ := h.explores
  have hdomain : s.spec.lower ≤ s.spec.upper := h.middle.2.1.trans h.middle.2.2
  let fields : SolveResultFields :=
    { state := .converged
      representative := some mid
      interval := some ⟨s.spec.lower, s.spec.upper, hdomain⟩
      residual := some ⟨d.value.lo, d.value.hi, h.ordered.1.1⟩
      rootIntervals := [⟨s.spec.lower, s.spec.upper, hdomain⟩]
      unresolvedDomains := ([proof].filter fun p => p.disposition = .unresolved).map fun p => p.domain
      proof := [proof]
      evaluations := 4
      subdivisions := 0
      iterations := 1
      reasons := [] }
  have hcheck : fields.scalarRequiresCertificate = .ok () := by
    simp [fields, SolveResultFields.scalarRequiresCertificate, h.middle.2.1, h.middle.2.2]
  obtain ⟨result, hresult⟩ := SolveResult.validate_isOk hcheck
  have hfields := SolveResult.fields_of_validate hresult
  refine ⟨result, ?_, congrArg SolveResultFields.state hfields, congrArg SolveResultFields.representative hfields,
    congrArg (fun f : SolveResultFields => f.interval.map Interval.bounds) hfields⟩
  rw [run, hexplore, ← hresult]
  simp only [report, outcome, LoopState.remaining, Option.toList_none, List.reverse_nil, List.append_nil, ne_eq, not_true_eq_false,
    or_false, if_false, Bool.false_eq_true, List.length_singleton, lt_irrefl, List.cons_ne_nil, not_false_eq_true, if_true,
    List.head?_cons, Option.mapM_some, List.mapM_cons, List.mapM_nil, h.middle.1,
    Bounds.toInterval_isOk (b := ⟨s.spec.lower, s.spec.upper⟩) hdomain, Bounds.toInterval_isOk (b := d.value) h.ordered.1.1]
  rfl

end Certified

/-- An evaluation that passes a test has a value that does. -/
theorem exists_of_evaluates {x : Except NumericError Dual} {p : Dual → Prop} [DecidablePred p]
    (h : (x.toOption.any fun d => decide (p d)) = true) : ∃ d, x = .ok d ∧ p d := by
  obtain ⟨d, hd, hp⟩ := (Option.any_eq_true ..).mp h
  exact ⟨d, toOption_eq_some.mp hd, of_decide_eq_true hp⟩

/-- A run converges when three evaluations certify the root of its domain; each is tested apart, which takes less room than the run. -/
theorem run_converges (s : Solver) (side : ℤ) (tolerance mid : Decimal) (hside : side * -side = -1)
    (hcuts : s.cuts = .ok [s.spec.lower, s.spec.upper]) (hbudget : 4 ≤ s.spec.maxEvaluations ∧ 0 < s.spec.maxIterations)
    (htolerance : s.tolerance = .ok tolerance)
    (hdomain : ((dualResidual s.inputs.toForecastOf s.spec.toSolveSpecFields ⟨s.spec.lower, s.spec.upper⟩ s.target).toOption.any fun d =>
      decide ((d.value.sign = 0 ∧ d.derivative.sign ≠ 0 ∧ s.accepts tolerance ⟨s.spec.lower, s.spec.upper⟩ d.value = .ok true) ∧
        d.value.lo ≤ d.value.hi ∧ d.derivative.lo ≤ d.derivative.hi)) = true)
    (hleft : ((dualResidual s.inputs.toForecastOf s.spec.toSolveSpecFields (.point s.spec.lower) s.target).toOption.any fun l =>
      decide (l.value.sign = side ∧ l.value.lo ≤ l.value.hi)) = true)
    (hright : ((dualResidual s.inputs.toForecastOf s.spec.toSolveSpecFields (.point s.spec.upper) s.target).toOption.any fun r =>
      decide (r.value.sign = -side ∧ r.value.lo ≤ r.value.hi)) = true)
    (hmiddle : midpoint s.spec.lower s.spec.upper = .ok mid ∧ s.spec.lower ≤ mid ∧ mid ≤ s.spec.upper) :
    ∃ result, s.run = .ok result ∧ result.state = .converged ∧ result.representative = some mid ∧
      result.interval.map Interval.bounds = some ⟨s.spec.lower, s.spec.upper⟩ := by
  obtain ⟨d, hd, ⟨hsign, hslope, haccepted⟩, hordered⟩ := exists_of_evaluates hdomain
  obtain ⟨l, hl, hlsign, hlordered⟩ := exists_of_evaluates hleft
  obtain ⟨r, hr, hrsign, hrordered⟩ := exists_of_evaluates hright
  have hopposite : l.value.sign * r.value.sign = -1 := by rw [hlsign, hrsign, hside]
  exact Certified.converges
    ⟨hcuts, hbudget, hd, hl, hr, hsign, hslope, hopposite, htolerance, haccepted, ⟨hordered, hlordered, hrordered⟩, hmiddle⟩

end Solver

/-- A zero of the exact residual in the solve domain. -/
def IsSolution (inputs : Forecast) (spec : SolveSpec) (target : Decimal) (x : ℝ) : Prop :=
  x ∈ Icc (spec.lower.value : ℝ) spec.upper.value ∧
    exactResidual inputs.toForecastOf spec.toSolveSpecFields target x = 0

/-- The verdict of a solve is true of the exact residual. -/
theorem solve_verdict_sound (inputs : Forecast) (spec : SolveSpec) (target : Decimal) (r : SolveResult)
    (h : solve inputs spec target = .ok r) :
    (r.state = .converged → ∃ i, r.interval = some i ∧
      ∃ z ∈ Icc (i.lower.value : ℝ) i.upper.value, IsSolution inputs spec target z ∧
        ∀ y, IsSolution inputs spec target y → y = z) ∧
    (r.state = .noSolutionInDomain → ∀ x, ¬ IsSolution inputs spec target x) ∧
    (r.state = .nonUnique → ∃ y z, y ≠ z ∧ IsSolution inputs spec target y ∧ IsSolution inputs spec target z) := by
  obtain ⟨reason, hreports, hinv⟩ := Solver.run_reports (Solver.run_of_solve h)
  set st := (Solver.mk inputs spec target).explore.2
  set reasons := Solver.reasonsOf st ((Solver.mk inputs spec target).explore.1.isSome || st.unresolved) reason
  have hconclusive : r.state ≠ .inconclusive → Solver.Conclusive ⟨inputs, spec, target⟩ st := fun hne =>
    Solver.conclusive_of_reports hinv (Solver.reasons_nil_of_outcome (hreports.state ▸ hne))
  have houtcome := hreports.state
  refine ⟨fun hstate => ?_, fun hstate => ?_, fun hstate => ?_⟩
  · have hc := hconclusive (by rw [hstate]; simp)
    have hinterval := hreports.interval
    rw [hstate] at houtcome
    rw [Solver.chosenRoot, if_pos houtcome.symm] at hinterval
    obtain ⟨root, hroots⟩ := Solver.roots_of_converged houtcome.symm
    rw [hroots] at hinterval
    obtain ⟨i, hi, hbounds⟩ := Option.map_eq_some_iff.mp hinterval
    subst hbounds
    obtain ⟨z, hz, hmem, hunique⟩ := hc.unique_zero hroots i.ordered
    exact ⟨i, hi, z, hmem, hz, hunique⟩
  · have hc := hconclusive (by rw [hstate]; simp)
    exact hc.no_zero (Solver.roots_of_no_solution (houtcome.symm.trans hstate))
  · have hc := hconclusive (by rw [hstate]; simp)
    exact hc.two_zeros (Solver.roots_of_non_unique (houtcome.symm.trans hstate))

/-- A forecast of one year. -/
def sampleForecast : Forecast where
  revenueAnchor := .ofInt 100
  growth := [⟨false, 1, -1⟩]
  margins := [⟨false, 2, -1⟩]
  taxes := [⟨false, 25, -2⟩]
  reinvestment := [⟨false, 5, -2⟩]
  wacc := ⟨false, 1, -1⟩
  riskFree := ⟨false, 5, -2⟩
  terminalGrowth := ⟨false, 2, -2⟩
  terminalMargin := ⟨false, 2, -1⟩
  terminalTax := ⟨false, 25, -2⟩
  terminalRoic := ⟨false, 12, -2⟩
  accepted := by decide +kernel

/-- A growth solve with wide tolerances. -/
def sampleSpec : SolveSpec where
  solveVariable := .revenueCagr
  lower := ⟨true, 5, -1⟩
  upper := ⟨false, 5, -1⟩
  absoluteTolerance := .ofInt 1000
  relativeTolerance := .ofInt 0
  widthTolerance := .ofInt 1
  maxIterations := 8
  maxSubdivisions := 8
  maxEvaluations := 8
  marginWeights := []
  anchorMargin := none
  accepted := sampleScenario.solve.accepted

/-- The sample solve converges. -/
theorem solve_sample : ∃ r, solve sampleForecast sampleSpec (.ofInt 150) = .ok r ∧ r.state = .converged := by
  obtain ⟨r, hr, hstate, -⟩ := Solver.run_converges ⟨sampleForecast, sampleSpec, .ofInt 150⟩ (-1) (.ofInt 1000) ⟨false, 0, -1⟩ (by decide)
    rfl (by decide) (by decide +kernel) (by decide +kernel) (by decide +kernel) (by decide +kernel) (by decide +kernel)
  rw [solve, if_neg fun hmargin => absurd hmargin.1 (by decide)]
  exact ⟨r, hr, hstate⟩

/-- The sample growth solve has exactly one solution. -/
theorem solve_verdict_sound_sample :
    ∃ z, IsSolution sampleForecast sampleSpec (.ofInt 150) z ∧
      ∀ y, IsSolution sampleForecast sampleSpec (.ofInt 150) y → y = z := by
  obtain ⟨r, hr, hstate⟩ := solve_sample
  obtain ⟨_, _, z, _, hz, hunique⟩ := (solve_verdict_sound sampleForecast sampleSpec (.ofInt 150) r hr).1 hstate
  exact ⟨z, hz, hunique⟩

end EquityEval.Valuation
