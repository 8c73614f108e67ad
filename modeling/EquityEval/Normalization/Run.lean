import EquityEval.Normalization.Verdict

/-!
# Runs of the normalization

A visit of a concept adds one resolution, the candidates of its rows, their observations and, unless it
is observed, a flag. What was added for a concept stays as it is while others are visited, as their
resolutions have other identifiers.
-/

namespace EquityEval.Normalization

open Workflow DecimalArithmetic Gregorian PointInTime
open Fundamentals (PeriodSpec UnitSpec ScopeSpec conceptText)
open Relational (orRaise orRaise_eq_ok bind_eq_ok)

/-! ### Runs that can fail -/

section Folds

variable {σ α ε : Type} {f : σ → α → Except ε σ} {P : List α → σ → Prop} {items : List α} {s s' : σ}

/-- What each visit keeps of what was visited holds in the end. -/
theorem foldlM_ok_keeps
    (hstep : ∀ visited a rest, items = visited ++ a :: rest → ∀ s s', P visited s → f s a = .ok s' → P (visited ++ [a]) s')
    (hs : P [] s) (h : items.foldlM f s = .ok s') : P items s' := by
  have hrun : ∀ rest visited s, items = visited ++ rest → P visited s → rest.foldlM f s = .ok s' → P items s' := by
    intro rest
    induction rest with
    | nil =>
      intro visited s hitems hs hfold
      rw [List.append_nil] at hitems
      cases hfold
      rwa [hitems]
    | cons a rest ih =>
      intro visited s hitems hs hfold
      rw [List.foldlM_cons] at hfold
      cases hvisit : f s a with
      | error e =>
        rw [hvisit] at hfold
        cases hfold
      | ok next =>
        rw [hvisit] at hfold
        exact ih (visited ++ [a]) next (by rw [hitems, List.append_assoc]; rfl) (hstep visited a rest hitems s next hs hvisit) hfold
  exact hrun items [] s rfl hs h

/-- Visits that succeed after what was visited succeed in a row. -/
theorem exists_foldlM_ok
    (hstep : ∀ visited a rest, items = visited ++ a :: rest → ∀ s, P visited s → ∃ s', f s a = .ok s' ∧ P (visited ++ [a]) s')
    (hs : P [] s) : ∃ s', items.foldlM f s = .ok s' ∧ P items s' := by
  have hrun : ∀ rest visited s, items = visited ++ rest → P visited s → ∃ s', rest.foldlM f s = .ok s' ∧ P items s' := by
    intro rest
    induction rest with
    | nil =>
      intro visited s hitems hs
      rw [List.append_nil] at hitems
      exact ⟨s, rfl, by rwa [hitems]⟩
    | cons a rest ih =>
      intro visited s hitems hs
      obtain ⟨next, hvisit, hnext⟩ := hstep visited a rest hitems s hs
      rw [List.foldlM_cons, hvisit]
      exact ih (visited ++ [a]) next (by rw [hitems, List.append_assoc]; rfl) hnext
  exact hrun items [] s rfl hs

end Folds

/-! ### Observations and flags -/

/-- Observations with one identifier are one. -/
def Coherent (observations : List Observation) : Prop := ∀ a ∈ observations, ∀ b ∈ observations, a.id = b.id → a = b

section Merge

variable {known more result : List Observation}

/-- A step of a merge: an observation that is known, or one that is new. -/
theorem mergeObservations_cons {o : Observation} :
    mergeObservations known (o :: more) =
      match known.find? fun previous => previous.id = o.id with
      | some previous => if previous = o then mergeObservations known more else none
      | none => mergeObservations (known ++ [o]) more := by
  rw [mergeObservations, List.foldlM_cons]
  cases known.find? fun previous => previous.id = o.id with
  | none => rfl
  | some previous =>
    dsimp only
    split <;> rfl

/-- A merge holds what was known and what is new. -/
theorem mem_mergeObservations (h : mergeObservations known more = some result) (o : Observation) :
    o ∈ result ↔ o ∈ known ∨ o ∈ more := by
  induction more generalizing known with
  | nil =>
    cases h
    simp
  | cons first more ih =>
    rw [mergeObservations_cons] at h
    cases hfind : known.find? fun previous => previous.id = first.id with
    | none =>
      simp only [hfind] at h
      rw [ih h, List.mem_append, List.mem_singleton, List.mem_cons, or_assoc]
    | some previous =>
      simp only [hfind] at h
      split at h
      next heq =>
        have hmem : first ∈ known := heq ▸ List.mem_of_find?_eq_some hfind
        rw [ih h, List.mem_cons]
        exact ⟨Or.imp_right .inr, fun ho => ho.elim .inl (Or.rec (fun heq => .inl (heq ▸ hmem)) .inr)⟩
      · cases h

/-- A merge of coherent observations is coherent. -/
theorem Coherent.merge (hknown : Coherent known) (h : mergeObservations known more = some result) : Coherent result := by
  induction more generalizing known with
  | nil =>
    cases h
    exact hknown
  | cons first more ih =>
    rw [mergeObservations_cons] at h
    cases hfind : known.find? fun previous => previous.id = first.id with
    | none =>
      simp only [hfind] at h
      have hfresh : ∀ o ∈ known, o.id ≠ first.id := by simpa using hfind
      refine ih ?_ h
      intro a ha b hb hid
      rcases List.mem_append.mp ha with ha | ha <;> rcases List.mem_append.mp hb with hb | hb
      · exact hknown a ha b hb hid
      · rw [List.mem_singleton.mp hb] at hid
        exact absurd hid (hfresh a ha)
      · rw [List.mem_singleton.mp ha] at hid
        exact absurd hid.symm (hfresh b hb)
      · rw [List.mem_singleton.mp ha, List.mem_singleton.mp hb]
    | some previous =>
      simp only [hfind] at h
      split at h
      · exact ih hknown h
      · cases h

/-- Observations that are coherent together can be merged. -/
theorem exists_mergeObservations (h : Coherent (known ++ more)) : ∃ result, mergeObservations known more = some result := by
  induction more generalizing known with
  | nil => exact ⟨known, rfl⟩
  | cons first more ih =>
    rw [mergeObservations_cons]
    cases hfind : known.find? fun previous => previous.id = first.id with
    | none => exact ih (by rwa [List.append_assoc])
    | some previous =>
      have hsame : previous = first :=
        h previous (List.mem_append_left _ (List.mem_of_find?_eq_some hfind)) first (by simp) (by simpa using List.find?_some hfind)
      simp only [if_pos hsame]
      refine ih fun a ha b hb => h a ?_ b ?_
      · exact (List.mem_append.mp ha).elim (List.mem_append_left _) fun ha => List.mem_append_right _ (.tail _ ha)
      · exact (List.mem_append.mp hb).elim (List.mem_append_left _) fun hb => List.mem_append_right _ (.tail _ hb)

end Merge

section Upsert

variable {α : Type} {key : α → Uuid} {known items : List α} {a b : α}

/-- What a dictionary holds after a record is one of its records or the new one. -/
theorem mem_of_mem_upsert (h : b ∈ upsert key known a) : b ∈ known ∨ b = a := by
  unfold upsert at h
  split at h
  · obtain ⟨i, hi, rfl⟩ := List.mem_map.mp h
    split
    · exact .inr rfl
    · exact .inl hi
  · simpa using h

/-- The identifiers of a dictionary after a record are the known ones and that of the record. -/
theorem exists_mem_upsert (h : b ∈ known ∨ b = a) : ∃ c ∈ upsert key known a, key c = key b := by
  unfold upsert
  split
  next hmem =>
    obtain ⟨i, hi, hkey⟩ : ∃ i ∈ known, key i = key b := by
      rcases h with h | rfl
      · exact ⟨b, h, rfl⟩
      · exact List.mem_map.mp hmem
    refine ⟨_, List.mem_map.mpr ⟨i, hi, rfl⟩, ?_⟩
    split
    next heq => rw [← heq, hkey]
    next => exact hkey
  · exact ⟨b, by simpa using h, rfl⟩

/-- What a dictionary holds is of the records. -/
theorem mem_of_mem_foldl_upsert (h : b ∈ items.foldl (upsert key) known) : b ∈ known ∨ b ∈ items := by
  induction items generalizing known with
  | nil => exact .inl h
  | cons a items ih =>
    rcases ih h with h | h
    · refine (mem_of_mem_upsert h).imp_right ?_
      rintro rfl
      exact List.mem_cons_self
    · exact .inr (.tail _ h)

/-- A dictionary has a record with the identifier of each. -/
theorem exists_mem_foldl_upsert (h : b ∈ known ∨ b ∈ items) : ∃ c ∈ items.foldl (upsert key) known, key c = key b := by
  induction items generalizing known b with
  | nil => exact ⟨b, h.resolve_right List.not_mem_nil, rfl⟩
  | cons a items ih =>
    rw [List.mem_cons, ← or_assoc] at h
    rcases h with h | h
    · obtain ⟨c, hc, hkey⟩ := exists_mem_upsert h
      obtain ⟨d, hd, hkey'⟩ := ih (.inl hc)
      exact ⟨d, hd, hkey'.trans hkey⟩
    · exact ih (.inr h)

end Upsert

/-! ### Questions -/

/-- The question that is put for a concept of a request: the request is covered, and one rule with tags matches. -/
structure Asks (env : Readers) (inputs : NormalizationInput) (cik : SourceValue) (request : CoverageRequest) (concept : Concept)
    (q : Question) : Prop where
  about : q.inputs = inputs ∧ q.cik = cik ∧ q.request = request ∧ q.concept = concept
  filing : inputs.filingOf request = some q.filing
  unit : unitSpec env (conceptUnit concept request.currency.unitKey) = some q.unit
  covered : request.coverageState = "covered"
  rule : inputs.rulesFor q.filing request concept = [q.rule]
  tagged : q.rule.qualifiedTags ≠ []

/-- The rows that are considered for a concept: those of its qualified and of its rejected tags that can be read. -/
def Question.considered (env : Readers) (q : Question) (facts : List (String × SourceValue)) : List Sighting :=
  (rowsOf facts q.filing q.rule.qualifiedTags ++ rowsOf facts q.filing q.rule.rejectedTags).filterMap (·.sighting env)

section Questions

variable {env : Readers} {inputs : NormalizationInput} {cik : SourceValue} {facts : List (String × SourceValue)}
  {request : CoverageRequest} {concept : Concept}

/-- There is one question at most. -/
theorem Asks.unique {q q' : Question} (h : Asks env inputs cik request concept q) (h' : Asks env inputs cik request concept q') :
    q = q' := by
  obtain ⟨⟨rfl, rfl, rfl, rfl⟩, hfiling, hunit, -, hrule, -⟩ := h
  obtain ⟨⟨hinputs, hcik, hrequest, hconcept⟩, hfiling', hunit', -, hrule', -⟩ := h'
  have hsame : q'.filing = q.filing := Option.some.inj (hfiling'.symm.trans hfiling)
  rw [hsame, hrule] at hrule'
  have heq : q'.rule = q.rule := (List.cons.inj hrule'.symm).1
  cases q
  cases q'
  simp_all

/-- A rule is found when the request is covered and the rule is the only one that matches and has tags. -/
theorem ruleOf_eq_ok {filing : FilingMetadata} {rule : MappingRule} : ruleOf inputs filing request concept = .ok rule ↔
    request.coverageState = "covered" ∧ inputs.rulesFor filing request concept = [rule] ∧ rule.qualifiedTags ≠ [] := by
  unfold ruleOf
  by_cases hcovered : request.coverageState = "covered"
  · rw [if_neg (not_not.mpr hcovered)]
    split
    next found hfound =>
      rw [hfound]
      by_cases htags : found.qualifiedTags = []
      · rw [if_pos htags]
        refine iff_of_false (fun h => by cases h) ?_
        rintro ⟨-, heq, hne⟩
        cases heq
        exact hne htags
      · rw [if_neg htags]
        constructor
        · rintro ⟨⟩
          exact ⟨hcovered, rfl, htags⟩
        · rintro ⟨-, heq, -⟩
          cases heq
          rfl
    next hnil => exact iff_of_false (fun h => by cases h) fun h => by rw [hnil] at h; cases h.2.1
    next hother _ => exact iff_of_false (fun h => by cases h) fun h => hother rule h.2.1
  · rw [if_pos hcovered]
    exact iff_of_false (fun h => by cases h) fun h => hcovered h.1

/-- A concept without a rule is not observed. -/
theorem status_of_ruleOf_eq_error {filing : FilingMetadata} {status : FactStatus} {reason : String}
    (h : ruleOf inputs filing request concept = .error (status, reason)) : status ≠ .observed := by
  unfold ruleOf at h
  split at h
  · cases h
    exact FactStatus.noConfusion
  · split at h
    · split at h <;> cases h
      exact FactStatus.noConfusion
    · cases h
      exact FactStatus.noConfusion
    · cases h
      exact FactStatus.noConfusion

/-- The rows of a rule can be listed when its tags have namespaces. -/
theorem ruleRows_isSome {filing : FilingMetadata} {rule : MappingRule} :
    (ruleRows facts filing rule).isSome = true ↔
      ∀ tag ∈ rule.qualifiedTags ++ rule.rejectedTags, (splitTag tag).isSome = true := by
  rw [ruleRows, Option.isSome_map]
  induction rule.qualifiedTags ++ rule.rejectedTags with
  | nil => simp
  | cons tag tags ih =>
    have htag : (tagRows facts filing.accession tag).isSome = (splitTag tag).isSome := Option.isSome_map
    rw [List.forall_mem_cons, ← htag, ← ih, List.mapM_cons]
    cases tagRows facts filing.accession tag with
    | none => simp
    | some rows => cases tags.mapM (tagRows facts filing.accession) <;> simp

end Questions

/-! ### Findings -/

/-- What is found of a concept. -/
structure Finding where
  unit : UnitSpec
  status : FactStatus
  selected : Option Uuid
  reason : Option String
  candidates : List Candidate
  observations : List Observation

/-- What a verdict of considered rows says. -/
def Question.finding (env : Readers) (q : Question) (considered : List Sighting) (v : Question.Verdict) : Finding :=
  ⟨q.unit, v.status, v.chosen.map fun s => (q.observation env s).id, v.reason, considered.map (q.candidate env v),
    considered.map (q.observation env)⟩

/-- The resolution of a finding. -/
def Finding.resolution (env : Readers) (request : CoverageRequest) (concept : Concept) (f : Finding) : Resolution :=
  resolutionOf env request concept f.unit f.status f.selected f.reason

/-- The finding is that of the question of the concept, or that there is no question. -/
inductive Finds (env : Readers) (inputs : NormalizationInput) (cik : SourceValue) (facts : List (String × SourceValue))
    (request : CoverageRequest) (concept : Concept) : Finding → Prop where
  | judged (q : Question) (v : Question.Verdict) (asks : Asks env inputs cik request concept q)
      (tags : ∀ tag ∈ q.rule.qualifiedTags ++ q.rule.rejectedTags, (splitTag tag).isSome = true)
      (judge : q.judge env (q.considered env facts) = some v) :
      Finds env inputs cik facts request concept (q.finding env (q.considered env facts) v)
  | gap (unit : UnitSpec) (status : FactStatus) (reason : String)
      (known : unitSpec env (conceptUnit concept request.currency.unitKey) = some unit)
      (none : ∀ q, ¬ Asks env inputs cik request concept q) (unobserved : status ≠ .observed) :
      Finds env inputs cik facts request concept ⟨unit, status, Option.none, some reason, [], []⟩

/-- A flag of a request has the identifier of its name. -/
def Named (env : Readers) (inputs : NormalizationInput) (flag : QualityFlag) : Prop :=
  ∃ request rule message, flag = flagOf env inputs request rule message flag.resolutionId

/-- What a finding adds. -/
structure Progress.Adds (env : Readers) (inputs : NormalizationInput) (request : CoverageRequest) (concept : Concept)
    (f : Finding) (p p' : Progress) : Prop where
  resolutions : p'.resolutions = p.resolutions ++ [f.resolution env request concept]
  candidates : p'.candidates = p.candidates ++ f.candidates
  observations : ∀ o, o ∈ p'.observations ↔ o ∈ p.observations ∨ o ∈ f.observations
  coherent : Coherent p.observations → Coherent p'.observations
  flags : ∃ more, p'.flags = p.flags ++ more ∧ resolutionFlag env inputs request concept f.unit f.status f.reason ⊆ more ∧
    ∀ flag ∈ more, Named env inputs flag

section Visits

variable {env : Readers} {inputs : NormalizationInput} {cik : SourceValue} {facts : List (String × SourceValue)}
  {filing : FilingMetadata} {request : CoverageRequest} {concept : Concept} {p p' : Progress}

/-- The flag of a resolution is named. -/
theorem named_resolutionFlag {unit : UnitSpec} {status : FactStatus} {reason : Option String} {flag : QualityFlag}
    (h : flag ∈ resolutionFlag env inputs request concept unit status reason) : Named env inputs flag := by
  unfold resolutionFlag at h
  split at h
  · cases h
  · cases List.mem_singleton.mp h
    exact ⟨request, _, _, rfl⟩

/-- The flags of rows that cannot be read are named. -/
theorem named_rowFlags {id : Uuid} {rows : List SourceRow} {flag : QualityFlag} (h : flag ∈ rowFlags env inputs request id rows) :
    Named env inputs flag := by
  obtain ⟨row, -, hrow⟩ := List.mem_filterMap.mp h
  split at hrow <;> cases hrow
  exact ⟨request, _, _, rfl⟩

/-- The flags of a request are named. -/
theorem named_requestFlags {flag : QualityFlag} (h : flag ∈ requestFlags env inputs request filing) : Named env inputs flag := by
  have hhistory : ∀ name completeness, flag ∈ historyFlag env inputs request filing name completeness → Named env inputs flag := by
    intro name completeness hflag
    unfold historyFlag at hflag
    split at hflag
    · cases hflag
    · cases List.mem_singleton.mp hflag
      exact ⟨request, _, _, rfl⟩
  rw [requestFlags, List.mem_append, List.mem_append] at h
  rcases h with (h | h) | h
  · exact hhistory _ _ h
  · exact hhistory _ _ h
  · split at h
    · cases List.mem_singleton.mp h
      exact ⟨request, _, _, rfl⟩
    · cases h

/-- A visit of a concept that succeeds adds a finding. -/
theorem adds_of_visitConcept (hfiling : inputs.filingOf request = some filing)
    (h : visitConcept env inputs cik facts filing request p concept = .ok p') :
    ∃ f, Finds env inputs cik facts request concept f ∧ p.Adds env inputs request concept f p' := by
  simp only [visitConcept, bind_eq_ok, orRaise_eq_ok] at h
  obtain ⟨unit, hunit, h⟩ := h
  split at h
  next status reason hrule =>
    cases h
    refine ⟨_, .gap unit status reason hunit (fun q hq => ?_) (status_of_ruleOf_eq_error hrule), rfl, (List.append_nil _).symm, ?_, id,
      _, rfl, List.Subset.refl _, fun flag => named_resolutionFlag⟩
    · have hsame : q.filing = filing := Option.some.inj (hq.filing.symm.trans hfiling)
      have hfound := ruleOf_eq_ok.mpr ⟨hq.covered, hq.rule, hq.tagged⟩
      rw [hsame, hrule] at hfound
      cases hfound
    · intro o
      simp [Progress.recordGap]
  next rule hrule =>
    obtain ⟨hcovered, hrules, htagged⟩ := ruleOf_eq_ok.mp hrule
    simp only [bind_eq_ok, orRaise_eq_ok] at h
    obtain ⟨rows, hrows, observations, hmerge, v, hjudge, h⟩ := h
    cases h
    let q : Question := ⟨inputs, cik, filing, request, concept, unit, rule⟩
    have hconsidered : rows.filterMap (·.sighting env) = q.considered env facts := by
      rw [ruleRows_eq hrows]
      rfl
    rw [hconsidered] at hmerge hjudge
    refine ⟨_, .judged q v ⟨⟨rfl, rfl, rfl, rfl⟩, hfiling, hunit, hcovered, hrules, htagged⟩ ?_ hjudge, rfl, ?_, ?_, ?_,
      rowFlags env inputs request (q.resolutionId env) rows ++ resolutionFlag env inputs request concept unit v.status v.reason,
      ?_, ?_, ?_⟩
    · exact ruleRows_isSome.mp (by rw [hrows]; rfl)
    · simp only [Progress.record, hconsidered]
      rfl
    · exact mem_mergeObservations hmerge
    · exact fun hcoherent => hcoherent.merge hmerge
    · exact List.append_assoc _ _ _
    · exact List.subset_append_right _ _
    · intro flag hflag
      exact (List.mem_append.mp hflag).elim named_rowFlags named_resolutionFlag

end Visits

/-! ### What a run has found -/

/-- What was found of a concept is there, and nothing else of it. -/
structure Progress.Holds (env : Readers) (inputs : NormalizationInput) (request : CoverageRequest) (concept : Concept) (f : Finding)
    (p : Progress) : Prop where
  resolution : f.resolution env request concept ∈ p.resolutions
  candidates : (p.candidates.filter fun c => c.resolutionId = (f.resolution env request concept).id) = f.candidates
  observations : f.observations ⊆ p.observations
  flags : resolutionFlag env inputs request concept f.unit f.status f.reason ⊆ p.flags

/-- The progress is what the visits of some concepts have found. -/
structure Progress.Follows (env : Readers) (inputs : NormalizationInput) (cik : SourceValue) (facts : List (String × SourceValue))
    (visited : List (CoverageRequest × Concept)) (p : Progress) : Prop where
  keys : (p.resolutions.map fun r => (r.coverageId, r.conceptStd)) = visited.map fun x => (x.1.id, x.2)
  found : ∀ x ∈ visited, ∃ f, Finds env inputs cik facts x.1 x.2 f ∧ p.Holds env inputs x.1 x.2 f
  candidates : ∀ c ∈ p.candidates, ∃ x ∈ visited, ∃ unit, c.resolutionId = env.evidenceId (.resolution x.1.id x.2 unit)
  observations : ∀ o ∈ p.observations, ∃ x ∈ visited, ∃ f, Finds env inputs cik facts x.1 x.2 f ∧ o ∈ f.observations
  coherent : Coherent p.observations
  named : ∀ flag ∈ p.flags, Named env inputs flag

section Follows

variable {env : Readers} {inputs : NormalizationInput} {cik : SourceValue} {facts : List (String × SourceValue)}
  {filing : FilingMetadata} {request : CoverageRequest} {concept : Concept} {visited : List (CoverageRequest × Concept)}
  {p p' : Progress} {f : Finding}

/-- The candidates of a finding are of its resolution. -/
theorem Finds.resolutionId_eq (h : Finds env inputs cik facts request concept f) {c : Candidate} (hc : c ∈ f.candidates) :
    c.resolutionId = (f.resolution env request concept).id := by
  cases h with
  | judged q v asks =>
    obtain ⟨s, -, rfl⟩ := List.mem_map.mp hc
    obtain ⟨⟨-, -, rfl, rfl⟩, -⟩ := asks
    rfl
  | gap => cases hc

/-- What was found of a concept stays while another one is visited. -/
theorem Progress.Holds.adds (hnames : Function.Injective env.evidenceId) {request' : CoverageRequest} {concept' : Concept} {f' : Finding}
    (h : p.Holds env inputs request concept f) (hne : (request.id, concept) ≠ (request'.id, concept'))
    (hfinds : Finds env inputs cik facts request' concept' f') (hadds : p.Adds env inputs request' concept' f' p') :
    p'.Holds env inputs request concept f := by
  refine ⟨?_, ?_, fun o ho => ?_, fun flag hflag => ?_⟩
  · rw [hadds.resolutions]
    exact List.mem_append_left _ h.resolution
  · have hothers : (f'.candidates.filter fun c => c.resolutionId = (f.resolution env request concept).id) = [] := by
      rw [List.filter_eq_nil_iff]
      intro c hc
      rw [hfinds.resolutionId_eq hc, decide_eq_true_eq]
      intro hid
      have hname := EvidenceName.resolution.inj (hnames hid)
      exact hne (Prod.ext hname.1.symm hname.2.1.symm)
    rw [hadds.candidates, List.filter_append, h.candidates, hothers, List.append_nil]
  · exact (hadds.observations o).mpr (.inl (h.observations ho))
  · obtain ⟨more, hmore, -⟩ := hadds.flags
    rw [hmore]
    exact List.mem_append_left _ (h.flags hflag)

/-- What a visit has found is there after it. -/
theorem Progress.Follows.holds_of_adds (hnames : Function.Injective env.evidenceId) (h : p.Follows env inputs cik facts visited)
    (hnew : (request.id, concept) ∉ visited.map fun x => (x.1.id, x.2)) (hfinds : Finds env inputs cik facts request concept f)
    (hadds : p.Adds env inputs request concept f p') : p'.Holds env inputs request concept f := by
  refine ⟨?_, ?_, fun o ho => (hadds.observations o).mpr (.inr ho), fun flag hflag => ?_⟩
  · rw [hadds.resolutions]
    exact List.mem_append_right _ List.mem_cons_self
  · have hbefore : (p.candidates.filter fun c => c.resolutionId = (f.resolution env request concept).id) = [] := by
      rw [List.filter_eq_nil_iff]
      intro c hc
      obtain ⟨x, hx, unit, hid⟩ := h.candidates c hc
      rw [hid, decide_eq_true_eq]
      intro hsame
      have hname := EvidenceName.resolution.inj (hnames hsame)
      exact hnew (List.mem_map.mpr ⟨x, hx, Prod.ext hname.1 hname.2.1⟩)
    rw [hadds.candidates, List.filter_append, hbefore, List.nil_append, List.filter_eq_self]
    intro c hc
    exact decide_eq_true (hfinds.resolutionId_eq hc)
  · obtain ⟨more, hmore, hsub, -⟩ := hadds.flags
    rw [hmore]
    exact List.mem_append_right _ (hsub hflag)

/-- A visit of a concept that was not visited is one more. -/
theorem Progress.Follows.visit (hnames : Function.Injective env.evidenceId) (h : p.Follows env inputs cik facts visited)
    (hnew : (request.id, concept) ∉ visited.map fun x => (x.1.id, x.2)) (hfinds : Finds env inputs cik facts request concept f)
    (hadds : p.Adds env inputs request concept f p') : p'.Follows env inputs cik facts (visited ++ [(request, concept)]) where
  keys := by
    rw [hadds.resolutions, List.map_append, List.map_append, h.keys]
    rfl
  found := by
    intro x hx
    rcases List.mem_append.mp hx with hx | hx
    · obtain ⟨found, hfound, hholds⟩ := h.found x hx
      exact ⟨found, hfound, hholds.adds hnames (fun heq => hnew (List.mem_map.mpr ⟨x, hx, heq⟩)) hfinds hadds⟩
    · rw [List.mem_singleton.mp hx]
      exact ⟨f, hfinds, h.holds_of_adds hnames hnew hfinds hadds⟩
  candidates := by
    intro c hc
    rw [hadds.candidates] at hc
    rcases List.mem_append.mp hc with hc | hc
    · obtain ⟨x, hx, hid⟩ := h.candidates c hc
      exact ⟨x, List.mem_append_left _ hx, hid⟩
    · exact ⟨_, List.mem_append_right _ List.mem_cons_self, _, hfinds.resolutionId_eq hc⟩
  observations := by
    intro o ho
    rcases (hadds.observations o).mp ho with ho | ho
    · obtain ⟨x, hx, hfound⟩ := h.observations o ho
      exact ⟨x, List.mem_append_left _ hx, hfound⟩
    · exact ⟨_, List.mem_append_right _ List.mem_cons_self, f, hfinds, ho⟩
  coherent := hadds.coherent h.coherent
  named := by
    intro flag hflag
    obtain ⟨more, hmore, -, hnamed⟩ := hadds.flags
    rw [hmore] at hflag
    exact (List.mem_append.mp hflag).elim (h.named flag) (hnamed flag)

/-- What a request adds of its own changes nothing that was found. -/
theorem Progress.Follows.open (h : p.Follows env inputs cik facts visited) (filing : FilingMetadata) (request : CoverageRequest) :
    Progress.Follows env inputs cik facts visited
      { p with
        coverage := p.coverage ++ [coverageOf request filing]
        flags := p.flags ++ requestFlags env inputs request filing } where
  keys := h.keys
  found := by
    intro x hx
    obtain ⟨f, hfinds, hholds⟩ := h.found x hx
    exact ⟨f, hfinds, hholds.resolution, hholds.candidates, hholds.observations, fun flag hflag =>
      List.mem_append_left _ (hholds.flags hflag)⟩
  candidates := h.candidates
  observations := h.observations
  coherent := h.coherent
  named := fun flag hflag => (List.mem_append.mp hflag).elim (h.named flag) named_requestFlags

end Follows

end EquityEval.Normalization
