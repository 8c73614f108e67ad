import EquityEval.Normalization.Run
import Mathlib.Data.Nat.Digits.Lemmas
import Mathlib.Data.Nat.Pairing

/-!
# The selection law

A bundle has one resolution for each concept of each request. It is observed exactly when the reported
rows settle the value, which is then that of a row whose candidate alone is selected; otherwise nothing
is selected and a flag says so. The law holds exactly when what is asked can be answered: in particular
no rule prefers a tag other than the only one that is reported.
-/

namespace EquityEval.Normalization

open Workflow DecimalArithmetic Gregorian PointInTime
open Fundamentals (PeriodSpec UnitSpec ScopeSpec conceptText)
open Relational (orRaise orRaise_eq_ok bind_eq_ok)
open Text (Tree)

/-! ### The law -/

section Law

variable (env : Readers) (inputs : NormalizationInput) (cik : SourceValue) (facts : List (String × SourceValue))

/-- The reported rows settle the value of a concept of a request. -/
def Observable (request : CoverageRequest) (concept : Concept) : Prop :=
  ∃ q, Asks env inputs cik request concept q ∧ q.Selects env (q.reported env facts)

/-- A resolution is of a concept of a request. -/
def Resolution.Of (request : CoverageRequest) (concept : Concept) (r : Resolution) : Prop :=
  r.coverageId = request.id ∧ r.conceptStd = concept

/-- A resolution has the value of a row: the row's observation is there, its number is that of the row's token, and it is
the one candidate that is selected. -/
structure Reports (bundle : NormalizationBundle) (r : Resolution) (q : Question) (s : Sighting) : Prop where
  selected : r.selectedObservationId = some (q.observation env s).id
  observation : q.observation env s ∈ bundle.observations
  value : ∃ n d, s.fields.lookup "val" = some (.scalar (.number n)) ∧ n.value = .finite d ∧
    (q.observation env s).numericValue = some d
  candidate : ∃ c, (bundle.candidates.filter fun c => c.resolutionId = r.id ∧ c.disposition = .selected) = [c] ∧
    c.observationId = (q.observation env s).id

/-- A resolution has no value: none of its candidates is selected, and an error flag is of it. -/
structure Unreported (bundle : NormalizationBundle) (r : Resolution) : Prop where
  selected : r.selectedObservationId = none
  candidates : ∀ c ∈ bundle.candidates, c.resolutionId = r.id → c.disposition ≠ .selected
  flag : ∃ flag ∈ bundle.qualityFlags, flag.resolutionId = some r.id ∧ flag.severity = "error"

/-- One resolution is of each concept of each request, observed exactly when the reported rows settle its value. -/
structure SelectionLaw (bundle : NormalizationBundle) : Prop where
  resolutions : (bundle.resolutions.map fun r => (r.coverageId, r.conceptStd)) =
    inputs.requests.flatMap fun request => request.concepts.map fun concept => (request.id, concept)
  once : (bundle.resolutions.map fun r => (r.coverageId, r.conceptStd)).Nodup
  observed : ∀ request ∈ inputs.requests, ∀ concept ∈ request.concepts, ∀ r ∈ bundle.resolutions, r.Of request concept →
    (r.status = .observed ↔ Observable env inputs cik facts request concept)
  reported : ∀ request ∈ inputs.requests, ∀ concept ∈ request.concepts, ∀ r ∈ bundle.resolutions, r.Of request concept →
    r.status = .observed → ∃ q s, Asks env inputs cik request concept q ∧ s ∈ q.representatives (q.reported env facts) ∧
      Reports env bundle r q s
  unreported : ∀ request ∈ inputs.requests, ∀ concept ∈ request.concepts, ∀ r ∈ bundle.resolutions, r.Of request concept →
    r.status ≠ .observed → Unreported bundle r

/-- An observation of a row that is considered for some concept. -/
def Interpretation (o : Observation) : Prop :=
  ∃ request ∈ inputs.requests, ∃ concept ∈ request.concepts, ∃ q, Asks env inputs cik request concept q ∧
    ∃ s ∈ q.considered env facts, o = q.observation env s

/-- What is asked can be answered: the units are supported, the tags have namespaces, no row is interpreted in two ways, and
the preference of each rule is one that the choice can follow. -/
structure Answerable : Prop where
  units : ∀ request ∈ inputs.requests, ∀ concept ∈ request.concepts,
    (unitSpec env (conceptUnit concept request.currency.unitKey)).isSome = true
  tags : ∀ request ∈ inputs.requests, ∀ concept ∈ request.concepts, ∀ q, Asks env inputs cik request concept q →
    ∀ tag ∈ q.rule.qualifiedTags ++ q.rule.rejectedTags, (splitTag tag).isSome = true
  interpretations : ∀ a b, Interpretation env inputs cik facts a → Interpretation env inputs cik facts b → a.id = b.id → a = b
  preference : ∀ request ∈ inputs.requests, ∀ concept ∈ request.concepts, ∀ q, Asks env inputs cik request concept q →
    q.PreferenceApplies env (q.reported env facts)

/-- The body is a document of the issuer, with these facts. -/
def Documents (body : List UInt8) : Prop :=
  ∃ document, parseCompanyfacts env body = some document ∧ document.lookup "cik" = some cik ∧
    canonicalCik cik = some inputs.cik ∧ (document.lookup "facts").bind members? = some facts

end Law

/-! ### The selected candidate -/

section Selected

variable {env : Readers} {inputs : NormalizationInput} {cik : SourceValue} {facts : List (String × SourceValue)}
  {request : CoverageRequest} {concept : Concept} {q : Question}

/-- The facts of a document have no double keys. -/
theorem distinct_of_documents {body : List UInt8} (h : Documents env inputs cik facts body) :
    (Tree.object facts : SourceValue).Distinct := by
  obtain ⟨document, hparse, -, -, hfacts⟩ := h
  simp only [parseCompanyfacts, Option.bind_eq_bind, Option.bind_eq_some_iff] at hparse
  obtain ⟨raw, -, parsed, htraverse, hmembers⟩ := hparse
  have hdistinct : parsed.Distinct := by
    refine Tree.distinct_of_traverse (fun members checked hcheck => ?_) htraverse
    unfold uniqueKeys at hcheck
    split at hcheck
    next hnodup =>
      cases hcheck
      exact ⟨hnodup, fun _ hm => hm⟩
    · cases hcheck
  rw [members?_eq_some.mp hmembers, Tree.distinct_object] at hdistinct
  obtain ⟨value, hvalue, hobject⟩ := Option.bind_eq_some_iff.mp hfacts
  obtain ⟨before, after, hdocument, -⟩ := List.lookup_eq_some_iff.mp hvalue
  have hmem := hdistinct.2 ("facts", value) (by simp [hdocument])
  rwa [members?_eq_some.mp hobject] at hmem

/-- The considered rows stand in different places. -/
theorem considered_pairwise (hfacts : (Tree.object facts : SourceValue).Distinct)
    (htags : (q.rule.qualifiedTags ++ q.rule.rejectedTags).Nodup) :
    (q.considered env facts).Pairwise fun a b => a.place ≠ b.place := by
  have hrows : (rowsOf facts q.filing (q.rule.qualifiedTags ++ q.rule.rejectedTags)).Pairwise fun a b => a.place ≠ b.place :=
    rowsOf_pairwise hfacts htags
  rw [rowsOf, List.flatMap_append] at hrows
  rw [Question.considered, List.pairwise_filterMap]
  refine hrows.imp fun hne a ha b hb => ?_
  rw [(sighting_eq_some ha).1, (sighting_eq_some hb).1]
  exact hne

/-- Rows that stand in different places are told apart by them. -/
theorem filter_place {rows : List Sighting} (h : rows.Pairwise fun a b => a.place ≠ b.place) {s : Sighting} (hs : s ∈ rows) :
    (rows.filter fun a => a.place = s.place) = [s] := by
  induction rows with
  | nil => cases hs
  | cons first rows ih =>
    obtain ⟨hfirst, hrest⟩ := List.pairwise_cons.mp h
    rcases List.mem_cons.mp hs with rfl | hs
    · have hnone : (rows.filter fun a => a.place = s.place) = [] := by
        rw [List.filter_eq_nil_iff]
        intro a ha
        rw [decide_eq_true_eq]
        exact fun heq => hfirst a ha heq.symm
      rw [List.filter_cons_of_pos (by simp), hnone]
    · rw [List.filter_cons_of_neg (by rw [decide_eq_true_eq]; exact hfirst s hs), ih hrest hs]

/-- A candidate is selected when its row is. -/
theorem disposition_eq_selected {v : Question.Verdict} {s : Sighting} :
    (q.candidate env v s).disposition = .selected ↔ q.Selected env v s := by
  change (if q.Selected env v s then Disposition.selected
    else if q.rejection env s = none ∧ v.status = .ambiguous then .conflicting else .rejected) = .selected ↔ _
  by_cases h : q.Selected env v s
  · exact iff_of_true (if_pos h) h
  · rw [if_neg h]
    refine iff_of_false ?_ h
    split <;> exact Disposition.noConfusion

/-- Without a chosen row no candidate is selected. -/
theorem disposition_ne_selected {v : Question.Verdict} (h : v.chosen = none) (s : Sighting) :
    (q.candidate env v s).disposition ≠ .selected := by
  rw [ne_eq, disposition_eq_selected]
  rintro ⟨chosen, hchosen, -⟩
  rw [h] at hchosen
  cases hchosen

/-- Where a row is chosen, its candidate alone is selected. -/
theorem filter_selected (hnames : Function.Injective env.evidenceId) (hfacts : (Tree.object facts : SourceValue).Distinct)
    (htags : (q.rule.qualifiedTags ++ q.rule.rejectedTags).Nodup)
    (hcoherent : Coherent ((q.considered env facts).map (q.observation env))) {v : Question.Verdict} {s : Sighting}
    (hchosen : v.chosen = some s) (hs : s ∈ q.considered env facts) :
    (((q.considered env facts).map (q.candidate env v)).filter fun c => c.disposition = .selected) = [q.candidate env v s] := by
  have hselected : ∀ a ∈ q.considered env facts, (q.Selected env v a ↔ a.place = s.place) := by
    intro a ha
    obtain ⟨-, ⟨hname, -⟩, hunit⟩ := Question.mem_considered rfl ha
    obtain ⟨-, ⟨hname', -⟩, hunit'⟩ := Question.mem_considered rfl hs
    constructor
    · rintro ⟨chosen, hmem, hid⟩
      rw [hchosen] at hmem
      cases hmem
      exact place_of_observation_eq hnames ⟨hname, hunit⟩ ⟨hname', hunit'⟩
        (hcoherent _ (List.mem_map_of_mem ha) _ (List.mem_map_of_mem hs) hid)
    · intro hplace
      have hmem : a ∈ (q.considered env facts).filter fun a => a.place = s.place :=
        List.mem_filter.mpr ⟨ha, decide_eq_true hplace⟩
      rw [filter_place (considered_pairwise hfacts htags) hs] at hmem
      exact ⟨s, hchosen, by rw [List.mem_singleton.mp hmem]⟩
  rw [List.filter_map, List.filter_congr (fun a ha => ?_), filter_place (considered_pairwise hfacts htags) hs, List.map_singleton]
  exact decide_eq_decide.mpr (disposition_eq_selected.trans (hselected a ha))

end Selected

/-! ### The bundle of a run -/

section Bundle

variable {env : Readers} {inputs : NormalizationInput} {cik : SourceValue} {facts : List (String × SourceValue)} {finish : Finish}
  {request : CoverageRequest} {concept : Concept} {p : Progress} {f : Finding} {visited : List (CoverageRequest × Concept)}

/-- A bundle has a flag of a resolution for each flag of a run. -/
theorem exists_flag (hnames : Function.Injective env.evidenceId) (hnamed : ∀ flag ∈ p.flags, Named env inputs flag) {flag : QualityFlag}
    (hflag : flag ∈ p.flags) :
    ∃ kept ∈ (bundleOf finish inputs p).qualityFlags, kept.resolutionId = flag.resolutionId ∧ kept.severity = "error" := by
  obtain ⟨kept, hkept, hid⟩ : ∃ kept ∈ p.flags.foldl (upsert (·.id)) [], kept.id = flag.id := exists_mem_foldl_upsert (.inr hflag)
  refine ⟨kept, hkept, ?_⟩
  have hmem : kept ∈ p.flags := (mem_of_mem_foldl_upsert hkept).resolve_left List.not_mem_nil
  obtain ⟨request, rule, message, hname⟩ := hnamed flag hflag
  obtain ⟨request', rule', message', hname'⟩ := hnamed kept hmem
  rw [hname, hname'] at hid
  have hsame := EvidenceName.flag.inj (hnames hid)
  refine ⟨hsame.2.1, ?_⟩
  rw [hname']
  rfl

/-- A finding that is not observed is reported as such. -/
theorem unreported_of_holds (hnames : Function.Injective env.evidenceId) (hnamed : ∀ flag ∈ p.flags, Named env inputs flag)
    (hholds : p.Holds env inputs request concept f) (hstatus : f.status ≠ .observed) (hselected : f.selected = none)
    (hcandidates : ∀ c ∈ f.candidates, c.disposition ≠ .selected) :
    Unreported (bundleOf finish inputs p) (f.resolution env request concept) where
  selected := hselected
  candidates := by
    intro c hc hid
    have hmem : c ∈ p.candidates.filter fun c => c.resolutionId = (f.resolution env request concept).id :=
      List.mem_filter.mpr ⟨hc, decide_eq_true hid⟩
    rw [hholds.candidates] at hmem
    exact hcandidates c hmem
  flag := by
    have hmem : flagOf env inputs request (f.reason.getD "") (conceptText concept ++ ": " ++ f.reason.getD "")
        (some (f.resolution env request concept).id) ∈ p.flags := by
      refine hholds.flags ?_
      rw [resolutionFlag, if_neg hstatus]
      exact List.mem_cons_self
    exact exists_flag hnames hnamed hmem

/-- The rows that stand for all are among them. -/
theorem mem_of_mem_representatives {q : Question} {rows : List Sighting} {s : Sighting} (h : s ∈ q.representatives rows) : s ∈ rows := by
  unfold Question.representatives at h
  split at h
  · exact (List.mem_filter.mp h).1
  · exact h

/-- An observed finding is reported with the row that was chosen. -/
theorem reports_of_holds (hnames : Function.Injective env.evidenceId) (hfacts : (Tree.object facts : SourceValue).Distinct)
    (hcoherent : Coherent p.observations) {q : Question} (htags : (q.rule.qualifiedTags ++ q.rule.rejectedTags).Nodup)
    {v : Question.Verdict} {s : Sighting} (hselects : q.Selects env (q.reported env facts))
    (hs : s ∈ q.representatives (q.reported env facts)) (hchosen : v.chosen = some s)
    (hholds : p.Holds env inputs request concept (q.finding env (q.considered env facts) v)) :
    Reports env (bundleOf finish inputs p) ((q.finding env (q.considered env facts) v).resolution env request concept) q s := by
  have hreported := mem_of_mem_representatives hs
  have hconsidered : s ∈ q.considered env facts := ((Question.mem_reported htags rfl).mp hreported).1
  refine ⟨?_, ?_, ?_, ?_⟩
  · change v.chosen.map (fun s => (q.observation env s).id) = _
    rw [hchosen]
    rfl
  · exact (List.perm_insertionSort _ _).mem_iff.mpr (hholds.observations (List.mem_map_of_mem hconsidered))
  · have hfinite := hselects.1.finite s hreported
    cases hvalue : numericOf env s.fields with
    | finite d token =>
      obtain ⟨n, hlookup, hd, -⟩ := (numericOf_finite env).mp hvalue
      exact ⟨n, d, hlookup, hd, by rw [Question.observation, hvalue]; rfl⟩
    | unavailable lexical reason =>
      rw [hvalue] at hfinite
      cases hfinite
  · refine ⟨q.candidate env v s, ?_, rfl⟩
    have hsplit : ((bundleOf finish inputs p).candidates.filter fun c => c.resolutionId =
        ((q.finding env (q.considered env facts) v).resolution env request concept).id ∧ c.disposition = .selected) =
        (p.candidates.filter fun c => c.resolutionId =
          ((q.finding env (q.considered env facts) v).resolution env request concept).id).filter fun c => c.disposition = .selected := by
      rw [List.filter_filter]
      refine List.filter_congr fun c _ => ?_
      rw [Bool.decide_and, Bool.and_comm]
    rw [hsplit, hholds.candidates]
    exact filter_selected hnames hfacts htags (fun a ha b hb => hcoherent a (hholds.observations ha) b (hholds.observations hb))
      hchosen hconsidered

/-- What a finding says when the preference of the rule applies. -/
theorem law_of_finds (hnames : Function.Injective env.evidenceId) (hfacts : (Tree.object facts : SourceValue).Distinct)
    (hp : p.Follows env inputs cik facts visited) (hfinds : Finds env inputs cik facts request concept f)
    (htags : ∀ q, Asks env inputs cik request concept q → (q.rule.qualifiedTags ++ q.rule.rejectedTags).Nodup)
    (happlies : ∀ q, Asks env inputs cik request concept q → q.PreferenceApplies env (q.reported env facts))
    (hholds : p.Holds env inputs request concept f) :
    (f.status = .observed ∧ Observable env inputs cik facts request concept ∧
        ∃ q s, Asks env inputs cik request concept q ∧ s ∈ q.representatives (q.reported env facts) ∧
          Reports env (bundleOf finish inputs p) (f.resolution env request concept) q s) ∨
      (f.status ≠ .observed ∧ ¬ Observable env inputs cik facts request concept ∧
        Unreported (bundleOf finish inputs p) (f.resolution env request concept)) := by
  cases hfinds with
  | judged q v asks tags judge =>
    obtain ⟨v', hv', hfits⟩ := Question.judge_fits (htags q asks) rfl (happlies q asks)
    obtain rfl : v = v' := Option.some.inj (judge.symm.trans hv')
    rcases hfits with ⟨hselects, s, hs, rfl⟩ | ⟨hselects, hstatus, hchosen, -⟩
    · exact .inl ⟨rfl, ⟨q, asks, hselects⟩, q, s, asks, hs, reports_of_holds hnames hfacts hp.coherent (htags q asks) hselects hs rfl hholds⟩
    · refine .inr ⟨hstatus, ?_, unreported_of_holds hnames hp.named hholds hstatus ?_ ?_⟩
      · rintro ⟨q', asks', hselects'⟩
        obtain rfl := asks.unique asks'
        exact hselects hselects'
      · change v.chosen.map _ = none
        rw [hchosen]
        rfl
      · intro c hc
        obtain ⟨s, -, rfl⟩ := List.mem_map.mp hc
        exact disposition_ne_selected hchosen s
  | gap unit status reason known none unobserved =>
    refine .inr ⟨unobserved, ?_, unreported_of_holds hnames hp.named hholds unobserved rfl fun c hc => absurd hc List.not_mem_nil⟩
    rintro ⟨q, asks, -⟩
    exact none q asks

end Bundle

/-! ### Whole runs -/

/-- The concepts of the requests. -/
def askedOf (requests : List CoverageRequest) : List (CoverageRequest × Concept) :=
  requests.flatMap fun request => request.concepts.map fun concept => (request, concept)

section Runs

variable {env : Readers} {inputs : NormalizationInput} {cik : SourceValue} {facts : List (String × SourceValue)} {body : List UInt8}
  {filing : FilingMetadata} {request : CoverageRequest} {concept : Concept} {p p' : Progress} {f : Finding}
  {visited : List (CoverageRequest × Concept)}

/-- A concept of a request is asked. -/
theorem mem_askedOf {requests : List CoverageRequest} {x : CoverageRequest × Concept} :
    x ∈ askedOf requests ↔ x.1 ∈ requests ∧ x.2 ∈ x.1.concepts := by
  rw [askedOf, List.mem_flatMap]
  constructor
  · rintro ⟨request, hrequest, hx⟩
    obtain ⟨concept, hconcept, rfl⟩ := List.mem_map.mp hx
    exact ⟨hrequest, hconcept⟩
  · rintro ⟨hrequest, hconcept⟩
    exact ⟨x.1, hrequest, List.mem_map.mpr ⟨x.2, hconcept, rfl⟩⟩

/-- The keys of what is asked. -/
theorem keys_askedOf (requests : List CoverageRequest) : ((askedOf requests).map fun x => (x.1.id, x.2)) =
    requests.flatMap fun request => request.concepts.map fun concept => (request.id, concept) := by
  simp only [askedOf, List.map_flatMap, List.map_map]
  rfl

/-- Nothing is asked twice. -/
theorem nodup_keys (h : inputs.Valid env body) : ((askedOf inputs.requests).map fun x => (x.1.id, x.2)).Nodup := by
  obtain ⟨-, -, -, -, -, ⟨hids, hrequests⟩, -⟩ := h
  rw [keys_askedOf, List.nodup_flatMap]
  refine ⟨fun request hrequest => ?_, ?_⟩
  · exact (hrequests request hrequest).2.1.2.map fun _ _ h => (Prod.mk.inj h).2
  · rw [List.Nodup, List.pairwise_map] at hids
    refine hids.imp fun hne x hx hy => hne ?_
    obtain ⟨_, -, rfl⟩ := List.mem_map.mp hx
    obtain ⟨_, -, hkey⟩ := List.mem_map.mp hy
    exact (Prod.mk.inj hkey).1.symm

/-- The rule of a question is one of the rules. -/
theorem Asks.rule_mem {q : Question} (h : Asks env inputs cik request concept q) : q.rule ∈ inputs.rules := by
  have hmem : q.rule ∈ inputs.rulesFor q.filing request concept := by rw [h.rule]; exact List.mem_cons_self
  exact (List.mem_filter.mp hmem).1

/-- What a finding observes is an interpretation of a row. -/
theorem interpretation_of_finds (hrequest : request ∈ inputs.requests) (hconcept : concept ∈ request.concepts)
    (hfinds : Finds env inputs cik facts request concept f) {o : Observation} (ho : o ∈ f.observations) :
    Interpretation env inputs cik facts o := by
  cases hfinds with
  | judged q v asks =>
    obtain ⟨s, hs, rfl⟩ := List.mem_map.mp ho
    exact ⟨request, hrequest, concept, hconcept, q, asks, s, hs, rfl⟩
  | gap => cases ho

/-- A visit of a request visits its concepts. -/
theorem Progress.Follows.visitRequest (hnames : Function.Injective env.evidenceId) (h : p.Follows env inputs cik facts visited)
    (hfresh : ((visited ++ request.concepts.map fun concept => (request, concept)).map fun x => (x.1.id, x.2)).Nodup)
    (hvisit : Normalization.visitRequest env inputs cik facts p request = .ok p') :
    p'.Follows env inputs cik facts (visited ++ request.concepts.map fun concept => (request, concept)) := by
  simp only [Normalization.visitRequest, bind_eq_ok, orRaise_eq_ok] at hvisit
  obtain ⟨filing, hfiling, hfold⟩ := hvisit
  refine foldlM_ok_keeps (P := fun done p => p.Follows env inputs cik facts (visited ++ done.map fun concept => (request, concept)))
    (fun done concept rest hconcepts p p' hp hvisit => ?_) ?_ hfold
  · obtain ⟨f, hfinds, hadds⟩ := adds_of_visitConcept hfiling hvisit
    have hnew : (request.id, concept) ∉ (visited ++ done.map fun concept => (request, concept)).map fun x => (x.1.id, x.2) := by
      rw [List.map_append, hconcepts, List.map_append, List.map_append, ← List.append_assoc, List.nodup_append] at hfresh
      rw [List.map_append]
      exact fun hmem => hfresh.2.2 _ hmem _ List.mem_cons_self rfl
    have hnext := hp.visit hnames hnew hfinds hadds
    rwa [List.append_assoc, ← List.map_singleton (f := fun concept => (request, concept)), ← List.map_append] at hnext
  · rw [List.map_nil, List.append_nil]
    exact h.open filing request

/-- Nothing has been found before the first visit. -/
theorem follows_nil (periods : List PeriodSpec) (units : List UnitSpec) :
    Progress.Follows env inputs cik facts [] { periods := periods, units := units } where
  keys := rfl
  found := fun _ hx => absurd hx List.not_mem_nil
  candidates := fun _ hc => absurd hc List.not_mem_nil
  observations := fun _ ho => absurd ho List.not_mem_nil
  coherent := fun _ ha => absurd ha List.not_mem_nil
  named := fun _ hflag => absurd hflag List.not_mem_nil

/-- What is asked of a request that comes after others was not asked by them. -/
theorem fresh_of_requests (h : inputs.Valid env body) {before after : List CoverageRequest}
    (hrequests : inputs.requests = before ++ request :: after) :
    ((askedOf before ++ request.concepts.map fun concept => (request, concept)).map fun x => (x.1.id, x.2)).Nodup := by
  have hnodup := nodup_keys h
  rw [hrequests, askedOf, List.flatMap_append, List.flatMap_cons, ← List.append_assoc, List.map_append] at hnodup
  exact (List.nodup_append.mp hnodup).1

/-- A run that succeeds has visited what is asked. -/
theorem follows_of_run (hnames : Function.Injective env.evidenceId) (hvalid : inputs.Valid env body)
    (hp : p.Follows env inputs cik facts []) (h : inputs.requests.foldlM (visitRequest env inputs cik facts) p = .ok p') :
    p'.Follows env inputs cik facts (askedOf inputs.requests) := by
  refine foldlM_ok_keeps (P := fun done p => p.Follows env inputs cik facts (askedOf done)) ?_ hp h
  intro done request rest hrequests p p' hp hvisit
  have hnext := hp.visitRequest hnames (fresh_of_requests hvalid hrequests) hvisit
  rw [askedOf, List.flatMap_append, List.flatMap_cons, List.flatMap_nil, List.append_nil]
  exact hnext

/-- A concept that can be answered is visited. -/
theorem exists_visitConcept (htags : ∀ rule ∈ inputs.rules, (rule.qualifiedTags ++ rule.rejectedTags).Nodup)
    (hanswer : Answerable env inputs cik facts) (hrequest : request ∈ inputs.requests) (hconcept : concept ∈ request.concepts)
    (hfiling : inputs.filingOf request = some filing) (hobservations : ∀ o ∈ p.observations, Interpretation env inputs cik facts o) :
    ∃ p', visitConcept env inputs cik facts filing request p concept = .ok p' := by
  obtain ⟨unit, hunit⟩ := Option.isSome_iff_exists.mp (hanswer.units request hrequest concept hconcept)
  cases hrule : ruleOf inputs filing request concept with
  | error gap =>
    refine ⟨p.recordGap env inputs request concept unit gap.1 gap.2, ?_⟩
    simp only [visitConcept, bind_eq_ok, orRaise_eq_ok]
    refine ⟨unit, hunit, ?_⟩
    rw [hrule]
    rfl
  | ok rule =>
    obtain ⟨hcovered, hrules, htagged⟩ := ruleOf_eq_ok.mp hrule
    let q : Question := ⟨inputs, cik, filing, request, concept, unit, rule⟩
    have asks : Asks env inputs cik request concept q := ⟨⟨rfl, rfl, rfl, rfl⟩, hfiling, hunit, hcovered, hrules, htagged⟩
    obtain ⟨rows, hrows⟩ : ∃ rows, ruleRows facts filing rule = some rows :=
      Option.isSome_iff_exists.mp (ruleRows_isSome.mpr (hanswer.tags request hrequest concept hconcept q asks))
    have hconsidered : rows.filterMap (·.sighting env) = q.considered env facts := by
      rw [ruleRows_eq hrows]
      rfl
    have hinterpretation : ∀ o ∈ p.observations ++ (q.considered env facts).map (q.observation env),
        Interpretation env inputs cik facts o := by
      intro o ho
      rcases List.mem_append.mp ho with ho | ho
      · exact hobservations o ho
      · obtain ⟨s, hs, rfl⟩ := List.mem_map.mp ho
        exact ⟨request, hrequest, concept, hconcept, q, asks, s, hs, rfl⟩
    obtain ⟨observations, hmerge⟩ := exists_mergeObservations fun a ha b hb =>
      hanswer.interpretations a b (hinterpretation a ha) (hinterpretation b hb)
    obtain ⟨v, hjudge, -⟩ := Question.judge_fits (htags q.rule asks.rule_mem) hconsidered
      (hanswer.preference request hrequest concept hconcept q asks)
    refine ⟨p.record env inputs q rows observations v, ?_⟩
    simp only [visitConcept, bind_eq_ok, orRaise_eq_ok]
    refine ⟨unit, hunit, ?_⟩
    rw [hrule]
    simp only [bind_eq_ok, orRaise_eq_ok]
    rw [← hconsidered] at hmerge
    exact ⟨rows, hrows, observations, hmerge, v, hjudge, rfl⟩

/-- A valid request has a filing. -/
theorem exists_filingOf (hvalid : inputs.Valid env body) (hrequest : request ∈ inputs.requests) :
    ∃ filing, inputs.filingOf request = some filing := by
  obtain ⟨-, -, -, -, -, ⟨-, hrequests⟩, -⟩ := hvalid
  obtain ⟨filing, hfiling, hid⟩ := List.mem_map.mp (hrequests request hrequest).1.1
  refine Option.isSome_iff_exists.mp ?_
  rw [NormalizationInput.filingOf, List.find?_isSome]
  exact ⟨filing, hfiling, decide_eq_true hid⟩

/-- A request that can be answered is visited. -/
theorem exists_visitRequest (htags : ∀ rule ∈ inputs.rules, (rule.qualifiedTags ++ rule.rejectedTags).Nodup)
    (hanswer : Answerable env inputs cik facts) (hvalid : inputs.Valid env body) (hrequest : request ∈ inputs.requests)
    (hobservations : ∀ o ∈ p.observations, Interpretation env inputs cik facts o) :
    ∃ p', visitRequest env inputs cik facts p request = .ok p' := by
  obtain ⟨filing, hfiling⟩ := exists_filingOf hvalid hrequest
  have hvisits : ∀ visited concept rest, request.concepts = visited ++ concept :: rest → ∀ p : Progress,
      (∀ o ∈ p.observations, Interpretation env inputs cik facts o) →
      ∃ p', visitConcept env inputs cik facts filing request p concept = .ok p' ∧
        ∀ o ∈ p'.observations, Interpretation env inputs cik facts o := by
    intro visited concept rest hconcepts p hobservations
    have hconcept : concept ∈ request.concepts := by rw [hconcepts]; simp
    obtain ⟨p', hvisit⟩ := exists_visitConcept htags hanswer hrequest hconcept hfiling hobservations
    obtain ⟨f, hfinds, hadds⟩ := adds_of_visitConcept hfiling hvisit
    refine ⟨p', hvisit, fun o ho => ?_⟩
    exact ((hadds.observations o).mp ho).elim (hobservations o) (interpretation_of_finds hrequest hconcept hfinds)
  obtain ⟨p', hfold, -⟩ :=
    exists_foldlM_ok (P := fun _ p => ∀ o ∈ p.observations, Interpretation env inputs cik facts o) hvisits
      (s := { p with coverage := p.coverage ++ [coverageOf request filing], flags := p.flags ++ requestFlags env inputs request filing })
      hobservations
  refine ⟨p', ?_⟩
  simp only [visitRequest, bind_eq_ok, orRaise_eq_ok]
  exact ⟨filing, hfiling, hfold⟩

/-- What was found after some requests are interpretations of rows. -/
theorem Progress.Follows.interpretations {done : List CoverageRequest} (h : p.Follows env inputs cik facts (askedOf done))
    (hdone : done ⊆ inputs.requests) : ∀ o ∈ p.observations, Interpretation env inputs cik facts o := by
  intro o ho
  obtain ⟨x, hx, f, hfinds, hmem⟩ := h.observations o ho
  obtain ⟨hx, hconcept⟩ := mem_askedOf.mp hx
  exact interpretation_of_finds (hdone hx) hconcept hfinds hmem

/-- What can be answered is visited to the end. -/
theorem exists_run (hnames : Function.Injective env.evidenceId)
    (htags : ∀ rule ∈ inputs.rules, (rule.qualifiedTags ++ rule.rejectedTags).Nodup) (hvalid : inputs.Valid env body)
    (hanswer : Answerable env inputs cik facts) (hp : p.Follows env inputs cik facts []) :
    ∃ p', inputs.requests.foldlM (visitRequest env inputs cik facts) p = .ok p' := by
  have hvisits : ∀ done request rest, inputs.requests = done ++ request :: rest → ∀ p : Progress,
      p.Follows env inputs cik facts (askedOf done) →
      ∃ p', visitRequest env inputs cik facts p request = .ok p' ∧ p'.Follows env inputs cik facts (askedOf (done ++ [request])) := by
    intro done request rest hrequests p hp
    have hrequest : request ∈ inputs.requests := by rw [hrequests]; simp
    have hdone : done ⊆ inputs.requests := by rw [hrequests]; exact List.subset_append_left _ _
    obtain ⟨p', hvisit⟩ := exists_visitRequest htags hanswer hvalid hrequest (hp.interpretations hdone)
    refine ⟨p', hvisit, ?_⟩
    have hnext := hp.visitRequest hnames (fresh_of_requests hvalid hrequests) hvisit
    rw [askedOf, List.flatMap_append, List.flatMap_cons, List.flatMap_nil, List.append_nil]
    exact hnext
  obtain ⟨p', hfold, -⟩ := exists_foldlM_ok (P := fun done p => Progress.Follows env inputs cik facts (askedOf done) p) hvisits hp
  exact ⟨p', hfold⟩

/-! ### When the law holds -/

variable {finish : Finish}

/-- A normalization of valid inputs and their document is its run. -/
theorem normalizeVerifiedBytes_eq_ok (hvalid : inputs.Valid env body) (hdocument : Documents env inputs cik facts body)
    {bundle : NormalizationBundle} : normalizeVerifiedBytes env finish body inputs = .ok bundle ↔
      ∃ p, inputs.requests.foldlM (visitRequest env inputs cik facts)
        { periods := (inputs.requests.map (·.period)).foldl (upsert (·.id)) []
          units := (inputs.requests.map (·.currency)).foldl (upsert (·.id)) [] } = .ok p ∧ bundleOf finish inputs p = bundle := by
  obtain ⟨document, hparse, hcik, hcanonical, hfacts⟩ := hdocument
  simp only [normalizeVerifiedBytes, not_not.mpr hvalid, if_false, hparse, hcik, hcanonical, hfacts, bind_eq_ok, orRaise_eq_ok,
    Option.some.injEq, exists_eq_left', ne_eq, not_true, pure, Except.pure, Except.ok.injEq]

/-- The resolution of a finding is the one that is of its concept. -/
theorem Progress.Follows.resolution_eq (h : p.Follows env inputs cik facts visited)
    (hkeys : (visited.map fun x => (x.1.id, x.2)).Nodup) (hholds : p.Holds env inputs request concept f) {r : Resolution}
    (hr : r ∈ p.resolutions) (hof : r.Of request concept) : r = f.resolution env request concept := by
  rw [← h.keys] at hkeys
  exact List.inj_on_of_nodup_map hkeys hr hholds.resolution (Prod.ext hof.1 hof.2)

/-- A bundle of a run keeps the law, if the preferences apply. -/
theorem selectionLaw_of_follows (hnames : Function.Injective env.evidenceId)
    (htags : ∀ rule ∈ inputs.rules, (rule.qualifiedTags ++ rule.rejectedTags).Nodup) (hvalid : inputs.Valid env body)
    (hfacts : (Tree.object facts : SourceValue).Distinct) (hanswer : Answerable env inputs cik facts)
    (hp : p.Follows env inputs cik facts (askedOf inputs.requests)) : SelectionLaw env inputs cik facts (bundleOf finish inputs p) := by
  have hkeys := nodup_keys hvalid
  have hlaw : ∀ request ∈ inputs.requests, ∀ concept ∈ request.concepts, ∀ r ∈ (bundleOf finish inputs p).resolutions,
      r.Of request concept →
      (r.status = .observed ∧ Observable env inputs cik facts request concept ∧
          ∃ q s, Asks env inputs cik request concept q ∧ s ∈ q.representatives (q.reported env facts) ∧
            Reports env (bundleOf finish inputs p) r q s) ∨
        (r.status ≠ .observed ∧ ¬ Observable env inputs cik facts request concept ∧ Unreported (bundleOf finish inputs p) r) := by
    intro request hrequest concept hconcept r hr hof
    obtain ⟨f, hfinds, hholds⟩ := hp.found (request, concept) (mem_askedOf.mpr ⟨hrequest, hconcept⟩)
    rw [hp.resolution_eq hkeys hholds hr hof]
    exact law_of_finds hnames hfacts hp hfinds (fun q hq => htags q.rule hq.rule_mem)
      (hanswer.preference request hrequest concept hconcept) hholds
  refine ⟨?_, ?_, ?_, ?_, ?_⟩
  · exact hp.keys.trans (keys_askedOf _)
  · rwa [← hp.keys] at hkeys
  · intro request hrequest concept hconcept r hr hof
    rcases hlaw request hrequest concept hconcept r hr hof with ⟨hstatus, hobservable, -⟩ | ⟨hstatus, hobservable, -⟩
    · exact iff_of_true hstatus hobservable
    · exact iff_of_false hstatus hobservable
  · intro request hrequest concept hconcept r hr hof hstatus
    rcases hlaw request hrequest concept hconcept r hr hof with ⟨-, -, hreports⟩ | ⟨hnot, -, -⟩
    · exact hreports
    · exact absurd hstatus hnot
  · intro request hrequest concept hconcept r hr hof hstatus
    rcases hlaw request hrequest concept hconcept r hr hof with ⟨hobserved, -, -⟩ | ⟨-, -, hunreported⟩
    · exact absurd hobserved hstatus
    · exact hunreported

/-- A run whose bundle keeps the law could answer what is asked. -/
theorem answerable_of_selectionLaw (htags : ∀ rule ∈ inputs.rules, (rule.qualifiedTags ++ rule.rejectedTags).Nodup)
    (hp : p.Follows env inputs cik facts (askedOf inputs.requests))
    (hlaw : SelectionLaw env inputs cik facts (bundleOf finish inputs p)) : Answerable env inputs cik facts := by
  have hfound : ∀ request ∈ inputs.requests, ∀ concept ∈ request.concepts,
      ∃ f, Finds env inputs cik facts request concept f ∧ p.Holds env inputs request concept f :=
    fun request hrequest concept hconcept => hp.found (request, concept) (mem_askedOf.mpr ⟨hrequest, hconcept⟩)
  have hinterpreted : ∀ o, Interpretation env inputs cik facts o → o ∈ p.observations := by
    rintro o ⟨request, hrequest, concept, hconcept, q, asks, s, hs, rfl⟩
    obtain ⟨f, hfinds, hholds⟩ := hfound request hrequest concept hconcept
    cases hfinds with
    | judged q' v asks' =>
      obtain rfl := asks.unique asks'
      exact hholds.observations (List.mem_map_of_mem hs)
    | gap unit status reason known none => exact absurd asks (none q)
  refine ⟨?_, ?_, ?_, ?_⟩
  · intro request hrequest concept hconcept
    obtain ⟨f, hfinds, -⟩ := hfound request hrequest concept hconcept
    cases hfinds with
    | judged q v asks => rw [asks.unit]; rfl
    | gap unit status reason known => rw [known]; rfl
  · intro request hrequest concept hconcept q asks
    obtain ⟨f, hfinds, -⟩ := hfound request hrequest concept hconcept
    cases hfinds with
    | judged q' v asks' tags =>
      obtain rfl := asks.unique asks'
      exact tags
    | gap unit status reason known none => exact absurd asks (none q)
  · exact fun a b ha hb => hp.coherent a (hinterpreted a ha) b (hinterpreted b hb)
  · intro request hrequest concept hconcept q asks
    obtain ⟨f, hfinds, hholds⟩ := hfound request hrequest concept hconcept
    have hobserved := hlaw.observed request hrequest concept hconcept _ hholds.resolution ⟨rfl, rfl⟩
    cases hfinds with
    | judged q' v asks' tags judge =>
      obtain rfl := asks.unique asks'
      refine Question.applies_of_judge (htags q.rule asks.rule_mem) rfl judge (hobserved.trans ⟨?_, fun h => ⟨q, asks, h⟩⟩)
      rintro ⟨q', asks', hselects⟩
      obtain rfl := asks.unique asks'
      exact hselects
    | gap unit status reason known none => exact absurd asks (none q)

end Runs

/-! ### A filing that uses one tag -/

/-- The code of a text, with a digit for each of its characters. -/
def textCode (text : String) : ℕ := Nat.ofDigits 2097152 (text.toList.map fun c => c.toNat + 1)

/-- A text is determined by its code. -/
theorem textCode_injective : Function.Injective textCode := by
  intro a b h
  have hdigits : ∀ text : String, Nat.digits 2097152 (textCode text) = text.toList.map fun c => c.toNat + 1 := by
    intro text
    refine Nat.digits_ofDigits 2097152 (by decide) _ (fun digit hdigit => ?_) fun hne hlast => ?_
    · obtain ⟨c, -, rfl⟩ := List.mem_map.mp hdigit
      have hsize : c.toNat < 1114112 := by
        rcases c.valid with h | h
        · exact lt_trans h (by decide)
        · exact h.2
      omega
    · obtain ⟨c, -, hc⟩ := List.mem_map.mp (List.getLast_mem hne)
      omega
  have hmap := (hdigits a).symm.trans ((congrArg _ h).trans (hdigits b))
  refine String.toList_injective (List.map_injective_iff.mpr (fun c d hcd => ?_) hmap)
  exact Char.toNat_inj.mp (Nat.add_right_cancel hcd)

/-- The code of a date. -/
def dateCode (d : Date) : ℕ := Nat.pair d.year (Nat.pair d.month d.day)

/-- The code of what may be missing. -/
def optionCode {α : Type} (code : α → ℕ) (value : Option α) : ℕ := value.elim 0 fun a => code a + 1

/-- A name as a number. -/
def nameCode : EvidenceName → ℕ
  | .period kind startDate endDate =>
    Nat.pair 0 (Nat.pair (textCode kind) (Nat.pair (optionCode dateCode startDate) (dateCode endDate)))
  | .unit key => Nat.pair 1 (textCode key)
  | .resolution request concept unit => Nat.pair 2 (Nat.pair request (Nat.pair (textCode (conceptText concept)) unit))
  | .flag request resolution rule message =>
    Nat.pair 3 (Nat.pair request (Nat.pair (optionCode id resolution) (Nat.pair (textCode rule) (textCode message))))
  | .observation capture locator => Nat.pair 4 (Nat.pair capture (textCode locator))

/-- A date is determined by its code. -/
theorem dateCode_injective : Function.Injective dateCode := by
  intro a b h
  simp only [dateCode, Nat.pair_eq_pair] at h
  cases a
  cases b
  simp_all

/-- What may be missing is determined by its code. -/
theorem optionCode_injective {α : Type} {code : α → ℕ} (h : Function.Injective code) : Function.Injective (optionCode code) := by
  intro a b hab
  cases a <;> cases b <;> simp_all [optionCode, h.eq_iff]

/-- A concept is determined by its text. -/
theorem conceptText_injective : Function.Injective conceptText := by
  have hfind : ∀ c : Concept, ((List.range 64).map Concept.ofNat).find? (fun d => conceptText d = conceptText c) = some c := by
    intro c
    cases c <;> rfl
  intro a b h
  have hsame := hfind a
  rw [h, hfind b] at hsame
  exact (Option.some.inj hsame).symm

/-- A name is determined by its number. -/
theorem nameCode_injective : Function.Injective nameCode := by
  intro a b h
  cases a <;> cases b <;> simp only [nameCode, Nat.pair_eq_pair, textCode_injective.eq_iff, dateCode_injective.eq_iff,
    (optionCode_injective dateCode_injective).eq_iff, (optionCode_injective Function.injective_id).eq_iff,
    conceptText_injective.eq_iff] at h
  all_goals simp_all

/-- The first and the last day of the year of the filing, the day of the filing and the day of its retrieval. -/
def sampleStart : Date := ⟨2025, 1, 1, Date.inYears_2025, Date.inMonths_1, Date.inDays_2025_1_1⟩

@[inherit_doc sampleStart]
def sampleEnd : Date := ⟨2025, 12, 31, Date.inYears_2025, Date.inMonths_12, by decide⟩

@[inherit_doc sampleStart]
def sampleFiled : Date := ⟨2026, 2, 13, by decide, by decide, by decide⟩

@[inherit_doc sampleStart]
def sampleRetrieved : Date := ⟨2026, 3, 2, by decide, Date.inMonths_3, by decide⟩

/-- A document that reports the revenue of a year with one tag. -/
def sampleBody : String :=
  "\x7b\"cik\":19617,\"facts\":\x7b\"us-gaap\":\x7b\"Revenues\":\x7b\"units\":\x7b" ++
    "\"USD\":[\x7b\"start\":\"2025-01-01\",\"end\":\"2025-12-31\",\"val\":182447000000," ++
    "\"accn\":\"0001628280-26-008131\",\"form\":\"10-K\",\"filed\":\"2026-02-13\"\x7d]\x7d\x7d\x7d\x7d\x7d"

/-- The rows of the document. -/
def sampleRow : Tree RawScalar String :=
  .object
    [("start", .scalar (.text "2025-01-01")), ("end", .scalar (.text "2025-12-31")), ("val", .scalar (.token "182447000000")),
      ("accn", .scalar (.text "0001628280-26-008131")), ("form", .scalar (.text "10-K")), ("filed", .scalar (.text "2026-02-13"))]

/-- A text as JSON, when no character but a quotation mark is escaped. -/
def sampleQuote (text : String) : String :=
  "\"" ++ String.ofList (text.toList.flatMap fun c => if c = '"' then ['\\', '"'] else [c]) ++ "\""

/-- How the document is read and written. -/
def sampleReaders : Readers where
  loads body :=
    if body = sampleBody.toUTF8.data.toList then
      some (.object [("cik", .scalar (.token "19617")),
        ("facts", .object [("us-gaap", .object [("Revenues", .object [("units", .object [("USD", .array [sampleRow])])])])])])
    else none
  sha256 body :=
    if body = sampleBody.toUTF8.data.toList then "c97d99eb4f222ced89d76da22eb76cde468e3a62f6e278978f1490f0d682cb61" else ""
  sha256Text text := if text = "\x7b\x7d" then "44136fa355b3678a1146ad16f7e8649e94fb4fc21fe77e8310c060f61caaff8a" else ""
  quoteKey := sampleQuote
  quote := sampleQuote
  fromIsoFormat text := [("2025-01-01", sampleStart), ("2025-12-31", sampleEnd)].lookup text
  utcDate _ := sampleRetrieved
  canonicalMetadata m :=
    "\x7b\"api_unit\":" ++ sampleQuote m.apiUnit ++ ",\"source_cik_json\":" ++ sampleQuote m.sourceCikJson ++
      ",\"source_cik_type\":" ++ sampleQuote m.sourceCikType ++ ",\"source_description\":null,\"source_label\":null" ++
      ",\"source_row_json\":" ++ sampleQuote m.sourceRowJson ++ "\x7d"
  evidenceId := nameCode

/-- A rule that two tags report the revenue, one of which it prefers. -/
def sampleRule (preferredTag : Option String) : MappingRule where
  reference := "revenue-2025"
  cik := "0000019617"
  accessions := ["0001628280-26-008131"]
  concept := .revenue
  qualifiedTags := ["us-gaap:RevenuesNetOfInterestExpense", "us-gaap:Revenues"]
  unitKey := "USD"
  scopeId := 5
  evidenceReferences := ["consolidated income statement"]
  periodStart := some sampleStart
  periodEnd := sampleEnd
  scopeContentSha256 := "44136fa355b3678a1146ad16f7e8649e94fb4fc21fe77e8310c060f61caaff8a"
  scopeKind := "consolidated"
  instrumentId := none
  statementFamily := "income"
  reportingBasis := "as_reported"
  preferredTag := preferredTag

/-- The revenue of a year is asked for. -/
def sampleInput (preferredTag : Option String) : NormalizationInput where
  issuerId := 1
  cik := "0000019617"
  companyfactsCaptureId := 2
  captures := [⟨2, 8, "companyfacts", "https://data.sec.gov/api/xbrl/companyfacts/CIK0000019617.json",
    "c97d99eb4f222ced89d76da22eb76cde468e3a62f6e278978f1490f0d682cb61", 192, 10, 20, "companyfacts"⟩]
  filings :=
    [{ id := 3, filingId := 4, issuerId := 1, accession := "0001628280-26-008131", metadataCaptureId := 2, filedDate := sampleFiled,
       form := "10-K", sourceUrl := "https://www.sec.gov/Archives/edgar/data/19617/", metadataHash := "" }]
  requests :=
    [{ id := 6, filingVersionId := 3, period := ⟨nameCode (.period "duration" (some sampleStart) sampleEnd), .duration, some sampleStart,
         sampleEnd⟩
       scope := ⟨5, 1, none, "consolidated", 1, "\x7b\x7d", "44136fa355b3678a1146ad16f7e8649e94fb4fc21fe77e8310c060f61caaff8a"⟩
       currency := ⟨nameCode (.unit "USD"), "USD", ["iso4217:USD"], []⟩, statementFamily := "income", reportingBasis := "as_reported"
       authorityClass := "original", assurance := "audited", coverageState := "covered", evidenceLocator := "R4.htm"
       concepts := [.revenue] }]
  rules := [sampleRule preferredTag]
  mappingRevisionId := 7
  parserRevision := "1"
  normalizerRevision := "1"
  authorityPolicyRevision := "1"
  capturedBefore := 30
  inventoryCompleteness := ⟨.complete, sampleStart, sampleRetrieved, ["inventory"], by decide⟩
  eventCompleteness := ⟨.complete, sampleStart, sampleRetrieved, ["events"], by decide⟩

/-- What a normalization failed with. -/
def failureOf {α : Type} : Except Failure α → Option Failure
  | .error failure => some failure
  | .ok _ => none

/-- The document of the samples is of the issuer. -/
theorem sample_documents (preferredTag : Option String) :
    ∃ cik facts, Documents sampleReaders (sampleInput preferredTag) cik facts sampleBody.toUTF8.data.toList := by
  have hread : ∃ document ∈ parseCompanyfacts sampleReaders sampleBody.toUTF8.data.toList,
      (document.lookup "cik").bind canonicalCik = some "0000019617" ∧ ((document.lookup "facts").bind members?).isSome = true := by
    decide +kernel
  obtain ⟨document, hdocument, hcik, hfacts⟩ := hread
  obtain ⟨cik, hlookup, hcanonical⟩ := Option.bind_eq_some_iff.mp hcik
  obtain ⟨facts, hfacts⟩ := Option.isSome_iff_exists.mp hfacts
  exact ⟨cik, facts, document, hdocument, hlookup, hcanonical, hfacts⟩

end EquityEval.Normalization
