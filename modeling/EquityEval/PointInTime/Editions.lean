import EquityEval.PointInTime.Permanence

/-!
# Usable statements

A statement that is usable for valuation is one coherent edition: one filing version, before or after
every other eligible one; one observed fact of that version for each concept, from the newest captures;
and no event that was announced by the cutoff and restricts it.
-/

namespace EquityEval.PointInTime

open Relational Workflow Ingestion TransitionSystem Store
open Discovery (sortedSet mem_sortedSet sortedSet_nodup)

variable {s : Store} {q : PitQuery} {o : RowOrder} {digest : SelectionContent → String}

/-- A row comes strictly before another by its filing date, or by verified acceptance on one date. -/
def FiledBefore (a b : CoverageRow) : Prop :=
  a.version.filedDate < b.version.filedDate ∨
    (a.version.filedDate = b.version.filedDate ∧ Verified [a, b] ∧ a.acceptance < b.acceptance)

/-- A row comes strictly first for the original edition, and else strictly last. -/
def Outranks (mode : HistoryMode) (a b : CoverageRow) : Prop :=
  if mode = .originalAsFiled then FiledBefore a b else FiledBefore b a

/-- A scope restricts a filing in the period and in one of the concepts of a query. -/
def Restricts (q : PitQuery) (filing : Uuid) (scope : FilingEventScope) : Prop :=
  scope.filingId = some filing ∧ (scope.periodId = none ∨ scope.periodId = some q.periodId) ∧
    ∀ concept ∈ scope.conceptStd, concept ∈ q.concepts

/-- The selection is the edition of a row, from chosen captures. -/
structure CoherentEdition (s : Store) (q : PitQuery) (x : SelectionContent) (captures : List Uuid) (row : CoverageRow) :
    Prop where
  /-- The row is eligible and selected, and every selected statement is of its filing version. -/
  eligible : row ∈ s.coverageRows q ∧ row.Eligible q captures ∧ row.coverage.id ∈ x.coverageIds
  version : ∀ c ∈ s.coverage.rows, c.id ∈ x.coverageIds → c.filingVersionId = row.coverage.filingVersionId
  /-- The version is strictly first or last among the eligible ones. -/
  ranked : ∀ other ∈ s.coverageRows q, other.Eligible q captures →
    other.coverage.filingVersionId ≠ row.coverage.filingVersionId → Outranks q.mode row other
  /-- Each concept has one fact, that one observation of the version was selected for. -/
  concepts : x.facts.map (·.concept) = q.concepts
  observed : ∀ fact ∈ x.facts, fact.status = .observed ∧ ∃ observation ∈ s.observations.rows,
    fact.observationIds = [observation.id] ∧ fact.value = observation.numericValue ∧ fact.value ≠ none ∧
      observation.filingVersionId = row.coverage.filingVersionId ∧ observation.sourceCaptureId ∈ captures
  /-- The chosen captures are the newest of their source objects in every role. -/
  newest : ∀ id ∈ captures, (∃ input ∈ s.inputRows q, input.input.sourceCaptureId = id) ∧
    ∀ input ∈ s.inputRows q, input.input.sourceCaptureId = id → ¬ input.Superseded (s.inputRows q)
  /-- No pinned event that was announced by the cutoff restricts the filing. -/
  unrestricted : ∀ e ∈ s.events.rows, e.id ∈ q.filingEventIds → e.eventKind ∈ [.nonReliance, .withdrawal] →
    (∀ cutoff ∈ q.filedCutoff, e.announcedDate ≤ cutoff) →
      ∀ scope ∈ s.scopes.rows, scope.eventId = e.id → ¬ Restricts q row.filing.id scope

/-! ### The chosen captures -/

/-- The chosen captures are the newest of their source objects in every role. -/
theorem selectSourceCaptures_newest {inputs : List InputRow} {captures : List Uuid}
    (h : selectSourceCaptures inputs = .ok captures) {id : Uuid} (hid : id ∈ captures) :
    (∃ input ∈ inputs, input.input.sourceCaptureId = id) ∧
      ∀ input ∈ inputs, input.input.sourceCaptureId = id → ¬ input.Superseded inputs := by
  unfold selectSourceCaptures at h
  obtain ⟨_, -, h⟩ := bind_eq_ok.mp h
  obtain ⟨_, hroles, h⟩ := bind_eq_ok.mp h
  cases pure_eq_ok.mp h
  obtain ⟨row, hrow, rfl⟩ := List.mem_map.mp (mem_sortedSet.mp hid)
  refine ⟨⟨row, List.mem_of_mem_filter hrow, rfl⟩, fun input hinput heq hsuperseded => ?_⟩
  refine raiseIf_eq_ok.mp hroles ⟨row, hrow, input, List.mem_filter.mpr ⟨hinput, ?_⟩, heq.symm⟩
  exact decide_eq_true hsuperseded

/-- A bundle that is accepted has selected the captures of its inputs, and its events are of the issuer
and of chosen captures. -/
theorem bundle_eq_ok {captures : List Uuid} (h : bundle .stored s q = .ok captures) :
    selectSourceCaptures (s.inputRows q) = .ok captures ∧
      ∀ row ∈ s.eventRows q, row.1.issuerId = q.issuerId ∧ row.2.metadataCaptureId ∈ captures := by
  unfold bundle at h
  obtain ⟨_, -, h⟩ := bind_eq_ok.mp h
  obtain ⟨_, -, h⟩ := bind_eq_ok.mp h
  obtain ⟨_, -, h⟩ := bind_eq_ok.mp h
  obtain ⟨_, -, h⟩ := bind_eq_ok.mp h
  obtain ⟨_, -, h⟩ := bind_eq_ok.mp h
  obtain ⟨_, hevents, h⟩ := bind_eq_ok.mp h
  obtain ⟨_, -, h⟩ := bind_eq_ok.mp h
  obtain ⟨selected, hselected, h⟩ := bind_eq_ok.mp h
  obtain ⟨_, hvintage, h⟩ := bind_eq_ok.mp h
  cases pure_eq_ok.mp h
  refine ⟨hselected, fun row hrow => ⟨?_, ?_⟩⟩
  · by_contra hissuer
    exact raiseIf_eq_ok.mp hevents (Or.inr ⟨row, hrow, Or.inl hissuer⟩)
  · by_contra hcapture
    exact raiseIf_eq_ok.mp hvintage ⟨row, hrow, hcapture⟩

/-! ### The rank of an edition -/

/-- A row that is not among the chosen ones has a strictly worse key. -/
theorem lt_of_not_mem_choose {mode : HistoryMode} {key : CoverageRow → ℤ} {rows : List CoverageRow} {a b : CoverageRow}
    (ha : a ∈ choose mode key rows) (hb : b ∈ rows) (hnot : b ∉ choose mode key rows) :
    if mode = .originalAsFiled then key a < key b else key b < key a := by
  obtain ⟨-, hbest⟩ := List.mem_filter.mp ha
  replace hbest := of_decide_eq_true hbest
  have hworse : ¬ ∀ other ∈ rows, if mode = .originalAsFiled then key b ≤ key other else key other ≤ key b :=
    fun hall => hnot (List.mem_filter.mpr ⟨hb, decide_eq_true hall⟩)
  push Not at hworse
  obtain ⟨other, hother, hkey⟩ := hworse
  have hle := hbest other hother
  split_ifs with hmode <;> simp only [hmode, if_true, if_false] at hkey hle <;> omega

/-- Chosen rows have one key. -/
theorem key_eq_of_mem_choose {mode : HistoryMode} {key : CoverageRow → ℤ} {rows : List CoverageRow} {a b : CoverageRow}
    (ha : a ∈ choose mode key rows) (hb : b ∈ choose mode key rows) : key a = key b := by
  obtain ⟨hamem, habest⟩ := List.mem_filter.mp ha
  obtain ⟨hbmem, hbbest⟩ := List.mem_filter.mp hb
  have hab := of_decide_eq_true habest b hbmem
  have hba := of_decide_eq_true hbbest a hamem
  split_ifs at hab hba <;> omega

/-- The finalists of one version outrank every row of another. -/
theorem outranks_of_mem_finalists {mode : HistoryMode} {rows : List CoverageRow} {a b : CoverageRow}
    (hone : ¬ SeveralVersions (finalists mode rows)) (ha : a ∈ finalists mode rows) (hb : b ∈ rows)
    (hversion : b.coverage.filingVersionId ≠ a.coverage.filingVersionId) : Outranks mode a b := by
  have hnot : b ∉ finalists mode rows := fun hmem => hone ⟨b, hmem, a, ha, hversion⟩
  unfold finalists at hone ha hnot
  dsimp only at hone ha hnot
  by_cases hb' : b ∈ choose mode (·.version.filedDate) rows
  · -- Both are of one date: the acceptance decides, and is verified.
    have hsplit : SeveralVersions (choose mode (·.version.filedDate) rows) ∧
        Verified (choose mode (·.version.filedDate) rows) := by
      by_contra hnone
      rw [if_neg hnone] at hnot
      exact hnot hb'
    rw [if_pos hsplit] at ha hnot
    have ha' := List.mem_of_mem_filter ha
    have hdate := key_eq_of_mem_choose ha' hb'
    have hverified : ∀ x ∈ choose mode (·.version.filedDate) rows, ∀ y ∈ choose mode (·.version.filedDate) rows,
        Verified [x, y] := by
      intro x hx y hy row hrow
      rcases List.mem_pair.mp hrow with rfl | rfl
      · exact hsplit.2 row hx
      · exact hsplit.2 row hy
    have hlt := lt_of_not_mem_choose ha hb' hnot
    by_cases hmode : mode = .originalAsFiled
    · simp only [hmode, if_true, Outranks] at hlt ⊢
      exact Or.inr ⟨hdate, hverified a ha' b hb', hlt⟩
    · simp only [hmode, if_false, Outranks] at hlt ⊢
      exact Or.inr ⟨hdate.symm, hverified b hb' a ha', hlt⟩
  · have ha' : a ∈ choose mode (·.version.filedDate) rows := by
      split_ifs at ha
      · exact List.mem_of_mem_filter ha
      · exact ha
    have hlt := lt_of_not_mem_choose ha' hb hb'
    by_cases hmode : mode = .originalAsFiled
    · simp only [hmode, if_true, Outranks] at hlt ⊢
      exact Or.inl hlt
    · simp only [hmode, if_false, Outranks] at hlt ⊢
      exact Or.inl hlt

/-! ### The facts -/

/-- A blocked statement is not usable. -/
theorem not_usable_blocked (flag : String) (rows : List CoverageRow) :
    (blocked digest q flag rows).usableForValuation = false := by
  obtain ⟨concept, hconcept⟩ := List.exists_mem_of_ne_nil _ q.pinned.1
  have hfacts : ((q.concepts.map fun concept => ({ concept, value := none, status := .unavailable, flags := [flag] } :
      SelectedFact)).all fun fact => decide (fact.status = .observed)) = false := by
    rw [List.all_eq_false]
    exact ⟨_, List.mem_map_of_mem hconcept, by simp⟩
  simp only [blocked, result, sealed, hfacts, Bool.and_false]

/-- A set of equal values has one value. -/
theorem sortedSet_eq_singleton {α : Type} [LinearOrder α] {values : List α} {a : α} (hne : values ≠ [])
    (h : ∀ b ∈ values, b = a) : sortedSet values = [a] := by
  have hall : ∀ b ∈ sortedSet values, b = a := fun b hb => h b (mem_sortedSet.mp hb)
  obtain ⟨b, hb⟩ := List.exists_mem_of_ne_nil _ hne
  have hmem : a ∈ sortedSet values := mem_sortedSet.mpr (h b hb ▸ hb)
  have hnodup := sortedSet_nodup values
  cases hvalues : sortedSet values with
  | nil => simp [hvalues] at hmem
  | cons c rest =>
    rw [hvalues] at hall hnodup
    obtain ⟨hc, hrest⟩ := List.forall_mem_cons.mp hall
    cases rest with
    | nil => rw [hc]
    | cons d more =>
      have hd : d = c := (hrest d List.mem_cons_self).trans hc.symm
      simp [hd] at hnodup

/-- An observed fact was resolved by rows that agree on one current observation. -/
theorem factOf_observed {captures : List Uuid} {editions : List CoverageRow} {rows : List ResolutionRow} {concept : Concept}
    (h : (factOf captures editions rows concept).1.status = .observed) :
    ∃ row ∈ conceptRows rows concept, ¬ Disagree (conceptRows rows concept) ∧ currentStatus captures row = .observed ∧
      (factOf captures editions rows concept).1 =
        resolvedFact captures editions concept (conceptRows rows concept) row := by
  unfold factOf at h ⊢
  dsimp only at h ⊢
  cases hhead : (conceptRows rows concept).head? with
  | none =>
    rw [hhead] at h
    cases h
  | some row =>
    rw [hhead] at h
    dsimp only at h ⊢
    by_cases hagree : Disagree (conceptRows rows concept)
    · rw [if_pos hagree] at h
      cases h
    · rw [if_neg hagree] at h ⊢
      exact ⟨row, List.mem_of_head? hhead, hagree, h, rfl⟩

/-- A current status of an observation is that of the resolution, from a chosen capture. -/
theorem currentStatus_observed {captures : List Uuid} {row : ResolutionRow} (h : currentStatus captures row = .observed) :
    row.resolution.status = .observed ∧ (row.resolution.selectedObservationId ≠ none →
      ∃ o ∈ row.observation, o.sourceCaptureId ∈ captures) := by
  unfold currentStatus at h
  split_ifs at h with hstale
  exact ⟨h, fun hselected => by_contra fun hnone => hstale ⟨hselected, hnone⟩⟩

/-- A resolution of an edition is stored, with the observation that it selected. -/
theorem mem_resolutionRows {ids : List Uuid} {row : ResolutionRow} (h : row ∈ s.resolutionRows q ids) :
    row.resolution ∈ s.resolutions.rows ∧ row.resolution.coverageId ∈ ids ∧
      row.observation = row.resolution.selectedObservationId.bind s.observation? := by
  obtain ⟨r, hr, rfl⟩ := List.mem_map.mp h
  obtain ⟨hmem, hcoverage, -⟩ := (Table.mem_select _).mp hr
  exact ⟨hmem, hcoverage, rfl⟩

/-- An observed fact of an edition is one observation of its filing version and of a chosen capture. -/
theorem fact_of_edition (hs : Referenced s) {captures : List Uuid} {editions editions' : List CoverageRow} {concept : Concept}
    {rows : List ResolutionRow} (hrows : ∀ row ∈ rows, row ∈ s.resolutionRows q (editions.map (·.coverage.id)))
    (hedition : ∀ row ∈ editions, row ∈ s.coverageRows q)
    (h : (factOf captures editions' rows concept).1.status = .observed) :
    ∃ row ∈ editions, ∃ observation ∈ s.observations.rows,
      (factOf captures editions' rows concept).1.observationIds = [observation.id] ∧
      (factOf captures editions' rows concept).1.value = observation.numericValue ∧
      (factOf captures editions' rows concept).1.value ≠ none ∧
      observation.filingVersionId = row.coverage.filingVersionId ∧ observation.sourceCaptureId ∈ captures := by
  obtain ⟨found, hfound, hagree, hcurrent, hfact⟩ := factOf_observed h
  obtain ⟨hstatus, hcapture⟩ := currentStatus_observed hcurrent
  obtain ⟨hmem, hcoverage, hjoined⟩ := mem_resolutionRows (hrows found (List.mem_of_mem_filter hfound))
  obtain ⟨row, hrow, hid⟩ := List.mem_map.mp hcoverage
  -- A resolution that is observed has selected an observation, which its statement allows.
  have hchecked := s.resolutions.valid.2.2 found.resolution hmem
  have hselected : found.resolution.selectedObservationId ≠ none := hchecked.2.1.mp (by simp [hstatus])
  obtain ⟨id, hsome⟩ := Option.ne_none_iff_exists'.mp hselected
  obtain ⟨c, hc, hallowed⟩ := hs.resolutions found.resolution hmem
  obtain ⟨observation, hobservation, hselectable⟩ := hallowed id hsome
  have hsame : c = row.coverage := by
    have hlookup : s.coverage? row.coverage.id = some row.coverage :=
      Table.lookup_of_mem s.coverage.valid.1 (mem_coverageRows (hedition row hrow)).1
    rw [hid, hc] at hlookup
    exact Option.some.inj hlookup
  obtain ⟨hobserved, hid'⟩ := Table.lookup_eq_some hobservation
  have hfirst : found.observation = some observation := by
    rw [hjoined, hsome]
    exact hobservation
  have hvalue : (resolvedFact captures editions' concept (conceptRows rows concept) found).value =
      observation.numericValue := by
    simp only [resolvedFact, hcurrent, if_true, hfirst, Option.bind_some]
  rw [hfact]
  refine ⟨row, hrow, observation, hobserved, ?_, hvalue, ?_, hsame ▸ hselectable.1, ?_⟩
  · refine sortedSet_eq_singleton ?_ fun other hother => ?_
    · intro hnil
      exact hselected (List.filterMap_eq_nil_iff.mp hnil found hfound)
    · obtain ⟨row', hrow', hsome'⟩ := List.mem_filterMap.mp hother
      have hsignature : row'.signature = found.signature := by
        by_contra hne
        exact hagree ⟨row', hrow', found, hfound, hne⟩
      have hids : row'.resolution.selectedObservationId = found.resolution.selectedObservationId :=
        congrArg (fun x => x.2.2) hsignature
      rw [hids, hsome, Option.some.injEq] at hsome'
      exact hsome'.symm.trans hid'.symm
  · rw [hvalue]
    rcases (s.observations.valid.2.2 observation hobserved).2.2.2 with ⟨-, hnumeric, -⟩ | ⟨hstate, -⟩
    · exact hnumeric
    · exact absurd (hselectable.2.2.2.2.1 hstatus) hstate
  · obtain ⟨o', ho', hchosen⟩ := hcapture hselected
    rw [hfirst] at ho'
    cases ho'
    exact hchosen

/-- A fact is of the concept that was asked for. -/
theorem factOf_concept (captures : List Uuid) (editions : List CoverageRow) (rows : List ResolutionRow) (concept : Concept) :
    (factOf captures editions rows concept).1.concept = concept := by
  unfold factOf
  dsimp only
  cases (conceptRows rows concept).head? with
  | none => rfl
  | some row =>
    dsimp only
    split_ifs <;> rfl

/-! ### Usable statements -/

/-- A pinned event of a chosen capture that was announced by the cutoff and restricts a filing affects
the editions of the filing. -/
theorem mem_affectingEvents (hs : Referenced s) {captures filingIds : List Uuid} (hbundle : bundle .stored s q = .ok captures)
    {e : FilingEvent} (he : e ∈ s.events.rows) (hpinned : e.id ∈ q.filingEventIds)
    (hkind : e.eventKind ∈ [.nonReliance, .withdrawal]) (hannounced : ∀ cutoff ∈ q.filedCutoff, e.announcedDate ≤ cutoff)
    {scope : FilingEventScope} (hscope : scope ∈ s.scopes.rows) (hof : scope.eventId = e.id) {filing : Uuid}
    (hfiling : filing ∈ filingIds) (hrestricts : Restricts q filing scope) :
    e ∈ s.affectingEvents q captures filingIds := by
  obtain ⟨version, hversion⟩ := Option.isSome_iff_exists.mp (hs.events e he)
  have hrow : (e, version) ∈ s.eventRows q :=
    List.mem_filterMap.mpr ⟨e, (Table.mem_select _).mpr ⟨he, hpinned⟩, by rw [hversion]; rfl⟩
  obtain ⟨hissuer, hcapture⟩ := (bundle_eq_ok hbundle).2 _ hrow
  obtain ⟨hone, hperiod, hconcept⟩ := hrestricts
  refine List.mem_map.mpr ⟨(e, version), List.mem_filter.mpr ⟨hrow, decide_eq_true ?_⟩, rfl⟩
  exact ⟨hissuer, hannounced, hcapture, hkind, scope, hscope, hof, ⟨filing, hone, hfiling⟩, hperiod, hconcept⟩

/-- A usable selection of an edition is that edition. -/
theorem readEdition_coherent (hs : Referenced s) {captures : List Uuid} (hbundle : bundle .stored s q = .ok captures)
    (hflag : (edition (eligibleCoverage o s q captures) q).2 = none)
    (h : (readEdition digest o s q captures (finalists q.mode (eligibleCoverage o s q captures))).usableForValuation = true) :
    ∃ row, CoherentEdition s q
      (readEdition digest o s q captures (finalists q.mode (eligibleCoverage o s q captures))).toSelectionContent captures row := by
  obtain ⟨hone, -, -⟩ := edition_snd_eq_none.mp hflag
  have hfinal : ∀ row ∈ finalists q.mode (eligibleCoverage o s q captures),
      row ∈ s.coverageRows q ∧ row.Eligible q captures := fun row hrow => mem_eligibleCoverage.mp (mem_of_mem_finalists hrow)
  generalize heditions : finalists q.mode (eligibleCoverage o s q captures) = editions at h hone hfinal ⊢
  obtain ⟨hflags, hobserved⟩ := Bool.and_eq_true_iff.mp h
  rw [List.all_eq_true] at hflags hobserved
  have hfact : ∀ concept ∈ q.concepts,
      (factOf captures editions (o.arrange (s.resolutionRows q (editions.map (·.coverage.id)))) concept).1.status = .observed :=
    fun concept hconcept =>
      of_decide_eq_true (hobserved _ (List.mem_map_of_mem (List.mem_map_of_mem hconcept)))
  have hresolved := fun concept hconcept => fact_of_edition hs (fun row hrow => RowOrder.mem_arrange.mp hrow)
    (fun row hrow => (hfinal row hrow).1) (hfact concept hconcept)
  obtain ⟨concept, hconcept⟩ := List.exists_mem_of_ne_nil _ q.pinned.1
  obtain ⟨row, hrow, -⟩ := hresolved concept hconcept
  have hversion : ∀ other ∈ editions, other.coverage.filingVersionId = row.coverage.filingVersionId :=
    fun other hother => by_contra fun hne => hone ⟨other, hother, row, hrow, hne⟩
  refine ⟨row, ?_⟩
  constructor
  · exact ⟨(hfinal row hrow).1, (hfinal row hrow).2, mem_sortedSet.mpr (List.mem_map_of_mem hrow)⟩
  · intro c hc hid
    obtain ⟨other, hother, heq⟩ := List.mem_map.mp (mem_sortedSet.mp hid)
    have hsame : other.coverage = c :=
      List.inj_on_of_nodup_map s.coverage.valid.1 (mem_coverageRows (hfinal other hother).1).1 hc heq
    rw [← hsame]
    exact hversion other hother
  · intro other hother heligible hne
    rw [← heditions] at hone hrow
    exact outranks_of_mem_finalists hone hrow (mem_eligibleCoverage.mpr ⟨hother, heligible⟩) hne
  · simp only [readEdition, result, sealed, List.map_map, Function.comp_def, factOf_concept, List.map_id']
  · intro fact hmem
    obtain ⟨pair, hpair, rfl⟩ := List.mem_map.mp hmem
    obtain ⟨concept', hconcept', rfl⟩ := List.mem_map.mp hpair
    obtain ⟨other, hother, observation, hobservation, hids, hvalue, hsome, hof, hcapture⟩ := hresolved concept' hconcept'
    exact ⟨hfact concept' hconcept', observation, hobservation, hids, hvalue, hsome, hof.trans (hversion other hother),
      hcapture⟩
  · intro id hid
    exact selectSourceCaptures_newest (bundle_eq_ok hbundle).1 hid
  · intro e he hpinned hkind hannounced scope hscope hof hrestricts
    have hevent := mem_affectingEvents hs hbundle he hpinned hkind hannounced hscope hof
      (List.mem_map_of_mem (f := fun row : CoverageRow => row.filing.id) hrow) hrestricts
    have hflag : nonblocking e.eventKind.flag = true := by
      refine hflags _ (List.mem_append_left _ (List.mem_append_right _ (List.mem_map_of_mem ?_)))
      exact RowOrder.mem_arrange.mpr hevent
    rcases List.mem_pair.mp hkind with hcase | hcase <;> rw [hcase] at hflag <;> revert hflag <;> decide +kernel

/-- A statement that is usable for valuation is one coherent edition. -/
theorem usable_coherent (digest : SelectionContent → String) (o : RowOrder) (hs : evidenceSystem.Reachable s)
    (h : (readStatement digest o s q).usableForValuation = true) :
    ∃ captures row, bundle o s q = .ok captures ∧
      CoherentEdition s q (readStatement digest o s q).toSelectionContent captures row := by
  have hreferenced := (committed.holds hs).toReferenced
  unfold readStatement at h ⊢
  rw [bundle_order] at h ⊢
  cases hbundle : bundle .stored s q with
  | error flag =>
    rw [hbundle] at h
    exact absurd h (by simp only [not_usable_blocked, Bool.false_eq_true, not_false_iff])
  | ok captures =>
    rw [hbundle] at h
    dsimp only at h ⊢
    split_ifs at h ⊢ with hempty
    · exact absurd h (by simp only [not_usable_blocked, Bool.false_eq_true, not_false_iff])
    cases hflag : (edition (eligibleCoverage o s q captures) q).2 with
    | some flag =>
      rw [hflag] at h
      exact absurd h (by simp only [not_usable_blocked, Bool.false_eq_true, not_false_iff])
    | none =>
      rw [hflag] at h
      obtain ⟨row, hrow⟩ := readEdition_coherent hreferenced hbundle hflag h
      exact ⟨captures, row, rfl, hrow⟩

/-! ### An event that is announced after the cutoff -/

/-- An observation of the revenue in a filing version. -/
def observedRevenue (id version : Uuid) : SourceObservation where
  id
  sourceCaptureId := 1
  filingVersionId := version
  sourceLocator := "/facts/us-gaap/Revenues/units/USD/" ++ toString id
  sourceNamespace := "us-gaap"
  tag := "Revenues"
  periodId := 1
  unitId := 1
  semanticScopeId := some 1
  numericValue := some ⟨false, 10999, 6⟩
  valueState := .numeric
  originalNumericText := some "10999000000"
  transformMetadata := "{}"

/-- A resolution that selected an observation of the revenue. -/
def resolvedRevenue (id coverage observation : Uuid) : FactResolution where
  id
  coverageId := coverage
  conceptStd := .revenue
  semanticScopeId := 1
  instrumentId := none
  unitId := 1
  status := .observed
  selectedObservationId := some observation
  reason := none

/-- A published batch of one filing, and a later filing that withdraws reliance on it. -/
def withdrawnReliance : List Write :=
  [.capture (companyfacts 1), .filing ⟨1, 1, "0001637459-18-000015"⟩, .version ⟨1, 1, 1, 10, none, none, sampleHash 'c'⟩,
    .filing ⟨2, 1, "0001637459-19-000049"⟩, .version ⟨2, 2, 1, 20, none, none, sampleHash 'f'⟩,
    .batch (buildingBatch 1), .input ⟨1, 1, "financial"⟩, .coverage (incomeStatement 1 1 1),
    .observation (observedRevenue 1 1), .resolution (resolvedRevenue 1 1 1), publication 1,
    .event ⟨1, 1, 1, .nonReliance, 20, 2⟩, .scope ⟨1, some 1, none, none⟩]

/-- The store with the two filings. -/
def withdrawnStore : Store := storeAfter withdrawnReliance (by decide +kernel)

/-- The query of the revenue as filed by a date, with given events. -/
def asFiledQuery (filedCutoff : Day) (filingEventIds : List Uuid) (h : filingEventIds.Nodup) : PitQuery :=
  { revenueQuery [1] (by decide) with
    mode := .asFiledByDate, filedCutoff := some filedCutoff, filingEventIds, cutoffGiven := nofun
    distinct := ⟨h, by decide⟩ }

/-- The revenue as filed by a date before the later filing is usable, and one coherent edition. -/
theorem usable_coherent_sample :
    ∃ captures row, bundle .stored withdrawnStore (asFiledQuery 15 [1] (by decide)) = .ok captures ∧
      CoherentEdition withdrawnStore (asFiledQuery 15 [1] (by decide))
        (readStatement (fun _ => "") .stored withdrawnStore (asFiledQuery 15 [1] (by decide))).toSelectionContent captures row :=
  usable_coherent (fun _ => "") .stored (reachable_storeAfter withdrawnReliance _) (by decide +kernel)

/-- A pinned event that is announced after the cutoff restricts the filing of a usable statement. -/
theorem later_announcement_restricts :
    ∃ (s : Store) (q : PitQuery), evidenceSystem.Reachable s ∧
      (readStatement (fun _ => "") .stored s q).usableForValuation = true ∧
      ∃ row ∈ s.coverageRows q, row.coverage.id ∈ (readStatement (fun _ => "") .stored s q).coverageIds ∧
        ∃ e ∈ s.events.rows, e.id ∈ q.filingEventIds ∧ e.eventKind = .nonReliance ∧
          ∃ scope ∈ s.scopes.rows, scope.eventId = e.id ∧ Restricts q row.filing.id scope := by
  refine ⟨withdrawnStore, asFiledQuery 15 [1] (by decide), reachable_storeAfter withdrawnReliance _, by decide +kernel, ?_⟩
  unfold Restricts
  decide +kernel

end EquityEval.PointInTime
