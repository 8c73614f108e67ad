import Mathlib.Tactic.CongrExclamation
import Mathlib.Data.List.Rotate
import EquityEval.PointInTime.Reader

/-!
# The order of the rows

The rows of a query come in any order. The bundle, the edition and the restrictions of a statement do
not depend on it. A selection does in two fields only, which it takes from the first of several rows:
the reporting basis of an edition that is blocked, and the reason of a fact.
-/

namespace EquityEval.PointInTime

open Relational Workflow Ingestion DecimalArithmetic
open Discovery (sortedSet sortedSet_perm mem_sortedSet)

variable {o : RowOrder} {s : Store} {q : PitQuery}

/-- The rows of a query are those that are stored. -/
@[simp] theorem RowOrder.mem_arrange {α : Type} {rows : List α} {row : α} : row ∈ o.arrange rows ↔ row ∈ rows :=
  (o.perm rows).mem_iff

/-- No row of a query is lost. -/
@[simp] theorem RowOrder.length_arrange {α : Type} (rows : List α) : (o.arrange rows).length = rows.length :=
  (o.perm rows).length_eq

/-- The rows that are stored come as they are. -/
@[simp] theorem RowOrder.stored_arrange {α : Type} (rows : List α) : RowOrder.stored.arrange rows = rows := rfl

/-- The newest captures do not depend on the order of the inputs. -/
theorem selectSourceCaptures_perm {inputs inputs' : List InputRow} (h : inputs.Perm inputs') :
    selectSourceCaptures inputs = selectSourceCaptures inputs' := by
  have hsuperseded : ∀ row : InputRow, row.Superseded inputs ↔ row.Superseded inputs' := by
    intro row
    simp only [InputRow.Superseded, h.mem_iff]
  simp only [selectSourceCaptures, hsuperseded]
  have hlatest := h.filter fun row => decide (¬ row.Superseded inputs')
  have holder := h.filter fun row => decide (row.Superseded inputs')
  simp only [hlatest.mem_iff, holder.mem_iff, sortedSet_perm (hlatest.map (·.input.sourceCaptureId))]

/-- The bundle does not depend on the order of the rows. -/
theorem bundle_order : bundle o s q = bundle .stored s q := by
  simp only [bundle, RowOrder.mem_arrange, RowOrder.length_arrange, RowOrder.stored_arrange,
    sortedSet_perm ((o.perm (s.inputRows q)).map (·.input.sourceCaptureId)),
    selectSourceCaptures_perm (o.perm (s.inputRows q))]
  -- Only the decision procedures of the conditions differ.
  congr!

/-- The eligible statements, in another order. -/
theorem eligibleCoverage_perm (captures : List Uuid) :
    (eligibleCoverage o s q captures).Perm (eligibleCoverage .stored s q captures) :=
  (o.perm _).filter _

/-! ### The edition -/

section Edition

variable {rows rows' : List CoverageRow}

/-- The chosen rows, in another order. -/
theorem choose_perm (h : rows.Perm rows') (mode : HistoryMode) (key : CoverageRow → ℤ) :
    (choose mode key rows).Perm (choose mode key rows') := by
  simp only [choose, h.mem_iff]
  exact h.filter _

/-- An edition that nothing blocks is of one version and one reporting basis, and covered in a currency. -/
theorem edition_snd_eq_none {q : PitQuery} :
    (edition rows q).2 = none ↔ ¬ SeveralVersions (finalists q.mode rows) ∧
      (∀ a ∈ finalists q.mode rows, ∀ b ∈ finalists q.mode rows, a.coverage.reportingBasis = b.coverage.reportingBasis) ∧
      ∀ a ∈ finalists q.mode rows, a.coverage.currencyUnitId ≠ none ∧ a.coverage.coverageState = .covered := by
  simp only [edition]
  split_ifs with hversions hbasis hcovered
  · simp [hversions]
  · simp only [false_iff, not_and]
    obtain ⟨a, ha, b, hb, hab⟩ := hbasis
    exact fun _ hsame => absurd (hsame a ha b hb) hab
  · simp only [false_iff, not_and]
    obtain ⟨a, ha, hna⟩ := hcovered
    intro _ _ hall
    rcases hna with hnone | hstate
    · exact (hall a ha).1 hnone
    · exact hstate (hall a ha).2
  · simp only [true_iff]
    push Not at hbasis hcovered
    exact ⟨hversions, hbasis, hcovered⟩

/-- The finalists, in another order. -/
theorem finalists_perm (h : rows.Perm rows') (mode : HistoryMode) : (finalists mode rows).Perm (finalists mode rows') := by
  have hdate := choose_perm h mode (·.version.filedDate)
  simp only [finalists, SeveralVersions, Verified, hdate.mem_iff]
  split_ifs
  · exact choose_perm hdate mode _
  · exact hdate

/-- What blocks an edition does not depend on the order of the rows. -/
theorem edition_snd_perm (h : rows.Perm rows') (q : PitQuery) : (edition rows q).2 = (edition rows' q).2 := by
  have hfinal := finalists_perm h q.mode
  simp only [edition, SeveralVersions, hfinal.mem_iff]

/-- The finalists are some of the rows in their order. -/
theorem finalists_eq_filter (rows : List CoverageRow) (mode : HistoryMode) :
    ∃ p : CoverageRow → Bool, finalists mode rows = rows.filter p := by
  simp only [finalists]
  split_ifs
  · simp only [choose, List.filter_filter]
    exact ⟨_, rfl⟩
  · exact ⟨_, rfl⟩

/-- The finalists are among the rows. -/
theorem mem_of_mem_finalists {mode : HistoryMode} {row : CoverageRow} (h : row ∈ finalists mode rows) : row ∈ rows := by
  obtain ⟨p, hp⟩ := finalists_eq_filter rows mode
  rw [hp] at h
  exact List.mem_of_mem_filter h

end Edition

/-! ### The facts -/

/-- A row of the covered statements has the version and the filing that it refers to. -/
theorem mem_coverageRows {row : CoverageRow} (h : row ∈ s.coverageRows q) :
    row.coverage ∈ s.coverage.rows ∧ s.version? row.coverage.filingVersionId = some row.version ∧
      s.filing? row.version.filingId = some row.filing := by
  obtain ⟨c, hc, hrow⟩ := List.mem_filterMap.mp h
  obtain ⟨version, hversion, hrest⟩ := Option.bind_eq_some_iff.mp hrow
  obtain ⟨filing, hfiling, hsome⟩ := Option.bind_eq_some_iff.mp hrest
  cases Option.some.inj hsome
  exact ⟨((Table.mem_select _).mp hc).1, hversion, hfiling⟩

/-- Eligible statements are among the covered ones that the query asks for. -/
theorem mem_eligibleCoverage {captures : List Uuid} {row : CoverageRow} :
    row ∈ eligibleCoverage o s q captures ↔ row ∈ s.coverageRows q ∧ row.Eligible q captures := by
  simp only [eligibleCoverage, List.mem_filter, RowOrder.mem_arrange, decide_eq_true_eq]

/-- Rows of one filing version have one version and one filing. -/
theorem version_eq_of_coverageRows {a b : CoverageRow} (ha : a ∈ s.coverageRows q) (hb : b ∈ s.coverageRows q)
    (h : a.coverage.filingVersionId = b.coverage.filingVersionId) : a.version = b.version ∧ a.filing = b.filing := by
  obtain ⟨-, haversion, hafiling⟩ := mem_coverageRows ha
  obtain ⟨-, hbversion, hbfiling⟩ := mem_coverageRows hb
  have hversion : a.version = b.version := Option.some.inj (haversion.symm.trans ((congrArg s.version? h).trans hbversion))
  rw [hversion] at hafiling
  exact ⟨hversion, Option.some.inj (hafiling.symm.trans hbfiling)⟩

/-- The first of rows that agree in a field has the field of any row. -/
theorem head?_map_perm {α β : Type} {rows rows' : List α} (h : rows.Perm rows') (f : α → β)
    (hsame : ∀ a ∈ rows, ∀ b ∈ rows, f a = f b) : rows.head?.map f = rows'.head?.map f := by
  cases rows with
  | nil => rw [List.nil_perm.mp h]
  | cons a rest =>
    cases rows' with
    | nil => cases h.symm.nil_eq
    | cons b rest' =>
      have hb : b ∈ a :: rest := h.mem_iff.mpr List.mem_cons_self
      simp only [List.head?_cons, Option.map_some, hsame a List.mem_cons_self b hb]

/-- The resolutions of an edition do not depend on the order of its rows. -/
theorem resolutionRows_perm {ids ids' : List Uuid} (h : ids.Perm ids') :
    s.resolutionRows q ids = s.resolutionRows q ids' := by
  simp only [Store.resolutionRows, Table.select, h.mem_iff]

/-- The quality flags do not depend on the order of the resolutions. -/
theorem qualityRows_perm {ids ids' : List Uuid} (h : ∀ id, id ∈ ids ↔ id ∈ ids') :
    s.qualityRows q ids = s.qualityRows q ids' := by
  simp only [Store.qualityRows, Table.select, h]

/-- The events of an edition do not depend on the order of its rows. -/
theorem affectingEvents_perm (captures : List Uuid) {ids ids' : List Uuid} (h : ids.Perm ids') :
    s.affectingEvents q captures ids = s.affectingEvents q captures ids' := by
  simp only [Store.affectingEvents, h.mem_iff]

/-- Resolutions of the store that agree have one observation. -/
theorem observation_eq_of_signature {ids : List Uuid} {a b : ResolutionRow} (ha : a ∈ s.resolutionRows q ids)
    (hb : b ∈ s.resolutionRows q ids) (h : a.signature = b.signature) :
    a.resolution.status = b.resolution.status ∧
      a.resolution.selectedObservationId = b.resolution.selectedObservationId ∧
      a.observation = b.observation ∧ a.capture = b.capture := by
  obtain ⟨ra, -, rfl⟩ := List.mem_map.mp ha
  obtain ⟨rb, -, rfl⟩ := List.mem_map.mp hb
  obtain ⟨hstatus, -, hselected⟩ : _ ∧ _ ∧ _ := by simpa only [ResolutionRow.signature, Prod.mk.injEq] using h
  simp only [hstatus, hselected, and_self]

/-- A fact without its reason. -/
def SelectedFact.settled (fact : SelectedFact) : SelectedFact := { fact with reason := none }

/-- A fact is what is settled of it, with its reason. -/
theorem SelectedFact.eq_of_settled {a b : SelectedFact} (h : a.settled = b.settled) (hreason : a.reason = b.reason) : a = b :=
  calc a = { a.settled with reason := a.reason } := rfl
    _ = { b.settled with reason := b.reason } := by rw [h, hreason]
    _ = b := rfl

section Fact

variable {ids : List Uuid} {editions editions' : List CoverageRow} {rows rows' : List ResolutionRow}

/-- Rows in another order disagree alike about a concept. -/
theorem disagree_perm (h : rows.Perm rows') : Disagree rows ↔ Disagree rows' := by
  simp only [Disagree, h.mem_iff]

/-- The fact of a concept, but for its reason, does not depend on the order of the rows. -/
theorem factOf_settled (captures : List Uuid) (hrows : rows.Perm rows') (hstored : rows'.Perm (s.resolutionRows q ids))
    (haccession : editions.head?.map (·.filing.accession) = editions'.head?.map (·.filing.accession))
    (hfiled : editions.head?.map (·.version.filedDate) = editions'.head?.map (·.version.filedDate)) (concept : Concept) :
    (factOf captures editions rows concept).1.settled = (factOf captures editions' rows' concept).1.settled ∧
      (factOf captures editions rows concept).2 = (factOf captures editions' rows' concept).2 := by
  have hfound : (conceptRows rows concept).Perm (conceptRows rows' concept) := hrows.filter _
  have hmem : ∀ a ∈ conceptRows rows' concept, a ∈ s.resolutionRows q ids :=
    fun a ha => hstored.mem_iff.mp (List.mem_of_mem_filter ha)
  simp only [factOf, disagree_perm hfound]
  cases hhead : (conceptRows rows concept).head? with
  | none =>
    rw [List.head?_eq_none_iff] at hhead
    rw [hhead, List.nil_perm] at hfound
    rw [hfound]
    exact ⟨rfl, rfl⟩
  | some a =>
    have ha : a ∈ conceptRows rows' concept := hfound.mem_iff.mp (List.mem_of_head? hhead)
    cases hhead' : (conceptRows rows' concept).head? with
    | none =>
      rw [List.head?_eq_none_iff] at hhead'
      rw [hhead'] at ha
      cases ha
    | some b =>
      have hb : b ∈ conceptRows rows' concept := List.mem_of_head? hhead'
      have hids := sortedSet_perm (hfound.map (·.resolution.id))
      by_cases hall : Disagree (conceptRows rows' concept)
      · simp only [hall, if_true, hids, and_self]
      · -- Resolutions that agree have one observation.
        have hsame : a.signature = b.signature := by
          by_contra hne
          exact hall ⟨a, ha, b, hb, hne⟩
        obtain ⟨hstatus, hselected, hobservation, hcapture⟩ := observation_eq_of_signature (hmem a ha) (hmem b hb) hsame
        have hcurrent : currentStatus captures a = currentStatus captures b := by
          simp only [currentStatus, hstatus, hselected, hobservation]
        simp only [hall, if_false, resolvedFact, SelectedFact.settled, hcurrent, hobservation, hcapture, hids, haccession,
          hfiled, sortedSet_perm (hfound.filterMap (·.resolution.selectedObservationId)),
          sortedSet_perm (hfound.filterMap fun r => r.observation.map (·.sourceCaptureId)),
          sortedSet_perm (hfound.filterMap fun r => r.capture.bind (·.bodySha256)), and_self]

/-- The reason of the fact of a concept is that of the first of the resolutions that agree. -/
theorem factOf_reason (captures : List Uuid) (editions : List CoverageRow) (rows : List ResolutionRow) (concept : Concept) :
    (factOf captures editions rows concept).1.reason =
      if Disagree (conceptRows rows concept) then none else
        ((conceptRows rows concept).head?.map (·.resolution.reason)).getD (some "Selected edition has no resolution") := by
  simp only [factOf]
  cases (conceptRows rows concept) with
  | nil => simp
  | cons row rest =>
    simp only [List.head?_cons, Option.map_some, Option.getD_some]
    split_ifs <;> rfl

/-- The fact of a concept does not depend on the order of the rows, if the resolutions of the concept
that agree have one reason. -/
theorem factOf_perm (captures : List Uuid) (hrows : rows.Perm rows') (hstored : rows'.Perm (s.resolutionRows q ids))
    (haccession : editions.head?.map (·.filing.accession) = editions'.head?.map (·.filing.accession))
    (hfiled : editions.head?.map (·.version.filedDate) = editions'.head?.map (·.version.filedDate)) (concept : Concept)
    (hreason : ¬ Disagree (conceptRows rows' concept) →
      ∀ a ∈ conceptRows rows' concept, ∀ b ∈ conceptRows rows' concept, a.resolution.reason = b.resolution.reason) :
    factOf captures editions rows concept = factOf captures editions' rows' concept := by
  have hfound : (conceptRows rows' concept).Perm (conceptRows rows concept) := hrows.symm.filter _
  obtain ⟨hfact, hflag⟩ := factOf_settled captures hrows hstored haccession hfiled concept
  refine Prod.ext (SelectedFact.eq_of_settled hfact ?_) hflag
  rw [factOf_reason, factOf_reason]
  by_cases hall : Disagree (conceptRows rows' concept)
  · rw [if_pos hall, if_pos ((disagree_perm hfound).mp hall)]
  · rw [if_neg hall, if_neg fun h => hall ((disagree_perm hfound).mpr h),
      head?_map_perm hfound (·.resolution.reason) (hreason hall)]

/-- The resolutions of a fact are among those of the edition. -/
theorem mem_factOf_resolutionIds {concept : Concept} {id : Uuid}
    (h : id ∈ (factOf captures editions rows concept).1.resolutionIds) : id ∈ rows.map (·.resolution.id) := by
  have hfound : id ∈ sortedSet ((conceptRows rows concept).map (·.resolution.id)) := by
    simp only [factOf] at h
    cases hhead : (conceptRows rows concept).head? with
    | none =>
      rw [hhead] at h
      cases h
    | some row =>
      rw [hhead] at h
      dsimp only at h
      split_ifs at h <;> exact h
  obtain ⟨row, hrow, rfl⟩ := List.mem_map.mp (mem_sortedSet.mp hfound)
  exact List.mem_map_of_mem (List.mem_of_mem_filter hrow)

end Fact

/-! ### The selection -/

/-- The rows that a query selects agree in what a selection takes from the first of them: the
finalists have one reporting basis, and the resolutions of each concept, when they agree, one reason. -/
def Uniform (s : Store) (q : PitQuery) : Prop :=
  ∀ captures, bundle .stored s q = .ok captures →
    let chosen := edition (eligibleCoverage .stored s q captures) q
    (∀ a ∈ chosen.1, ∀ b ∈ chosen.1, a.coverage.reportingBasis = b.coverage.reportingBasis) ∧
    (chosen.2 = none → ∀ concept ∈ q.concepts,
      let found := conceptRows (s.resolutionRows q (chosen.1.map (·.coverage.id))) concept
      ¬ Disagree found → ∀ a ∈ found, ∀ b ∈ found, a.resolution.reason = b.resolution.reason)

/-- What a selection does not take from the first of several rows. -/
def SelectionContent.settled (x : SelectionContent) : SelectionContent :=
  { x with facts := x.facts.map SelectedFact.settled, reportingBasis := none }

/-- Two states have the same rows for a query, in any order. -/
structure SameRows (q : PitQuery) (s s' : Store) : Prop where
  bundle : bundle .stored s q = bundle .stored s' q
  statements : ∀ captures, (eligibleCoverage .stored s q captures).Perm (eligibleCoverage .stored s' q captures)
  resolutions : ∀ captures ids, ids ⊆ (eligibleCoverage .stored s q captures).map (·.coverage.id) →
    (s.resolutionRows q ids).Perm (s'.resolutionRows q ids) ∧
      ∀ resolutionIds, resolutionIds ⊆ (s.resolutionRows q ids).map (·.resolution.id) →
        (s.qualityRows q resolutionIds).Perm (s'.qualityRows q resolutionIds)
  events : ∀ captures filingIds, (s.affectingEvents q captures filingIds).Perm (s'.affectingEvents q captures filingIds)

/-- A state has the same rows as itself. -/
theorem SameRows.refl (q : PitQuery) (s : Store) : SameRows q s s :=
  ⟨rfl, fun _ => .refl _, fun _ _ _ => ⟨.refl _, fun _ _ => .refl _⟩, fun _ _ => .refl _⟩

variable {digest : SelectionContent → String} {s' : Store}

section Result

variable {rows rows' : List CoverageRow} (h : rows.Perm rows') {flags flags' : List String} (hflags : flags.Perm flags')

include h hflags

/-- A selection depends on its rows by their identifiers and the basis of the first of them. -/
theorem result_perm (hbasis : ∀ a ∈ rows', ∀ b ∈ rows', a.coverage.reportingBasis = b.coverage.reportingBasis)
    (facts : List SelectedFact) (qualityFlagIds eventIds : List Uuid) :
    result digest q flags rows facts qualityFlagIds eventIds =
      result digest q flags' rows' facts qualityFlagIds eventIds := by
  simp only [result, sortedSet_perm (h.map (·.coverage.id)), sortedSet_perm (h.map (·.coverage.filingVersionId)),
    sortedSet_perm hflags, hflags.all_eq, head?_map_perm h.symm (·.coverage.reportingBasis) hbasis]

/-- What is settled of a selection depends on the identifiers of its rows and what is settled of its facts. -/
theorem result_settled {facts facts' : List SelectedFact}
    (hfacts : facts.map SelectedFact.settled = facts'.map SelectedFact.settled) (qualityFlagIds eventIds : List Uuid) :
    (result digest q flags rows facts qualityFlagIds eventIds).toSelectionContent.settled =
      (result digest q flags' rows' facts' qualityFlagIds eventIds).toSelectionContent.settled := by
  have hobserved : ∀ facts : List SelectedFact, (facts.all fun fact => decide (fact.status = .observed)) =
      (facts.map SelectedFact.settled).all fun fact => decide (fact.status = .observed) := by
    intro facts
    rw [List.all_map]
    rfl
  simp only [result, sealed, SelectionContent.settled, sortedSet_perm (h.map (·.coverage.id)),
    sortedSet_perm (h.map (·.coverage.filingVersionId)), sortedSet_perm hflags, hflags.all_eq]
  rw [hobserved facts, hobserved facts', hfacts]

end Result

/-- The flags of an edition, in another order. -/
theorem flags_perm {facts facts' : List (SelectedFact × Option String)} (hfacts : facts.map (·.2) = facts'.map (·.2))
    {quality quality' : List DataQualityFlag} (hquality : quality.Perm quality') {events events' : List FilingEvent}
    (hevents : events.Perm events') (flags : List String) :
    (facts.filterMap (·.2) ++
        (if ∃ row ∈ quality, row.severity ∈ [.error, .blocking] then ["blocking_quality_flag"] else []) ++
        events.map (·.eventKind.flag) ++ flags).Perm
      (facts'.filterMap (·.2) ++
        (if ∃ row ∈ quality', row.severity ∈ [.error, .blocking] then ["blocking_quality_flag"] else []) ++
        events'.map (·.eventKind.flag) ++ flags) := by
  have hfilter : ∀ facts : List (SelectedFact × Option String), facts.filterMap (·.2) = (facts.map (·.2)).filterMap id := by
    intro facts
    rw [List.filterMap_map]
    rfl
  simp only [hquality.mem_iff, hfilter, hfacts]
  exact ((List.Perm.refl _).append (hevents.map _)).append (.refl _)

/-- The selection of an edition depends on the rows of the state and, in the reasons of its facts and
its reporting basis, on their order. -/
theorem readEdition_same (digest : SelectionContent → String) (o : RowOrder) (hs : SameRows q s s') {captures : List Uuid} {editions editions' : List CoverageRow}
    (h : editions.Perm editions') (hrows : ∀ a ∈ editions, a ∈ eligibleCoverage .stored s q captures)
    (hstored : ∀ a ∈ editions', a ∈ s'.coverageRows q) (hversions : ¬ SeveralVersions editions') :
    (readEdition digest o s q captures editions).toSelectionContent.settled =
        (readEdition digest .stored s' q captures editions').toSelectionContent.settled ∧
      ((∀ a ∈ editions', ∀ b ∈ editions', a.coverage.reportingBasis = b.coverage.reportingBasis) →
        (∀ concept ∈ q.concepts,
          let found := conceptRows (s'.resolutionRows q (editions'.map (·.coverage.id))) concept
          ¬ Disagree found → ∀ a ∈ found, ∀ b ∈ found, a.resolution.reason = b.resolution.reason) →
        readEdition digest o s q captures editions = readEdition digest .stored s' q captures editions') := by
  have hversion : ∀ a ∈ editions', ∀ b ∈ editions', a.version = b.version ∧ a.filing = b.filing := by
    intro a ha b hb
    refine version_eq_of_coverageRows (hstored a ha) (hstored b hb) ?_
    by_contra hne
    exact hversions ⟨a, ha, b, hb, hne⟩
  have haccession := (head?_map_perm h.symm (·.filing.accession) fun a ha b hb => by rw [(hversion a ha b hb).2]).symm
  have hfiled := (head?_map_perm h.symm (·.version.filedDate) fun a ha b hb => by rw [(hversion a ha b hb).1]).symm
  obtain ⟨hresolutions, hquality⟩ := hs.resolutions captures (editions.map (·.coverage.id)) (List.map_subset _ hrows)
  rw [resolutionRows_perm (s := s') (h.map (·.coverage.id))] at hresolutions
  have harranged := (o.perm _).trans hresolutions
  have hfact := fun concept => factOf_settled captures harranged (.refl _) haccession hfiled concept
  have hevents := (o.perm _).trans (hs.events captures (editions.map (·.filing.id)))
  rw [affectingEvents_perm (s := s') captures (h.map (·.filing.id))] at hevents
  -- The facts name the same resolutions, hence the quality flags are the same.
  have hids : (q.concepts.map (factOf captures editions (o.arrange (s.resolutionRows q (editions.map (·.coverage.id)))))).flatMap
      (·.1.resolutionIds) = (q.concepts.map (factOf captures editions' (s'.resolutionRows q (editions'.map (·.coverage.id))))).flatMap
        (·.1.resolutionIds) := by
    have hconcept := fun concept => congrArg (·.resolutionIds) (hfact concept).1
    simp only [SelectedFact.settled] at hconcept
    simp only [List.flatMap_map, hconcept]
  have hqualityRows := (o.perm _).trans (hquality ((q.concepts.map
    (factOf captures editions' (s'.resolutionRows q (editions'.map (·.coverage.id))))).flatMap (·.1.resolutionIds)) <| by
      intro id hid
      obtain ⟨pair, hpair, hmem⟩ := List.mem_flatMap.mp hid
      obtain ⟨concept, -, rfl⟩ := List.mem_map.mp hpair
      exact (hresolutions.map _).mem_iff.mpr (mem_factOf_resolutionIds hmem))
  have hraised : (q.concepts.map (factOf captures editions (o.arrange (s.resolutionRows q (editions.map (·.coverage.id)))))).map
      (·.2) = (q.concepts.map (factOf captures editions' (s'.resolutionRows q (editions'.map (·.coverage.id))))).map (·.2) := by
    rw [List.map_map, List.map_map]
    exact List.map_congr_left fun concept _ => (hfact concept).2
  have hflags := flags_perm hraised hqualityRows hevents (modeFlags q)
  simp only [readEdition, RowOrder.stored_arrange, hids, sortedSet_perm (hqualityRows.map (·.id)),
    sortedSet_perm (hevents.map (·.id))]
  refine ⟨result_settled h hflags ?_ _ _, fun hbasis hreason => ?_⟩
  · rw [List.map_map, List.map_map, List.map_map, List.map_map]
    exact List.map_congr_left fun concept _ => (hfact concept).1
  · have hsame := List.map_congr_left fun concept hconcept =>
      factOf_perm captures harranged (.refl _) haccession hfiled concept (hreason concept hconcept)
    rw [hsame] at hflags ⊢
    exact result_perm h hflags hbasis _ _ _

/-- A read depends on the rows of the state; it depends on their order only in the reasons of the facts
and in the reporting basis, and only if the rows are not uniform. -/
theorem readStatement_same (hs : SameRows q s s') :
    (readStatement digest o s q).toSelectionContent.settled = (readStatement digest .stored s' q).toSelectionContent.settled ∧
      (Uniform s' q → readStatement digest o s q = readStatement digest .stored s' q) := by
  unfold readStatement
  rw [bundle_order, hs.bundle]
  cases hbundle : bundle .stored s' q with
  | error flag => exact ⟨rfl, fun _ => rfl⟩
  | ok captures =>
    have hrows := (eligibleCoverage_perm (o := o) (s := s) (q := q) captures).trans (hs.statements captures)
    have hchosen : (edition (eligibleCoverage o s q captures) q).1.Perm
        (edition (eligibleCoverage .stored s' q captures) q).1 := finalists_perm hrows q.mode
    have hempty : eligibleCoverage o s q captures = [] ↔ eligibleCoverage .stored s' q captures = [] := by
      simp only [List.eq_nil_iff_forall_not_mem, hrows.mem_iff]
    simp only [hempty]
    split_ifs
    · exact ⟨rfl, fun _ => rfl⟩
    rw [edition_snd_perm hrows q]
    cases hflag : (edition (eligibleCoverage .stored s' q captures) q).2 with
    | some flag =>
      exact ⟨result_settled hchosen (.refl _) rfl _ _,
        fun huniform => result_perm hchosen (.refl _) (huniform captures hbundle).1 _ _ _⟩
    | none =>
      obtain ⟨hsettled, hsame⟩ := readEdition_same digest o hs hchosen
        (fun a ha => (eligibleCoverage_perm captures).mem_iff.mp (mem_of_mem_finalists ha))
        (fun a ha => (mem_eligibleCoverage.mp (mem_of_mem_finalists ha)).1) (edition_snd_eq_none.mp hflag).1
      refine ⟨hsettled, fun huniform => ?_⟩
      obtain ⟨hbasis, hreason⟩ := huniform captures hbundle
      exact hsame hbasis (hreason hflag)

/-- A read of uniform rows does not depend on their order. -/
theorem readStatement_order (h : Uniform s q) : readStatement digest o s q = readStatement digest .stored s q :=
  (readStatement_same (.refl q s)).2 h

/-- What is hashed does not depend on the hash. -/
theorem toSelectionContent_readStatement (digest digest' : SelectionContent → String) :
    (readStatement digest o s q).toSelectionContent = (readStatement digest' o s q).toSelectionContent := by
  unfold readStatement
  cases bundle o s q with
  | error flag => rfl
  | ok captures =>
    dsimp only
    split_ifs
    · rfl
    · cases (edition (eligibleCoverage o s q captures) q).2 <;> rfl

/-! ### Reads that depend on the order -/

/-- The rows in the order of their insertion, from one of them on and then from the first. -/
def RowOrder.rotated (count : ℕ) : RowOrder where
  arrange rows := rows.rotate count
  perm rows := rows.rotate_perm count

/-- Any row of a query may come first. -/
theorem exists_rotated {α : Type} {rows : List α} {row : α} (h : row ∈ rows) :
    ∃ count rest, (RowOrder.rotated count).arrange rows = row :: rest := by
  obtain ⟨before, after, rfl⟩ := List.append_of_mem h
  exact ⟨before.length, after ++ before, List.rotate_append_length_eq before (row :: after)⟩

/-- The reporting basis of a read is that of the first of its finalists. -/
theorem readStatement_reportingBasis {captures : List Uuid} (h : bundle .stored s q = .ok captures) :
    (readStatement digest o s q).reportingBasis =
      (finalists q.mode (eligibleCoverage o s q captures)).head?.map (·.coverage.reportingBasis) := by
  unfold readStatement
  rw [bundle_order, h]
  dsimp only
  split_ifs with hempty
  · rw [hempty]
    rfl
  · cases (edition (eligibleCoverage o s q captures) q).2 <;> rfl

/-- The facts of a read of an edition that nothing blocks. -/
theorem readStatement_facts {captures : List Uuid} (h : bundle .stored s q = .ok captures)
    (hrows : eligibleCoverage .stored s q captures ≠ [])
    (hflag : (edition (eligibleCoverage .stored s q captures) q).2 = none) :
    (readStatement digest o s q).facts = q.concepts.map fun concept =>
      (factOf captures (finalists q.mode (eligibleCoverage o s q captures)) (o.arrange (s.resolutionRows q
        ((finalists q.mode (eligibleCoverage .stored s q captures)).map (·.coverage.id)))) concept).1 := by
  have hperm := eligibleCoverage_perm (o := o) (s := s) (q := q) captures
  have hempty : eligibleCoverage o s q captures ≠ [] := by
    intro hnil
    rw [hnil, List.nil_perm] at hperm
    exact hrows hperm
  have hfinalists := finalists_perm hperm q.mode
  unfold readStatement
  rw [bundle_order, h]
  dsimp only
  rw [if_neg hempty, edition_snd_perm hperm q, hflag]
  simp only [readEdition, edition, result, sealed, List.map_map, Function.comp_def,
    resolutionRows_perm (s := s) (q := q) (hfinalists.map (·.coverage.id))]

/-- Any finalist is the first one in some order. -/
theorem exists_finalist_first {captures : List Uuid} {a : CoverageRow}
    (h : a ∈ finalists q.mode (eligibleCoverage .stored s q captures)) :
    ∃ o : RowOrder, (finalists q.mode (eligibleCoverage o s q captures)).head? = some a := by
  obtain ⟨hstored, heligible⟩ := mem_eligibleCoverage.mp (mem_of_mem_finalists h)
  obtain ⟨count, rest, hrotated⟩ := exists_rotated hstored
  have hmem : a ∈ finalists q.mode (eligibleCoverage (.rotated count) s q captures) :=
    (finalists_perm (eligibleCoverage_perm captures) q.mode).mem_iff.mpr h
  obtain ⟨p, hp⟩ := finalists_eq_filter (eligibleCoverage (.rotated count) s q captures) q.mode
  have hpa : p a := by
    rw [hp] at hmem
    exact List.of_mem_filter hmem
  have hrows : eligibleCoverage (.rotated count) s q captures =
      a :: rest.filter fun row => decide (row.Eligible q captures) := by
    rw [eligibleCoverage, hrotated, List.filter_cons_of_pos]
    exact decide_eq_true heligible
  refine ⟨.rotated count, ?_⟩
  rw [hp, hrows, List.filter_cons_of_pos hpa]
  rfl

/-- Any resolution of a concept is the first one in some order. -/
theorem exists_resolution_first {ids : List Uuid} {concept : Concept} {a : ResolutionRow}
    (h : a ∈ conceptRows (s.resolutionRows q ids) concept) :
    ∃ o : RowOrder, (conceptRows (o.arrange (s.resolutionRows q ids)) concept).head? = some a := by
  obtain ⟨hstored, hconcept⟩ := List.mem_filter.mp h
  obtain ⟨count, rest, hrotated⟩ := exists_rotated hstored
  refine ⟨.rotated count, ?_⟩
  simp only [hrotated, conceptRows, List.filter_cons, hconcept, if_true, List.head?_cons]

/-- A read that does not depend on the order of the rows is of uniform rows. -/
theorem uniform_of_order (h : ∀ o o', readStatement digest o s q = readStatement digest o' s q) : Uniform s q := by
  intro captures hbundle
  refine ⟨?_, ?_⟩
  · have hfirst : ∀ a ∈ finalists q.mode (eligibleCoverage .stored s q captures),
        (readStatement digest .stored s q).reportingBasis = some a.coverage.reportingBasis := by
      intro a ha
      obtain ⟨o, hhead⟩ := exists_finalist_first ha
      rw [h .stored o, readStatement_reportingBasis hbundle, hhead]
      rfl
    intro a ha b hb
    exact Option.some.inj ((hfirst a ha).symm.trans (hfirst b hb))
  · intro hflag concept hconcept found hagree a ha b hb
    have hrows : eligibleCoverage .stored s q captures ≠ [] := by
      intro hnil
      have hstored := List.mem_of_mem_filter ha
      simp [hnil, edition, finalists, choose, Store.resolutionRows, Table.select] at hstored
    have hfacts : ∀ o o' : RowOrder, _ := fun o o' => congrArg (·.facts) (h o o')
    simp only [readStatement_facts hbundle hrows hflag, List.map_inj_left] at hfacts
    have hreason : ∀ row ∈ found, ∃ o : RowOrder, (factOf captures
        (finalists q.mode (eligibleCoverage o s q captures)) (o.arrange (s.resolutionRows q
          ((finalists q.mode (eligibleCoverage .stored s q captures)).map (·.coverage.id)))) concept).1.reason =
            row.resolution.reason := by
      intro row hrow
      obtain ⟨o, hhead⟩ := exists_resolution_first hrow
      have hperm : (conceptRows (o.arrange _) concept).Perm found := (o.perm _).filter _
      refine ⟨o, (factOf_reason _ _ _ _).trans ?_⟩
      refine (if_neg fun hall => hagree ((disagree_perm hperm).mp hall)).trans ?_
      simp only [edition] at hhead
      rw [hhead]
      rfl
    obtain ⟨o, ho⟩ := hreason a ha
    obtain ⟨o', ho'⟩ := hreason b hb
    rw [← ho, ← ho', hfacts o o' concept hconcept]

end EquityEval.PointInTime
