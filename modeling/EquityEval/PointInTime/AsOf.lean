import EquityEval.PointInTime.Editions

/-!
# Reads as of a filing date

A read as filed by a date depends on the pinned bundle and on evidence of filings filed by the date.
Two states may differ in the statements, resolutions, observations and flags of later filings and in
events that are announced later: as long as the bundle is accepted alike and the flags without a
resolution are the same, the selection is the same.
-/

namespace EquityEval.PointInTime

open Relational Workflow Ingestion TransitionSystem Store
open Discovery (sortedSet sortedSet_perm mem_sortedSet)

variable {s s' : Store} {q : PitQuery} {digest : SelectionContent → String} {cutoff : Day}

/-- A statement is of a version filed after a date. -/
def LaterStatement (s : Store) (cutoff : Day) (c : StatementCoverage) : Prop :=
  ∃ version ∈ s.version? c.filingVersionId, cutoff < version.filedDate

/-- A flag is of a resolution of a statement filed after a date. -/
def LaterResolution (s : Store) (cutoff : Day) (f : DataQualityFlag) : Prop :=
  ∃ r ∈ f.resolutionId.bind s.resolution?, ∃ c ∈ s.coverage? r.coverageId, LaterStatement s cutoff c

/-- The flag that the normalizer raises for a statement as a whole, without a resolution. -/
def statementFlag (id issuerId : Uuid) (companyfacts : String) (c : StatementCoverage) (rule message : String) :
    DataQualityFlag where
  id
  batchId := some c.batchId
  resolutionId := none
  issuerId
  securityId := none
  periodId := some c.periodId
  ruleKey := rule
  severity := .error
  message
  evidenceReferences := [c.evidenceLocator, companyfacts]

/-- A flag concerns a filing filed after a date, by its resolution or as the flag of a statement. -/
def ConcernsLater (s : Store) (cutoff : Day) (f : DataQualityFlag) : Prop :=
  LaterResolution s cutoff f ∨ ∃ c ∈ s.coverage.rows, LaterStatement s cutoff c ∧
    ∃ companyfacts rule message, f = statementFlag f.id f.issuerId companyfacts c rule message

/-- The statements that a query asks for and that were filed by a date. -/
def earlyRows (s : Store) (q : PitQuery) (cutoff : Day) : List CoverageRow :=
  (s.coverageRows q).filter fun row => decide (row.version.filedDate ≤ cutoff)

/-- The pinned events that were announced by a date. -/
def earlyEvents (s : Store) (q : PitQuery) (cutoff : Day) : List (FilingEvent × FilingVersion) :=
  (s.eventRows q).filter fun row => decide (row.1.announcedDate ≤ cutoff)

/-- Two states agree on the pinned batches, captures, events and flags of a query, except for rows of
filings filed after a date, flags that concern them, and events announced after the date. -/
structure AgreeBefore (concerning : Store → Day → DataQualityFlag → Prop) (cutoff : Day) (q : PitQuery) (s s' : Store) :
    Prop where
  batches : (s.batchRows q).Perm (s'.batchRows q)
  inputs : (s.inputRows q).Perm (s'.inputRows q)
  statements : (earlyRows s q cutoff).Perm (earlyRows s' q cutoff)
  resolutions : ∀ ids, ids ⊆ (earlyRows s q cutoff).map (·.coverage.id) →
    (s.resolutionRows q ids).Perm (s'.resolutionRows q ids)
  flags : ∀ f : DataQualityFlag, (∃ batch ∈ f.batchId, batch ∈ q.batchIds) →
    (f ∈ s.flags.rows ∧ ¬ concerning s cutoff f ↔ f ∈ s'.flags.rows ∧ ¬ concerning s' cutoff f)
  additional : (s.additionalFlags q).Perm (s'.additionalFlags q)
  events : (earlyEvents s q cutoff).Perm (earlyEvents s' q cutoff)
  scopes : ∀ row ∈ earlyEvents s q cutoff, ∀ scope : FilingEventScope, scope.eventId = row.1.id →
    (scope ∈ s.scopes.rows ↔ scope ∈ s'.scopes.rows)

/-- Agreement is symmetric. -/
theorem AgreeBefore.symm {concerning : Store → Day → DataQualityFlag → Prop} (h : AgreeBefore concerning cutoff q s s') :
    AgreeBefore concerning cutoff q s' s where
  batches := h.batches.symm
  inputs := h.inputs.symm
  statements := h.statements.symm
  resolutions ids hids := (h.resolutions ids fun _ hid => (h.statements.map _).mem_iff.mpr (hids hid)).symm
  flags f hf := (h.flags f hf).symm
  additional := h.additional.symm
  events := h.events.symm
  scopes row hrow scope hscope := (h.scopes row (h.events.mem_iff.mpr hrow) scope hscope).symm

/-- What the bundle checks of each pinned event: its issuer and the capture of its source filing. -/
def eventManifest (s : Store) (q : PitQuery) : List (Uuid × Uuid) :=
  (s.eventRows q).map fun row => (row.1.issuerId, row.2.metadataCaptureId)

/-! ### The parts of a read -/

section Agree

variable (h : AgreeBefore LaterResolution cutoff q s s') (hcutoff : q.filedCutoff = some cutoff)

include h

/-- The bundle is accepted alike by states that agree and have the same event manifest. -/
theorem bundle_agree (hmanifest : (eventManifest s q).Perm (eventManifest s' q)) :
    bundle .stored s q = bundle .stored s' q := by
  have hlength : (s.eventRows q).length = (s'.eventRows q).length := by
    have := hmanifest.length_eq
    simpa only [eventManifest, List.length_map] using this
  have hexists : ∀ p : Uuid × Uuid → Prop, (∃ row ∈ s.eventRows q, p (row.1.issuerId, row.2.metadataCaptureId)) ↔
      ∃ row ∈ s'.eventRows q, p (row.1.issuerId, row.2.metadataCaptureId) := by
    intro p
    have hmem : (∃ x ∈ eventManifest s q, p x) ↔ ∃ x ∈ eventManifest s' q, p x := by simp only [hmanifest.mem_iff]
    simpa only [eventManifest, List.mem_map, exists_exists_and_eq_and] using hmem
  have hissuer := hexists fun x => x.1 ≠ q.issuerId ∨ x.2 ∉ q.captureIds
  have hvintage := fun selected : List Uuid => hexists fun x => x.2 ∉ selected
  simp only at hissuer hvintage
  simp only [bundle, RowOrder.stored_arrange, h.batches.mem_iff, h.batches.length_eq, h.inputs.mem_iff, hlength, hissuer,
    hvintage, h.additional.mem_iff, h.additional.length_eq, sortedSet_perm (h.inputs.map (·.input.sourceCaptureId)),
    selectSourceCaptures_perm h.inputs]
  congr!

/-- A flag of a pinned batch without a later resolution is in both states. -/
theorem flag_agree {f : DataQualityFlag} (hf : f ∈ s.flags.rows) (hpinned : ∃ batch ∈ f.batchId, batch ∈ q.batchIds)
    (hearly : ¬ LaterResolution s cutoff f) : f ∈ s'.flags.rows :=
  ((h.flags f hpinned).mp ⟨hf, hearly⟩).1

/-- A quality flag that a read of early statements uses is used in both states. -/
theorem mem_qualityRows_agree {ids resolutionIds : List Uuid} (hids : ids ⊆ (earlyRows s q cutoff).map (·.coverage.id))
    (hresolutions : resolutionIds ⊆ (s.resolutionRows q ids).map (·.resolution.id)) {f : DataQualityFlag}
    (hf : f ∈ s.qualityRows q resolutionIds) : f ∈ s'.qualityRows q resolutionIds := by
  obtain ⟨hmem, hused⟩ := (Table.mem_select _).mp hf
  refine (Table.mem_select _).mpr ?_
  rcases hused with hadditional | ⟨hpinned, ⟨hnone, hperiod⟩ | ⟨r, hr, hid⟩⟩
  · have hrow := h.additional.mem_iff.mp ((Table.mem_select _).mpr ⟨hmem, hadditional⟩)
    exact ⟨((Table.mem_select _).mp hrow).1, .inl hadditional⟩
  · refine ⟨flag_agree h hmem hpinned ?_, .inr ⟨hpinned, .inl ⟨hnone, hperiod⟩⟩⟩
    rintro ⟨r, hr, -⟩
    rw [hnone] at hr
    cases hr
  · -- The resolution is of an early statement, and the other state has it too.
    obtain ⟨row, hrow, hsame⟩ := List.mem_map.mp (hresolutions hid)
    obtain ⟨hstored, hcoverage, -⟩ := mem_resolutionRows hrow
    obtain ⟨rid, hrid, hlookup⟩ := Option.bind_eq_some_iff.mp hr
    obtain ⟨hr', hkey⟩ := Table.lookup_eq_some hlookup
    have heq : row.resolution = r := List.inj_on_of_nodup_map s.resolutions.valid.1 hstored hr' hsame
    obtain ⟨hstored', -, -⟩ := mem_resolutionRows ((h.resolutions ids hids).mem_iff.mp hrow)
    refine ⟨flag_agree h hmem hpinned ?_, .inr ⟨hpinned, .inr ⟨r, ?_, hid⟩⟩⟩
    · rintro ⟨r', hlater, c, hc, version, hversion, hdate⟩
      rw [Option.mem_unique hlater hr, ← heq] at hc
      obtain ⟨early, hearly, hof⟩ := List.mem_map.mp (hids hcoverage)
      obtain ⟨hrows, hfiled⟩ := List.mem_filter.mp hearly
      obtain ⟨hcovered, hof', -⟩ := mem_coverageRows hrows
      obtain ⟨hc', hcid⟩ := Table.lookup_eq_some hc
      have hc'' : early.coverage = c := List.inj_on_of_nodup_map s.coverage.valid.1 hcovered hc' (hof.trans hcid.symm)
      rw [← hc'', hof'] at hversion
      cases hversion
      exact absurd hdate (not_lt.mpr (of_decide_eq_true hfiled))
    · rw [hrid, ← hkey, ← heq]
      exact Table.lookup_of_mem s'.resolutions.valid.1 hstored'

include hcutoff

/-- The events that restrict an edition are among those announced by the cutoff, alike in both states. -/
theorem affectingEvents_agree (captures filingIds : List Uuid) :
    (s.affectingEvents q captures filingIds).Perm (s'.affectingEvents q captures filingIds) := by
  have hearly : ∀ x : Store, x.affectingEvents q captures filingIds = ((earlyEvents x q cutoff).filter fun row =>
      decide (row.1.issuerId = q.issuerId ∧ row.2.metadataCaptureId ∈ captures ∧
        row.1.eventKind ∈ [.nonReliance, .withdrawal] ∧
        ∃ scope ∈ x.scopes.rows, scope.eventId = row.1.id ∧ (∃ filing ∈ scope.filingId, filing ∈ filingIds) ∧
          (scope.periodId = none ∨ scope.periodId = some q.periodId) ∧
          ∀ concept ∈ scope.conceptStd, concept ∈ q.concepts)).map (·.1) := by
    intro x
    rw [Store.affectingEvents, earlyEvents, List.filter_filter]
    congr 1
    refine List.filter_congr fun row _ => ?_
    rw [Bool.eq_iff_iff, Bool.and_eq_true_iff, decide_eq_true_iff, decide_eq_true_iff, decide_eq_true_iff, hcutoff]
    simp only [Option.mem_some_iff, forall_eq']
    constructor
    · rintro ⟨hissuer, hearly, hrest⟩
      exact ⟨⟨hissuer, hrest⟩, hearly⟩
    · rintro ⟨⟨hissuer, hrest⟩, hearly⟩
      exact ⟨hissuer, hearly, hrest⟩
  rw [hearly, hearly]
  refine List.Perm.map _ ?_
  refine (h.events.filter _).trans (.of_eq (List.filter_congr fun row hrow => ?_))
  rw [decide_eq_decide]
  -- The scopes of an event that was announced by the cutoff are the same.
  have hscopes := h.scopes row (h.events.mem_iff.mpr hrow)
  refine and_congr_right fun _ => and_congr_right fun _ => and_congr_right fun _ => exists_congr fun scope => ?_
  constructor
  · rintro ⟨hscope, hof, hrest⟩
    exact ⟨(hscopes scope hof).mp hscope, hof, hrest⟩
  · rintro ⟨hscope, hof, hrest⟩
    exact ⟨(hscopes scope hof).mpr hscope, hof, hrest⟩

omit h in
/-- The eligible statements were filed by the cutoff. -/
theorem eligibleCoverage_early (s : Store) (captures : List Uuid) :
    eligibleCoverage .stored s q captures = (earlyRows s q cutoff).filter fun row => decide (row.Eligible q captures) := by
  rw [eligibleCoverage, earlyRows, List.filter_filter, RowOrder.stored_arrange]
  refine List.filter_congr fun row _ => ?_
  rw [Bool.eq_iff_iff, Bool.and_eq_true_iff, decide_eq_true_iff, decide_eq_true_iff]
  exact ⟨fun heligible => ⟨heligible, heligible.2.2.2 cutoff hcutoff⟩, And.left⟩

/-- States that agree before the cutoff have the same rows for a query, if they have the same event manifest. -/
theorem sameRows_agree (hmanifest : (eventManifest s q).Perm (eventManifest s' q)) : SameRows q s s' where
  bundle := bundle_agree h hmanifest
  statements captures := by
    rw [eligibleCoverage_early hcutoff, eligibleCoverage_early hcutoff]
    exact h.statements.filter _
  resolutions captures ids hids := by
    have hearly : ids ⊆ (earlyRows s q cutoff).map (·.coverage.id) := by
      intro id hid
      obtain ⟨row, hrow, rfl⟩ := List.mem_map.mp (hids hid)
      rw [eligibleCoverage_early hcutoff] at hrow
      exact List.mem_map_of_mem (List.mem_of_mem_filter hrow)
    have hearly' : ids ⊆ (earlyRows s' q cutoff).map (·.coverage.id) :=
      fun id hid => (h.statements.map _).mem_iff.mp (hearly hid)
    have hresolutions := h.resolutions ids hearly
    refine ⟨hresolutions, fun resolutionIds hids' => ?_⟩
    have hsame : resolutionIds ⊆ (s'.resolutionRows q ids).map (·.resolution.id) :=
      fun id hid => (hresolutions.map _).mem_iff.mp (hids' hid)
    refine (List.perm_ext_iff_of_nodup ?_ ?_).mpr fun f => ⟨?_, ?_⟩
    · exact (List.Nodup.of_map _ s.flags.valid.1).filter _
    · exact (List.Nodup.of_map _ s'.flags.valid.1).filter _
    · exact mem_qualityRows_agree h hearly hids'
    · exact mem_qualityRows_agree h.symm hearly' hsame
  events := affectingEvents_agree h hcutoff

end Agree

/-- A read as filed by a date does not depend on what was filed or announced later: in states that agree
before the date, and that have the same event manifest, it differs at most in the reasons of the facts
and the reporting basis, and in nothing if the rows are uniform. -/
theorem read_as_filed (digest : SelectionContent → String) (hcutoff : q.filedCutoff = some cutoff)
    (h : AgreeBefore LaterResolution cutoff q s s') (hmanifest : (eventManifest s q).Perm (eventManifest s' q)) :
    (∀ o o', (readStatement digest o s q).toSelectionContent.settled = (readStatement digest o' s' q).toSelectionContent.settled) ∧
      (Uniform s q → ∀ o o', readStatement digest o s q = readStatement digest o' s' q) := by
  have hrows := sameRows_agree h.symm hcutoff hmanifest.symm
  constructor
  · intro o o'
    exact (readStatement_same (.refl q s)).1.trans (readStatement_same hrows).1.symm
  · intro huniform o o'
    exact (readStatement_order huniform).trans ((readStatement_same hrows).2 huniform).symm

/-! ### Later filings in the pinned batches -/

/-- States with the same observations and captures, of which one has more resolutions of other
statements, have the same rows of an edition. -/
theorem resolutionRows_extends {ids : List Uuid} (h : s.resolutions.Extends (fun r => r.coverageId ∈ ids) s'.resolutions)
    (hobservations : s.observations.rows = s'.observations.rows) (hcaptures : s.captures.rows = s'.captures.rows) :
    s.resolutionRows q ids = s'.resolutionRows q ids := by
  have hobservation : ∀ id, s.observation? id = s'.observation? id := fun id => by
    simp only [Store.observation?, Table.lookup, hobservations]
  have hcapture : ∀ id, s.capture? id = s'.capture? id := fun id => by simp only [Store.capture?, Table.lookup, hcaptures]
  simp only [Store.resolutionRows, hobservation, hcapture]
  rw [h.select]
  exact fun _ hselected => hselected.1

/-- Two stores have the same rows and the same transaction. -/
def Store.equals (s s' : Store) : Bool :=
  decide (s.transaction = s'.transaction) && decide (s.captures.rows = s'.captures.rows) &&
    decide (s.filings.rows = s'.filings.rows) && decide (s.versions.rows = s'.versions.rows) &&
    decide (s.batches.rows = s'.batches.rows) && decide (s.inputs.rows = s'.inputs.rows) &&
    decide (s.coverage.rows = s'.coverage.rows) && decide (s.observations.rows = s'.observations.rows) &&
    decide (s.resolutions.rows = s'.resolutions.rows) && decide (s.flags.rows = s'.flags.rows) &&
    decide (s.events.rows = s'.events.rows) && decide (s.scopes.rows = s'.scopes.rows)

/-- A store is its rows and its transaction. -/
theorem eq_of_equals (h : s.equals s' = true) : s = s' := by
  cases s
  cases s'
  simp only [Store.equals, Bool.and_eq_true, decide_eq_true_eq] at h
  obtain ⟨⟨⟨⟨⟨⟨⟨⟨⟨⟨⟨rfl, h⟩, h'⟩, h₁⟩, h₂⟩, h₃⟩, h₄⟩, h₅⟩, h₆⟩, h₇⟩, h₈⟩, h₉⟩ := h
  congr <;> apply Table.ext <;> assumption

/-- A store with the rows that a transaction commits is a state of the system. -/
theorem reachable_of_equals (writes : List Write)
    (h : (Store.empty.commit (fun _ => true) writes).toOption.any (·.equals s) = true) : evidenceSystem.Reachable s := by
  obtain ⟨committed, hcommitted, hsame⟩ := Option.any_eq_true _ _ |>.mp h
  rw [← eq_of_equals hsame]
  exact .step (a := ⟨fun _ => true, writes⟩) (.initial rfl) (toOption_eq_some.mp hcommitted)

/-- A published batch of a filing, with more writes before its publication and after it. -/
def batchWith (more after : List Write) : List Write :=
  [.capture (companyfacts 1), .filing ⟨1, 1, "0001637459-18-000015"⟩, .version ⟨1, 1, 1, 10, none, none, sampleHash 'c'⟩,
    .filing ⟨2, 1, "0001637459-19-000049"⟩, .version ⟨2, 2, 1, 20, none, none, sampleHash 'f'⟩,
    .batch (buildingBatch 1), .input ⟨1, 1, "financial"⟩, .coverage (incomeStatement 1 1 1),
    .observation (observedRevenue 1 1), .resolution (resolvedRevenue 1 1 1)] ++ more ++ publication 1 :: after

/-- The store with the statement of the first filing only. -/
def firstStore : Store where
  transaction := 2
  captures := ⟨[companyfacts 1], by decide +kernel⟩
  filings := ⟨[⟨1, 1, "0001637459-18-000015"⟩, ⟨2, 1, "0001637459-19-000049"⟩], by decide +kernel⟩
  versions := ⟨[⟨1, 1, 1, 10, none, none, sampleHash 'c'⟩, ⟨2, 2, 1, 20, none, none, sampleHash 'f'⟩], by decide +kernel⟩
  batches := ⟨[{ buildingBatch 1 with
    state := .published, publishedAt := some 4, inputManifestHash := some (sampleHash 'd'),
    outputManifestHash := some (sampleHash 'e') }], by decide +kernel⟩
  inputs := ⟨[⟨1, 1, "financial"⟩], by decide +kernel⟩
  coverage := ⟨[incomeStatement 1 1 1], by decide +kernel⟩
  observations := ⟨[observedRevenue 1 1], by decide +kernel⟩
  resolutions := ⟨[resolvedRevenue 1 1 1], by decide +kernel⟩
  flags := Store.empty.flags
  events := Store.empty.events
  scopes := Store.empty.scopes

/-- The batch of the first filing can be published. -/
theorem reachable_firstStore : evidenceSystem.Reachable firstStore :=
  reachable_of_equals (batchWith [] []) (by decide +kernel)

/-- The store with a statement of the later filing that has no revenue. -/
def laterMissingStore : Store :=
  { firstStore with
    coverage := ⟨[incomeStatement 1 1 1, incomeStatement 2 1 2], by decide +kernel⟩
    resolutions := ⟨[resolvedRevenue 1 1 1, missingRevenue 2 2 "no_exact_reviewed_observation"], by decide +kernel⟩
    flags := ⟨[missingFlag 1 1 2], by decide +kernel⟩ }

/-- A statement of the later filing that is not resolved. -/
def unresolvedLater : StatementCoverage := { incomeStatement 2 1 2 with coverageState := .unresolved }

/-- The flag of the unresolved statement. -/
def unresolvedFlag : DataQualityFlag :=
  statementFlag 2 1 "1" unresolvedLater "unresolved_coverage" "Unresolved coverage blocks usable fallback to an older edition"

/-- The store with the unresolved statement of the later filing. -/
def laterUnresolvedStore : Store :=
  { firstStore with
    coverage := ⟨[incomeStatement 1 1 1, unresolvedLater], by decide +kernel⟩
    resolutions := ⟨[resolvedRevenue 1 1 1, missingRevenue 2 2 "unresolved_coverage"], by decide +kernel⟩
    flags := ⟨[missingFlag 1 1 2, unresolvedFlag], by decide +kernel⟩ }

/-- The store with an event of the later filing that withdraws reliance on the first one. -/
def laterEventStore : Store :=
  { firstStore with
    events := ⟨[⟨1, 1, 1, .nonReliance, 20, 2⟩], by decide +kernel⟩
    scopes := ⟨[⟨1, some 1, none, none⟩], by decide +kernel⟩ }

/-- States that differ in later statements, their resolutions and flags agree before a date. -/
theorem agreeBefore_of_rows {concerning : Store → Day → DataQualityFlag → Prop}
    (hresolutions : s.resolutions.Extends (fun r => r.coverageId ∈ (earlyRows s q cutoff).map (·.coverage.id)) s'.resolutions)
    (hsame : s.batchRows q = s'.batchRows q ∧ s.inputRows q = s'.inputRows q ∧ earlyRows s q cutoff = earlyRows s' q cutoff ∧
      s.additionalFlags q = s'.additionalFlags q ∧ earlyEvents s q cutoff = earlyEvents s' q cutoff)
    (hrows : s.observations.rows = s'.observations.rows ∧ s.captures.rows = s'.captures.rows ∧ s.flags.rows = [])
    (hflags : ∀ f ∈ s'.flags.rows, concerning s' cutoff f) (hevents : earlyEvents s q cutoff = []) :
    AgreeBefore concerning cutoff q s s' where
  batches := .of_eq hsame.1
  inputs := .of_eq hsame.2.1
  statements := .of_eq hsame.2.2.1
  resolutions ids hids :=
    .of_eq (resolutionRows_extends (hresolutions.weaken fun _ hr => hids hr) hrows.1 hrows.2.1)
  flags f _ := by
    rw [hrows.2.2]
    exact ⟨fun hf => absurd hf.1 (List.not_mem_nil), fun hf => absurd (hflags f hf.1) hf.2⟩
  additional := .of_eq hsame.2.2.2.1
  events := .of_eq hsame.2.2.2.2
  scopes row hrow := by
    rw [hevents] at hrow
    cases hrow

/-- The later statement without a revenue does not change the read as filed by a date before it. -/
theorem read_as_filed_sample :
    (∀ o o', (readStatement (fun _ => "") o firstStore (asFiledQuery 15 [] (by decide))).toSelectionContent.settled =
        (readStatement (fun _ => "") o' laterMissingStore (asFiledQuery 15 [] (by decide))).toSelectionContent.settled) ∧
      (Uniform firstStore (asFiledQuery 15 [] (by decide)) → ∀ o o',
        readStatement (fun _ => "") o firstStore (asFiledQuery 15 [] (by decide)) =
          readStatement (fun _ => "") o' laterMissingStore (asFiledQuery 15 [] (by decide))) := by
  refine read_as_filed (fun _ => "") (rfl : _ = some (15 : Day))  ?_ (by decide +kernel)
  refine agreeBefore_of_rows ⟨[missingRevenue 2 2 "no_exact_reviewed_observation"], by decide +kernel, by decide +kernel⟩
    (by decide +kernel) (by decide +kernel) ?_ (by decide +kernel)
  unfold LaterResolution LaterStatement
  decide +kernel

/-- A later announcement of a pinned event, and an unresolved statement of a later filing in a pinned
batch, change the read as filed by a date before them. -/
theorem later_evidence_changes_read :
    (∃ (s s' : Store) (q : PitQuery) (cutoff : Day), evidenceSystem.Reachable s ∧ evidenceSystem.Reachable s' ∧
      q.mode = .asFiledByDate ∧ q.filedCutoff = some cutoff ∧ AgreeBefore ConcernsLater cutoff q s s' ∧
      (readStatement (fun _ => "") .stored s q).usableForValuation = false ∧
      (readStatement (fun _ => "") .stored s' q).usableForValuation = true) ∧
    ∃ (s s' : Store) (q : PitQuery) (cutoff : Day), evidenceSystem.Reachable s ∧ evidenceSystem.Reachable s' ∧
      q.mode = .asFiledByDate ∧ q.filedCutoff = some cutoff ∧ AgreeBefore ConcernsLater cutoff q s s' ∧
      (eventManifest s q).Perm (eventManifest s' q) ∧
      (readStatement (fun _ => "") .stored s q).usableForValuation = true ∧
      (readStatement (fun _ => "") .stored s' q).usableForValuation = false := by
  constructor
  · refine ⟨firstStore, laterEventStore, asFiledQuery 15 [1] (by decide), 15, reachable_firstStore,
      reachable_of_equals (batchWith [] [.event ⟨1, 1, 1, .nonReliance, 20, 2⟩, .scope ⟨1, some 1, none, none⟩])
        (by decide +kernel), rfl, rfl, ?_, by decide +kernel, by decide +kernel⟩
    exact agreeBefore_of_rows (.of_eq (by decide +kernel)) (by decide +kernel) (by decide +kernel) (fun f hf => by cases hf)
      (by decide +kernel)
  · refine ⟨firstStore, laterUnresolvedStore, asFiledQuery 15 [] (by decide), 15, reachable_firstStore,
      reachable_of_equals (batchWith [.coverage unresolvedLater, .resolution (missingRevenue 2 2 "unresolved_coverage"),
        .flag (missingFlag 1 1 2), .flag unresolvedFlag] []) (by decide +kernel), rfl, rfl, ?_, by decide +kernel,
      by decide +kernel, by decide +kernel⟩
    refine agreeBefore_of_rows ⟨[missingRevenue 2 2 "unresolved_coverage"], by decide +kernel, by decide +kernel⟩
      (by decide +kernel) (by decide +kernel) ?_ (by decide +kernel)
    intro f hf
    rcases List.mem_pair.mp hf with rfl | rfl
    · left
      unfold LaterResolution LaterStatement
      decide +kernel
    · refine .inr ⟨unresolvedLater, by decide +kernel, ?_, "1", "unresolved_coverage", _, rfl⟩
      unfold LaterStatement
      decide +kernel

end EquityEval.PointInTime
