import EquityEval.Normalization.Selection

/-!
# The verdict of a concept

When the reported rows of a concept agree with the filing and hold one number, one of them is chosen, if
the reviewed preference settles between tags and the representatives stand alike in the document. A
preference for a tag that the filing does not use is the exception: the choice then fails.
-/

namespace EquityEval.Normalization

open Workflow DecimalArithmetic Gregorian PointInTime
open Fundamentals (PeriodSpec UnitSpec ScopeSpec)

namespace Question

section Definitions

variable (env : Readers) (q : Question)

/-- The rows that are reported for a concept: those of the qualified tags of its rule that are of the filing and of the exact
period and unit. -/
def reported (facts : List (String × SourceValue)) : List Sighting :=
  ((rowsOf facts q.filing q.rule.qualifiedTags).filterMap (·.sighting env)).filter fun s => q.Exact s

/-- There are rows, all of them agree with the filing, and they hold one finite number. -/
structure Consistent (rows : List Sighting) : Prop where
  nonempty : rows ≠ []
  agree : ∀ s ∈ rows, q.Agrees s
  finite : ∀ s ∈ rows, (numericOf env s.fields).error? = none
  same : ∀ a ∈ rows, ∀ b ∈ rows, SameNumber env a b

/-- The rows come from several tags. -/
def SeveralTags (rows : List Sighting) : Prop := ∃ a ∈ rows, ∃ b ∈ rows, a.qualified ≠ b.qualified

/-- The preferred tag of the rule is among those of the rows. -/
def HasPreferred (rows : List Sighting) : Prop := ∃ s ∈ rows, q.rule.preferredTag = some s.qualified

instance (rows : List Sighting) : Decidable (SeveralTags rows) := inferInstanceAs (Decidable (∃ _ ∈ _, ∃ _ ∈ _, _))

instance (rows : List Sighting) : Decidable (q.HasPreferred rows) := inferInstanceAs (Decidable (∃ _ ∈ _, _))

/-- The rows that stand for all: those of the preferred tag if it occurs, otherwise all. -/
def representatives (rows : List Sighting) : List Sighting :=
  if q.HasPreferred rows then rows.filter fun s => q.rule.preferredTag = some s.qualified else rows

/-- The rows stand alike in the document. -/
def Identical (rows : List Sighting) : Prop := ∀ a ∈ rows, ∀ b ∈ rows, a.raw env = b.raw env

/-- The rows settle the value of the concept. -/
def Selects (rows : List Sighting) : Prop :=
  q.Consistent env rows ∧ (SeveralTags rows → q.HasPreferred rows) ∧ Identical env (q.representatives rows)

/-- The preference of the rule is one that the choice can follow: where one tag is reported, no other one is preferred; and
an empty preference does not stand between tags that are reported alike. -/
def PreferenceApplies (rows : List Sighting) : Prop :=
  q.Consistent env rows →
    (¬ SeveralTags rows → ∀ tag ∈ q.rule.preferredTag, tag = "" ∨ q.HasPreferred rows) ∧
      (SeveralTags rows → q.rule.preferredTag = some "" → ¬ Identical env rows)

end Definitions

variable {env : Readers} {q : Question} {rows considered : List Sighting}

/-- What a verdict says when the rows settle the value or do not. -/
def Verdict.Fits (env : Readers) (q : Question) (rows : List Sighting) (v : Verdict) : Prop :=
  (q.Selects env rows ∧ ∃ s ∈ q.representatives rows, v = ⟨.observed, none, some s⟩) ∨
    (¬ q.Selects env rows ∧ v.status ≠ .observed ∧ v.chosen = none ∧ v.reason ≠ none)

/-! ### The choice -/

/-- The choice among rows that hold one number. -/
theorem choose_eq (hrows : q.Consistent env rows) (hnamed : ∀ s ∈ rows, s.tagName = s.qualified) :
    (SeveralTags rows ∧ (q.rule.preferredTag = none ∨ q.preferred rows = []) →
      q.choose env rows = some ⟨.ambiguous, some "equivalent_tags_without_reviewed_preference", none⟩) ∧
    (¬ (SeveralTags rows ∧ (q.rule.preferredTag = none ∨ q.preferred rows = [])) → ¬ Identical env (q.preferred rows) →
      q.choose env rows = some ⟨.ambiguous, some "same_value_different_source_metadata", none⟩) ∧
    (¬ (SeveralTags rows ∧ (q.rule.preferredTag = none ∨ q.preferred rows = [])) → Identical env (q.preferred rows) →
      q.choose env rows = ((q.preferred rows).argmin fun s => s.index).map fun s => ⟨.observed, none, some s⟩) := by
  have hseveral : (∃ a ∈ rows, ∃ b ∈ rows, a.tagName ≠ b.tagName) ↔ SeveralTags rows := by
    constructor
    · rintro ⟨a, ha, b, hb, hne⟩
      rw [hnamed a ha, hnamed b hb] at hne
      exact ⟨a, ha, b, hb, hne⟩
    · rintro ⟨a, ha, b, hb, hne⟩
      rw [← hnamed a ha, ← hnamed b hb] at hne
      exact ⟨a, ha, b, hb, hne⟩
  have hidentical : (∃ a ∈ q.preferred rows, ∃ b ∈ q.preferred rows, a.raw env ≠ b.raw env) ↔ ¬ Identical env (q.preferred rows) := by
    simp only [Identical, not_forall, exists_prop]
  refine ⟨fun h => ?_, fun h hne => ?_, fun h heq => ?_⟩
  · rw [choose, if_neg (not_not.mpr hrows.same), if_pos ⟨hseveral.mpr h.1, h.2⟩]
  · rw [choose, if_neg (not_not.mpr hrows.same), if_neg (fun hc => h ⟨hseveral.mp hc.1, hc.2⟩), if_pos (hidentical.mpr hne)]
  · rw [choose, if_neg (not_not.mpr hrows.same), if_neg (fun hc => h ⟨hseveral.mp hc.1, hc.2⟩),
      if_neg (fun hc => hidentical.mp hc heq)]

/-- Where no tag is preferred, or none that a row could have, all rows stand for themselves. -/
theorem preferred_eq_rows (hnamed : ∀ s ∈ rows, s.qualified ≠ "") (h : ∀ tag ∈ q.rule.preferredTag, tag = "") :
    q.preferred rows = rows ∧ ¬ q.HasPreferred rows := by
  have hnone : ¬ q.HasPreferred rows := fun ⟨s, hs, htag⟩ => hnamed s hs (h _ htag)
  refine ⟨?_, hnone⟩
  unfold preferred
  split
  · rfl
  next tag htag => rw [if_pos (h tag htag)]

/-- Where a tag is preferred, the preferred rows are those of it. -/
theorem preferred_eq_filter {tag : String} (hnamed : ∀ s ∈ rows, s.tagName = s.qualified)
    (htag : q.rule.preferredTag = some tag) (hne : tag ≠ "") :
    q.preferred rows = rows.filter fun s => q.rule.preferredTag = some s.qualified := by
  unfold preferred
  rw [htag]
  simp only [if_neg hne]
  refine List.filter_congr fun s hs => ?_
  rw [hnamed s hs]
  simp [eq_comm]

/-- Some row of the preferred tag is one when it occurs. -/
theorem filter_ne_nil_iff : (rows.filter fun s => q.rule.preferredTag = some s.qualified) ≠ [] ↔ q.HasPreferred rows := by
  rw [ne_eq, List.filter_eq_nil_iff]
  simp [HasPreferred]

/-- The least of some rows is one of them. -/
theorem exists_argmin (hne : rows ≠ []) : ∃ s ∈ rows, rows.argmin (fun s => s.index) = some s := by
  obtain ⟨s, hs⟩ := Option.ne_none_iff_exists'.mp fun h : rows.argmin (fun s => s.index) = none =>
    hne (List.argmin_eq_none.mp h)
  exact ⟨s, List.argmin_mem hs, hs⟩

/-- A choice that the preference settles fits. -/
theorem choose_fits (hrows : q.Consistent env rows) (hnamed : ∀ s ∈ rows, s.tagName = s.qualified ∧ s.qualified ≠ "")
    (happlies : q.PreferenceApplies env rows) : ∃ v, q.choose env rows = some v ∧ v.Fits env q rows := by
  obtain ⟨hequivalent, hdifferent, hchosen⟩ := choose_eq hrows fun s hs => (hnamed s hs).1
  obtain ⟨hsingle, hempty⟩ := happlies hrows
  by_cases hpreferred : q.HasPreferred rows
  · -- the representatives are the preferred rows
    obtain ⟨s, hs, htag⟩ := hpreferred
    have hpreferred : q.HasPreferred rows := ⟨s, hs, htag⟩
    have hfilter := preferred_eq_filter (fun s hs => (hnamed s hs).1) htag (hnamed s hs).2
    have hrepresentatives : q.representatives rows = q.preferred rows := by rw [representatives, if_pos hpreferred, hfilter]
    have hnonempty : q.preferred rows ≠ [] := by rw [hfilter]; exact filter_ne_nil_iff.mpr hpreferred
    have hsettled : ¬ (SeveralTags rows ∧ (q.rule.preferredTag = none ∨ q.preferred rows = [])) := by
      rintro ⟨-, hnone | hnil⟩
      · rw [htag] at hnone
        cases hnone
      · exact hnonempty hnil
    by_cases hidentical : Identical env (q.preferred rows)
    · obtain ⟨chosen, hmem, hargmin⟩ := exists_argmin hnonempty
      refine ⟨_, (hchosen hsettled hidentical).trans (by rw [hargmin]; rfl), .inl ⟨⟨hrows, fun _ => hpreferred, ?_⟩, chosen, ?_, rfl⟩⟩
      · rwa [hrepresentatives]
      · rwa [hrepresentatives]
    · refine ⟨_, hdifferent hsettled hidentical, .inr ⟨fun h => hidentical ?_, by decide, rfl, by decide⟩⟩
      rw [← hrepresentatives]
      exact h.2.2
  · -- no row is preferred, so that all of them stand for the concept
    have hrepresentatives : q.representatives rows = rows := if_neg hpreferred
    by_cases hseveral : SeveralTags rows
    · have hnot : ¬ q.Selects env rows := fun h => hpreferred (h.2.1 hseveral)
      by_cases hblank : ∀ tag ∈ q.rule.preferredTag, tag = ""
      · have hall := (preferred_eq_rows (fun s hs => (hnamed s hs).2) hblank).1
        cases htag : q.rule.preferredTag with
        | none => exact ⟨_, hequivalent ⟨hseveral, .inl htag⟩, .inr ⟨hnot, by decide, rfl, by decide⟩⟩
        | some tag =>
          have hdiffer := hempty hseveral (by rw [htag, hblank tag htag])
          have hsettled : ¬ (SeveralTags rows ∧ (q.rule.preferredTag = none ∨ q.preferred rows = [])) := by
            rw [htag, hall]
            rintro ⟨-, hnone | hnil⟩
            · cases hnone
            · exact hrows.nonempty hnil
          exact ⟨_, hdifferent hsettled (by rwa [hall]), .inr ⟨hnot, by decide, rfl, by decide⟩⟩
      · push Not at hblank
        obtain ⟨tag, htag, hne⟩ := hblank
        have hnil : q.preferred rows = [] := by
          rw [preferred_eq_filter (fun s hs => (hnamed s hs).1) htag hne]
          exact not_not.mp fun h => hpreferred (filter_ne_nil_iff.mp h)
        exact ⟨_, hequivalent ⟨hseveral, .inr hnil⟩, .inr ⟨hnot, by decide, rfl, by decide⟩⟩
    · have hblank : ∀ tag ∈ q.rule.preferredTag, tag = "" := fun tag htag =>
        (hsingle hseveral tag htag).resolve_right hpreferred
      have hall := (preferred_eq_rows (fun s hs => (hnamed s hs).2) hblank).1
      have hsettled : ¬ (SeveralTags rows ∧ (q.rule.preferredTag = none ∨ q.preferred rows = [])) := fun h => hseveral h.1
      by_cases hidentical : Identical env rows
      · obtain ⟨chosen, hmem, hargmin⟩ := exists_argmin hrows.nonempty
        refine ⟨_, (hchosen hsettled (by rwa [hall])).trans (by rw [hall, hargmin]; rfl),
          .inl ⟨⟨hrows, fun h => absurd h hseveral, ?_⟩, chosen, ?_, rfl⟩⟩
        · rwa [hrepresentatives]
        · rwa [hrepresentatives]
      · refine ⟨_, hdifferent hsettled (by rwa [hall]), .inr ⟨fun h => hidentical ?_, by decide, rfl, by decide⟩⟩
        rw [← hrepresentatives]
        exact h.2.2

/-- A choice that is observed exactly when the rows settle the value has a preference that applies. -/
theorem applies_of_choose {v : Verdict} (hnamed : ∀ s ∈ rows, s.tagName = s.qualified ∧ s.qualified ≠ "")
    (h : q.choose env rows = some v) (hlaw : v.status = .observed ↔ q.Selects env rows) : q.PreferenceApplies env rows := by
  intro hrows
  obtain ⟨-, -, hchosen⟩ := choose_eq hrows fun s hs => (hnamed s hs).1
  refine ⟨fun hsingle tag htag => ?_, fun hseveral hempty hidentical => ?_⟩
  · by_contra hother
    rw [not_or] at hother
    have hnil : q.preferred rows = [] := by
      rw [preferred_eq_filter (fun s hs => (hnamed s hs).1) htag hother.1]
      exact not_not.mp fun h => hother.2 (filter_ne_nil_iff.mp h)
    have hnone := hchosen (fun hc => hsingle hc.1) (by rw [hnil]; exact fun _ ha => absurd ha List.not_mem_nil)
    rw [hnil, h] at hnone
    cases hnone
  · have hblank : ∀ tag ∈ q.rule.preferredTag, tag = "" := by
      rw [hempty]
      rintro tag ⟨⟩
      rfl
    obtain ⟨hall, hnone⟩ := preferred_eq_rows (fun s hs => (hnamed s hs).2) hblank
    have hsettled : ¬ (SeveralTags rows ∧ (q.rule.preferredTag = none ∨ q.preferred rows = [])) := by
      rw [hempty, hall]
      rintro ⟨-, hnone | hnil⟩
      · cases hnone
      · exact hrows.nonempty hnil
    obtain ⟨chosen, -, hargmin⟩ := exists_argmin hrows.nonempty
    have hobserved := hchosen hsettled (by rwa [hall])
    rw [hall, hargmin, h] at hobserved
    cases hobserved
    exact hnone ((hlaw.mp rfl).2.1 hseveral)

/-! ### What rejects a row -/

/-- The reasons for which a row has no value are known. -/
theorem error_mem {fields : List (String × SourceValue)} {reason : String} (h : (numericOf env fields).error? = some reason) :
    reason ∈ valueErrors := by
  unfold numericOf at h
  split at h
  · cases h
    decide
  · cases h
    decide
  · split at h <;> cases h
    decide
  · cases h
    decide

/-- A row of an excluded scope is rejected for that alone. -/
theorem excluded_ne (rationale : String) :
    "excluded_economic_scope: " ++ rationale ≠ "filing_metadata_conflict" ∧
      "excluded_economic_scope: " ++ rationale ∉ valueErrors := by
  have hhead : ∀ text : String, "excluded_economic_scope: " ++ rationale = text → text.toList.head? = some 'e' := by
    rintro text rfl
    rw [String.toList_append]
    rfl
  refine ⟨fun h => absurd (hhead _ h) (by decide), fun h => ?_⟩
  have hall : ∀ text ∈ valueErrors, text.toList.head? ≠ some 'e' := by decide
  exact hall _ h (hhead _ rfl)

/-- What rejects a row of a rejected tag. -/
theorem rejection_of_rejected {s : Sighting} (h : s.qualified ∈ q.rule.rejectedTags) :
    q.rejection env s = some ("excluded_economic_scope: " ++ q.rule.rationale) := if_pos h

/-- What rejects a row of another period or unit. -/
theorem rejection_of_not_exact {s : Sighting} (h : s.qualified ∉ q.rule.rejectedTags) (hexact : ¬ q.Exact s) :
    q.rejection env s = some "different_period_or_unit" := by
  rw [rejection, if_neg h, if_pos hexact]

/-- What rejects a row of the exact period and unit. -/
theorem rejection_of_exact {s : Sighting} (h : s.qualified ∉ q.rule.rejectedTags) (hexact : q.Exact s) :
    q.rejection env s = if ¬ q.Agrees s then some "filing_metadata_conflict" else (numericOf env s.fields).error? := by
  rw [rejection, if_neg h, if_neg (not_not.mpr hexact)]

/-- A row is rejected for the filing's metadata when it is exact and does not agree. -/
theorem rejection_eq_conflict {s : Sighting} : q.rejection env s = some "filing_metadata_conflict" ↔
    (s.qualified ∉ q.rule.rejectedTags ∧ q.Exact s) ∧ ¬ q.Agrees s := by
  by_cases hrejected : s.qualified ∈ q.rule.rejectedTags
  · simp only [rejection_of_rejected hrejected, Option.some.injEq, (excluded_ne _).1, hrejected, not_true, false_and]
  by_cases hexact : q.Exact s
  · rw [rejection_of_exact hrejected hexact]
    by_cases hagrees : q.Agrees s
    · rw [if_neg (not_not.mpr hagrees)]
      refine iff_of_false (fun h => ?_) fun h => h.2 hagrees
      exact absurd (error_mem h) (by decide)
    · rw [if_pos hagrees]
      exact iff_of_true rfl ⟨⟨hrejected, hexact⟩, hagrees⟩
  · rw [rejection_of_not_exact hrejected hexact]
    exact iff_of_false (by decide) fun h => hexact h.1.2

/-- A row is rejected for its value when it is exact, agrees and has none. -/
theorem rejection_mem_valueErrors {s : Sighting} {reason : String} (h : q.rejection env s = some reason)
    (hreason : reason ∈ valueErrors) :
    (s.qualified ∉ q.rule.rejectedTags ∧ q.Exact s) ∧ (numericOf env s.fields).error? = some reason := by
  by_cases hrejected : s.qualified ∈ q.rule.rejectedTags
  · rw [rejection_of_rejected hrejected] at h
    cases h
    exact absurd hreason (excluded_ne _).2
  by_cases hexact : q.Exact s
  · rw [rejection_of_exact hrejected hexact] at h
    split at h
    · cases h
      exact absurd hreason (by decide)
    · exact ⟨⟨hrejected, hexact⟩, h⟩
  · rw [rejection_of_not_exact hrejected hexact] at h
    cases h
    exact absurd hreason (by decide)

/-! ### The verdict -/

section Judged

variable {facts : List (String × SourceValue)} (htags : (q.rule.qualifiedTags ++ q.rule.rejectedTags).Nodup)
  (hconsidered : considered =
    (rowsOf facts q.filing q.rule.qualifiedTags ++ rowsOf facts q.filing q.rule.rejectedTags).filterMap (·.sighting env))

include hconsidered in
/-- A considered row is of one of the tags of the rule, and can be read. -/
theorem mem_considered {s : Sighting} (hs : s ∈ considered) :
    (s.qualified ∈ q.rule.qualifiedTags ∨ s.qualified ∈ q.rule.rejectedTags) ∧
      (s.tagName = s.qualified ∧ s.qualified ≠ "") ∧ unitSpec env s.rawUnit = some s.unit := by
  rw [hconsidered] at hs
  obtain ⟨row, hrow, hsighting⟩ := List.mem_filterMap.mp hs
  obtain ⟨rfl, -, hunit⟩ := sighting_eq_some hsighting
  rcases List.mem_append.mp hrow with hrow | hrow
  · obtain ⟨htag, hnamed⟩ := mem_rowsOf hrow
    exact ⟨.inl htag, hnamed, hunit⟩
  · obtain ⟨htag, hnamed⟩ := mem_rowsOf hrow
    exact ⟨.inr htag, hnamed, hunit⟩

include htags hconsidered in
/-- The reported rows are the considered ones of no rejected tag that are exact. -/
theorem mem_reported {s : Sighting} :
    s ∈ q.reported env facts ↔ s ∈ considered ∧ s.qualified ∉ q.rule.rejectedTags ∧ q.Exact s := by
  rw [reported, hconsidered, List.filterMap_append, List.mem_filter, List.mem_append, decide_eq_true_eq]
  have hof : ∀ tags, s ∈ (rowsOf facts q.filing tags).filterMap (·.sighting env) → s.qualified ∈ tags := by
    intro tags hs
    obtain ⟨row, hrow, hsighting⟩ := List.mem_filterMap.mp hs
    rw [(sighting_eq_some hsighting).1]
    exact (mem_rowsOf hrow).1
  have hdisjoint := (List.nodup_append.mp htags).2.2
  constructor
  · rintro ⟨hs, hexact⟩
    exact ⟨.inl hs, fun hrejected => hdisjoint _ (hof _ hs) _ hrejected rfl, hexact⟩
  · rintro ⟨hs | hs, hrejected, hexact⟩
    · exact ⟨hs, hexact⟩
    · exact absurd (hof _ hs) hrejected

include htags hconsidered in
/-- The reported rows have named tags. -/
theorem named_of_reported {s : Sighting} (hs : s ∈ q.reported env facts) : s.tagName = s.qualified ∧ s.qualified ≠ "" :=
  (mem_considered hconsidered ((mem_reported htags hconsidered).mp hs).1).2.1

include htags hconsidered in
/-- The eligible rows of consistent ones are the reported ones. -/
theorem eligible_eq_reported (hrows : q.Consistent env (q.reported env facts)) :
    (considered.filter fun s => q.rejection env s = none) = q.reported env facts := by
  have hexcluded : (((rowsOf facts q.filing q.rule.rejectedTags).filterMap (·.sighting env)).filter
      fun s => q.rejection env s = none) = [] := by
    rw [List.filter_eq_nil_iff]
    intro s hs
    obtain ⟨row, hrow, hsighting⟩ := List.mem_filterMap.mp hs
    have hrejected : s.qualified ∈ q.rule.rejectedTags := by
      rw [(sighting_eq_some hsighting).1]
      exact (mem_rowsOf hrow).1
    simp [rejection_of_rejected hrejected]
  rw [hconsidered, List.filterMap_append, List.filter_append, hexcluded, List.append_nil, reported]
  refine List.filter_congr fun s hs => decide_eq_decide.mpr ?_
  have hmem : s ∈ considered := by
    rw [hconsidered, List.filterMap_append]
    exact List.mem_append_left _ hs
  have hrejected : s.qualified ∉ q.rule.rejectedTags := by
    obtain ⟨row, hrow, hsighting⟩ := List.mem_filterMap.mp hs
    rw [(sighting_eq_some hsighting).1]
    exact fun h => (List.nodup_append.mp htags).2.2 _ (mem_rowsOf hrow).1 _ h rfl
  constructor
  · intro hnone
    by_contra hexact
    rw [rejection_of_not_exact hrejected hexact] at hnone
    cases hnone
  · intro hexact
    have hreported := (mem_reported htags hconsidered).mpr ⟨hmem, hrejected, hexact⟩
    rw [rejection_of_exact hrejected hexact, if_neg (not_not.mpr (hrows.agree s hreported))]
    exact hrows.finite s hreported

include htags hconsidered in
/-- The verdict of consistent rows is the choice among them. -/
theorem judge_of_consistent (hrows : q.Consistent env (q.reported env facts)) :
    q.judge env considered = q.choose env (q.reported env facts) := by
  have hconflict : ¬ ∃ s ∈ considered, q.rejection env s = some "filing_metadata_conflict" := by
    rintro ⟨s, hs, hrejection⟩
    obtain ⟨hexact, hagrees⟩ := rejection_eq_conflict.mp hrejection
    exact hagrees (hrows.agree s ((mem_reported htags hconsidered).mpr ⟨hs, hexact⟩))
  have hinvalid : ((considered.filter fun s => q.Exact s).filterMap (q.rejection env)).filter (· ∈ valueErrors) = [] := by
    rw [List.filter_eq_nil_iff]
    intro reason hreason
    obtain ⟨s, hs, hrejection⟩ := List.mem_filterMap.mp hreason
    rw [decide_eq_true_eq]
    intro hmem
    obtain ⟨hexact, herror⟩ := rejection_mem_valueErrors hrejection hmem
    rw [hrows.finite s ((mem_reported htags hconsidered).mpr ⟨(List.mem_filter.mp hs).1, hexact⟩)] at herror
    cases herror
  simp only [judge, if_neg hconflict, hinvalid, ne_eq, not_true, if_false, eligible_eq_reported htags hconsidered hrows,
    if_neg hrows.nonempty]

include htags hconsidered in
/-- Rows that are not consistent are given no value. -/
theorem judge_of_not_consistent (hrows : ¬ q.Consistent env (q.reported env facts)) :
    ∃ v, q.judge env considered = some v ∧ v.status ≠ .observed ∧ v.chosen = none ∧ v.reason ≠ none := by
  simp only [judge]
  split
  · exact ⟨_, rfl, by decide, rfl, by decide⟩
  next hconflict =>
    split
    next hinvalid =>
      refine ⟨_, rfl, FactStatus.noConfusion, rfl, ?_⟩
      rw [ne_eq, List.min?_eq_none_iff]
      exact hinvalid
    next hinvalid =>
      rw [not_not, List.filter_eq_nil_iff] at hinvalid
      split
      · exact ⟨_, rfl, by decide, rfl, by decide⟩
      next heligible =>
        -- the eligible rows are the reported ones, which hold different numbers
        have hagree : ∀ s ∈ q.reported env facts, q.Agrees s := by
          intro s hs
          obtain ⟨hmem, hexact⟩ := (mem_reported htags hconsidered).mp hs
          by_contra hagrees
          exact hconflict ⟨s, hmem, rejection_eq_conflict.mpr ⟨hexact, hagrees⟩⟩
        have hfinite : ∀ s ∈ q.reported env facts, (numericOf env s.fields).error? = none := by
          intro s hs
          obtain ⟨hmem, hrejected, hexact⟩ := (mem_reported htags hconsidered).mp hs
          by_contra herror
          obtain ⟨reason, hreason⟩ := Option.ne_none_iff_exists'.mp herror
          have hrejection : q.rejection env s = some reason := by
            rw [rejection_of_exact hrejected hexact, if_neg (not_not.mpr (hagree s hs)), hreason]
          refine hinvalid reason (List.mem_filterMap.mpr ⟨s, List.mem_filter.mpr ⟨hmem, decide_eq_true hexact⟩, hrejection⟩) ?_
          exact decide_eq_true (error_mem hreason)
        have hsub : ∀ s, s ∈ considered.filter (fun s => q.rejection env s = none) ↔ s ∈ q.reported env facts := by
          intro s
          rw [List.mem_filter, decide_eq_true_eq, mem_reported htags hconsidered]
          refine and_congr_right fun hs => ⟨fun hnone => ?_, fun h => ?_⟩
          · have hrejected : s.qualified ∉ q.rule.rejectedTags := fun h => by
              rw [rejection_of_rejected h] at hnone
              cases hnone
            refine ⟨hrejected, ?_⟩
            by_contra hexact
            rw [rejection_of_not_exact hrejected hexact] at hnone
            cases hnone
          · have hreported := (mem_reported htags hconsidered).mpr ⟨hs, h⟩
            rw [rejection_of_exact h.1 h.2, if_neg (not_not.mpr (hagree s hreported)), hfinite s hreported]
        have hdifferent : ¬ ∀ a ∈ considered.filter (fun s => q.rejection env s = none),
            ∀ b ∈ considered.filter (fun s => q.rejection env s = none), SameNumber env a b := by
          intro hsame
          refine hrows ⟨fun hnil => heligible ?_, hagree, hfinite, fun a ha b hb => hsame a ((hsub a).mpr ha) b ((hsub b).mpr hb)⟩
          rw [List.eq_nil_iff_forall_not_mem]
          intro s hs
          rw [hsub s, hnil] at hs
          cases hs
        rw [choose, if_pos hdifferent]
        exact ⟨_, rfl, by decide, rfl, by decide⟩

include htags hconsidered in
/-- The verdict fits the reported rows, if the preference applies to them. -/
theorem judge_fits (happlies : q.PreferenceApplies env (q.reported env facts)) :
    ∃ v, q.judge env considered = some v ∧ v.Fits env q (q.reported env facts) := by
  by_cases hrows : q.Consistent env (q.reported env facts)
  · rw [judge_of_consistent htags hconsidered hrows]
    exact choose_fits hrows (fun s hs => named_of_reported htags hconsidered hs) happlies
  · obtain ⟨v, hv, hstatus, hchosen, hreason⟩ := judge_of_not_consistent htags hconsidered hrows
    exact ⟨v, hv, .inr ⟨fun h => hrows h.1, hstatus, hchosen, hreason⟩⟩

include htags hconsidered in
/-- A verdict that is observed exactly when the reported rows settle the value has a preference that applies. -/
theorem applies_of_judge {v : Verdict} (h : q.judge env considered = some v)
    (hlaw : v.status = .observed ↔ q.Selects env (q.reported env facts)) : q.PreferenceApplies env (q.reported env facts) := by
  intro hrows
  rw [judge_of_consistent htags hconsidered hrows] at h
  exact applies_of_choose (fun s hs => named_of_reported htags hconsidered hs) h hlaw hrows

end Judged

end Question

end EquityEval.Normalization
