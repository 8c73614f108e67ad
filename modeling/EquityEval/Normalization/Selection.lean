import EquityEval.Normalization.Bundle
import Mathlib.Data.List.Sigma

/-!
# The rows of a concept

Each row of a document stands in one place, which its tag, its unit and its index name. The rows that
are reported for a concept are those of the qualified tags of its rule, of the filing, and of the exact
period and unit; the verdict of everything that was considered depends on these alone.
-/

namespace EquityEval.Normalization

open Workflow DecimalArithmetic Gregorian PointInTime
open Fundamentals (PeriodSpec UnitSpec ScopeSpec)
open Text (Tree)

/-! ### Places -/

/-- A tag is its namespace and its name. -/
theorem join_splitTag {qualified nameSpace tag : String} (h : splitTag qualified = some (nameSpace, tag)) :
    nameSpace ++ ":" ++ tag = qualified := by
  unfold splitTag at h
  split at h
  · cases h
  next colon rest hrest =>
    cases h
    have hcolon : colon = ':' := by
      have hhead := List.head?_dropWhile_not (fun c => decide (c ≠ ':')) qualified.toList
      rw [hrest] at hhead
      simpa using hhead
    apply String.toList_injective
    simp only [String.toList_append, List.append_assoc, String.toList_ofList]
    change qualified.toList.takeWhile (· ≠ ':') ++ ([':'] ++ rest) = qualified.toList
    calc qualified.toList.takeWhile (· ≠ ':') ++ ([':'] ++ rest)
        = qualified.toList.takeWhile (· ≠ ':') ++ qualified.toList.dropWhile (· ≠ ':') := by rw [hrest, hcolon]; rfl
      _ = qualified.toList := List.takeWhile_append_dropWhile

/-- A tag with a namespace is not empty. -/
theorem ne_empty_of_splitTag {qualified : String} (h : (splitTag qualified).isSome = true) : qualified ≠ "" := by
  rintro rfl
  cases h

/-- The rows of a unit are of its tag, and of it. -/
theorem mem_unitRows {accession qualified nameSpace tag : String} {definition : List (String × SourceValue)}
    {unit : String × SourceValue} {row : SourceRow} (h : row ∈ unitRows accession qualified nameSpace tag definition unit) :
    row.qualified = qualified ∧ row.nameSpace = nameSpace ∧ row.tag = tag ∧ row.rawUnit = unit.1 := by
  obtain ⟨item, -, hrow⟩ := List.mem_filterMap.mp h
  obtain ⟨fields, -, hrow⟩ := Option.bind_eq_some_iff.mp hrow
  split at hrow <;> cases hrow
  exact ⟨rfl, rfl, rfl, rfl⟩

/-- The rows of a tag are of it, and it has a namespace. -/
theorem mem_tagRows {facts : List (String × SourceValue)} {accession qualified : String} {rows : List SourceRow}
    (h : tagRows facts accession qualified = some rows) {row : SourceRow} (hrow : row ∈ rows) :
    row.qualified = qualified ∧ row.tagName = qualified := by
  obtain ⟨⟨nameSpace, tag⟩, hsplit, rfl⟩ := Option.map_eq_some_iff.mp h
  dsimp only at hrow
  split at hrow
  · cases hrow
  · obtain ⟨unit, -, hunit⟩ := List.mem_flatMap.mp hrow
    obtain ⟨hqualified, hnameSpace, htag, -⟩ := mem_unitRows hunit
    exact ⟨hqualified, by rw [SourceRow.tagName, hnameSpace, htag, join_splitTag hsplit]⟩

/-- Where a row stands: its tag, its unit and its index. -/
def SourceRow.place (row : SourceRow) : String × String × ℕ := (row.qualified, row.rawUnit, row.index)

/-- The row that an item is read as stands at the item's index. -/
theorem index_of_item {accession qualified nameSpace tag : String} {definition : List (String × SourceValue)} {unit : String}
    {item : SourceValue × ℕ} {row : SourceRow}
    (h : ((members? item.1).bind fun fields =>
      if (fields.lookup "accn").bind text? = some accession then
        some (⟨qualified, nameSpace, tag, definition, unit, item.2, fields⟩ : SourceRow)
      else none) = some row) : row.index = item.2 := by
  obtain ⟨fields, -, hrow⟩ := Option.bind_eq_some_iff.mp h
  split at hrow <;> cases hrow
  rfl

/-- The rows of a unit stand in different places. -/
theorem unitRows_pairwise (accession qualified nameSpace tag : String) (definition : List (String × SourceValue))
    (unit : String × SourceValue) :
    (unitRows accession qualified nameSpace tag definition unit).Pairwise fun a b => a.place ≠ b.place := by
  have hindices := List.nodup_zipIdx_map_snd ((items? unit.2).getD [])
  rw [List.Nodup, List.pairwise_map] at hindices
  rw [unitRows, List.pairwise_filterMap]
  refine hindices.imp fun hne a ha b hb hplace => hne ?_
  rw [← index_of_item ha, ← index_of_item hb]
  exact congrArg (·.2.2) hplace

/-- What is found in a document without double keys has no double keys. -/
theorem distinct_memberOr {value missing : SourceValue} {key : String} (hvalue : value.Distinct) (hmissing : missing.Distinct) :
    (memberOr value missing key).Distinct := by
  unfold memberOr
  cases value with
  | scalar s => exact hmissing
  | array items => exact hmissing
  | object members =>
    simp only [members?, Option.bind_some]
    cases hlookup : members.lookup key with
    | none => exact hmissing
    | some found =>
      rw [Tree.distinct_object] at hvalue
      obtain ⟨before, after, hmembers, -⟩ := List.lookup_eq_some_iff.mp hlookup
      exact hvalue.2 (key, found) (by simp [hmembers])

/-- A value has members when it is an object. -/
theorem members?_eq_some {value : SourceValue} {members : List (String × SourceValue)} :
    members? value = some members ↔ value = .object members := by
  cases value <;> simp [members?]

/-- The members of an object have different keys. -/
theorem nodup_members? {value : SourceValue} {members : List (String × SourceValue)} (hvalue : value.Distinct)
    (h : members? value = some members) : (members.map (·.1)).Nodup := by
  cases value with
  | object _ =>
    cases h
    exact ((Tree.distinct_object members).mp hvalue).1
  | scalar s => cases h
  | array items => cases h

/-- The rows of a tag stand in different places. -/
theorem tagRows_pairwise {facts : List (String × SourceValue)} {accession qualified : String} {rows : List SourceRow}
    (hfacts : (Tree.object facts : SourceValue).Distinct) (h : tagRows facts accession qualified = some rows) :
    rows.Pairwise fun a b => a.place ≠ b.place := by
  have hempty : (Tree.object [] : SourceValue).Distinct := by simp
  obtain ⟨⟨nameSpace, tag⟩, -, rfl⟩ := Option.map_eq_some_iff.mp h
  dsimp only
  split
  · exact .nil
  next definition hdefinition =>
    have hdistinct : (Tree.object definition : SourceValue).Distinct := by
      rw [← members?_eq_some.mp hdefinition]
      exact distinct_memberOr (distinct_memberOr hfacts hempty) hempty
    have hkeys : (((members? (memberOr (.object definition) (.object []) "units")).getD []).map (·.1)).Nodup := by
      cases hunits : members? (memberOr (.object definition) (.object []) "units") with
      | none => exact .nil
      | some units => exact nodup_members? (distinct_memberOr hdistinct hempty) hunits
    rw [List.Nodup, List.pairwise_map] at hkeys
    rw [List.pairwise_flatMap]
    refine ⟨fun unit _ => unitRows_pairwise _ _ _ _ _ _, hkeys.imp fun hne a ha b hb hplace => hne ?_⟩
    rw [← (mem_unitRows ha).2.2.2, ← (mem_unitRows hb).2.2.2]
    exact congrArg (·.2.1) hplace

/-! ### The rows of a rule -/

/-- The rows of some tags. -/
def rowsOf (facts : List (String × SourceValue)) (filing : FilingMetadata) (tags : List String) : List SourceRow :=
  tags.flatMap fun tag => (tagRows facts filing.accession tag).getD []

/-- Results that are all there are the results. -/
theorem eq_map_of_mapM {α β : Type} {f : α → Option (List β)} {items : List α} {results : List (List β)}
    (h : items.mapM f = some results) : results = items.map fun a => (f a).getD [] := by
  induction items generalizing results with
  | nil =>
    cases h
    rfl
  | cons a items ih =>
    simp only [List.mapM_cons, Option.bind_eq_bind, Option.bind_eq_some_iff] at h
    obtain ⟨first, hfirst, rest, hrest, heq⟩ := h
    cases heq
    rw [List.map_cons, hfirst, ih hrest, Option.getD_some]

/-- The rows of a rule are those of its qualified and of its rejected tags. -/
theorem ruleRows_eq {facts : List (String × SourceValue)} {filing : FilingMetadata} {rule : MappingRule} {rows : List SourceRow}
    (h : ruleRows facts filing rule = some rows) :
    rows = rowsOf facts filing rule.qualifiedTags ++ rowsOf facts filing rule.rejectedTags := by
  obtain ⟨results, hresults, rfl⟩ := Option.map_eq_some_iff.mp h
  rw [eq_map_of_mapM hresults, List.flatten_eq_flatMap, List.flatMap_map, List.flatMap_append]
  rfl

section Rows

variable {facts : List (String × SourceValue)} {filing : FilingMetadata} {tags : List String} {row : SourceRow}

/-- The rows of tags are of these, and have namespaces. -/
theorem mem_rowsOf (h : row ∈ rowsOf facts filing tags) :
    row.qualified ∈ tags ∧ row.tagName = row.qualified ∧ row.qualified ≠ "" := by
  obtain ⟨tag, htag, hrow⟩ := List.mem_flatMap.mp h
  cases hrows : tagRows facts filing.accession tag with
  | none => simp [hrows] at hrow
  | some rows =>
    rw [hrows, Option.getD_some] at hrow
    obtain ⟨hqualified, hname⟩ := mem_tagRows hrows hrow
    have hsplit : (splitTag tag).isSome = true := by
      have hsome : (tagRows facts filing.accession tag).isSome = true := by rw [hrows]; rfl
      rwa [tagRows, Option.isSome_map] at hsome
    rw [hqualified]
    exact ⟨htag, hname, ne_empty_of_splitTag hsplit⟩

/-- The rows of different tags stand in different places. -/
theorem rowsOf_pairwise (hfacts : (Tree.object facts : SourceValue).Distinct) (htags : tags.Nodup) :
    (rowsOf facts filing tags).Pairwise fun a b => a.place ≠ b.place := by
  rw [rowsOf, List.pairwise_flatMap]
  refine ⟨fun tag _ => ?_, htags.imp fun hne a ha b hb hplace => hne ?_⟩
  · cases hrows : tagRows facts filing.accession tag with
    | none => exact .nil
    | some rows => exact tagRows_pairwise hfacts hrows
  · have hqualified : ∀ tag row, row ∈ (tagRows facts filing.accession tag).getD [] → row.qualified = tag := by
      intro tag row hrow
      cases hrows : tagRows facts filing.accession tag with
      | none => simp [hrows] at hrow
      | some rows =>
        rw [hrows, Option.getD_some] at hrow
        exact (mem_tagRows hrows hrow).1
    rw [← hqualified _ a ha, ← hqualified _ b hb]
    exact congrArg (·.1) hplace

end Rows

/-! ### What is observed of a row -/

/-- The text of a number is its own. -/
theorem toString_nat_injective {m n : ℕ} (h : toString m = toString n) : m = n := by
  have hdigits : Nat.toDigits 10 m = Nat.toDigits 10 n := by
    have hrepr : m.repr = n.repr := h
    rw [Nat.repr_eq_ofList_toDigits, Nat.repr_eq_ofList_toDigits] at hrepr
    exact String.ofList_injective hrepr
  rw [← Nat.ofDigitChars_toDigits (by decide : 1 < 10) (by decide) (n := m), hdigits,
    Nat.ofDigitChars_toDigits (by decide) (by decide)]

variable {env : Readers} {q : Question}

/-- A sighting is one of its row, with the period and the unit of it. -/
theorem sighting_eq_some {row : SourceRow} {s : Sighting} (h : row.sighting env = some s) :
    s.toSourceRow = row ∧ rowPeriod env row.fields = some s.period ∧ unitSpec env row.rawUnit = some s.unit := by
  simp only [SourceRow.sighting, Option.bind_eq_bind, Option.bind_eq_some_iff] at h
  obtain ⟨period, hperiod, unit, hunit, heq⟩ := h
  cases heq
  exact ⟨rfl, hperiod, hunit⟩

/-- The identifier of a unit is that of its key. -/
theorem id_of_unitSpec {key : String} {unit : UnitSpec} (h : unitSpec env key = some unit) :
    unit.id = env.evidenceId (.unit key) := by
  simp only [unitSpec] at h
  split at h
  · cases h
    rfl
  · split at h
    · cases h
      rfl
    · split at h <;> cases h
      rfl

/-- Rows of which the same is observed stand in one place. -/
theorem place_of_observation_eq (hnames : Function.Injective env.evidenceId) {a b : Sighting}
    (ha : a.tagName = a.qualified ∧ unitSpec env a.rawUnit = some a.unit)
    (hb : b.tagName = b.qualified ∧ unitSpec env b.rawUnit = some b.unit)
    (h : q.observation env a = q.observation env b) : a.place = b.place := by
  have hnameSpace : a.nameSpace = b.nameSpace := congrArg (·.nameSpace) h
  have htag : a.tag = b.tag := congrArg (·.tag) h
  have hqualified : a.qualified = b.qualified := by
    rw [← ha.1, ← hb.1, SourceRow.tagName, SourceRow.tagName, hnameSpace, htag]
  have hunit : a.rawUnit = b.rawUnit := by
    have hid : a.unit.id = b.unit.id := congrArg (·.unitId) h
    rw [id_of_unitSpec ha.2, id_of_unitSpec hb.2] at hid
    exact EvidenceName.unit.inj (hnames hid)
  have hindex : a.index = b.index := by
    have hlocator : a.locator = b.locator := congrArg (·.sourceLocator) h
    rw [SourceRow.locator, SourceRow.locator, hnameSpace, htag, hunit] at hlocator
    exact toString_nat_injective ((String.append_right_inj _).mp hlocator)
  exact Prod.ext hqualified (Prod.ext hunit hindex)

end EquityEval.Normalization
