import EquityEval.Fundamentals.Assembly
import EquityEval.Fundamentals.SectorMetrics
import Mathlib.Data.Finset.Card

/-!
# The accounts of a sector

Each issuer of a roster contributes or is excluded, once. The loop keeps this of the issuers that it
has rejected or visited; what it returns says it of the whole roster.
-/

namespace EquityEval.Fundamentals

open DecimalArithmetic Gregorian
open Discovery (sortedSet mem_sortedSet sortedSet_nodup)

variable {identical : Number → Number → Bool} {digest : String → String} {roster : SectorRoster}
  {companies : List CompanySnapshot} {metric : MetricId} {method : Method} {policy : SectorPolicy}

/-! ### Accounts of a loop -/

/-- Each issuer that was rejected or seen contributes or is excluded, once; the same holds of the
distribution where the metric has one. The signs are those of the companies that they are counted of. -/
structure Accounts (metric : MetricId) (rejected seen : List String) (t : Tally) : Prop where
  parted : (t.contributions.map (·.1) ++ t.excluded.map (·.1)).Perm (rejected ++ seen)
  distributed : metric.spec.companyMetric ≠ none →
    (t.distribution.map (·.issuerId) ++ t.distributionExcluded.map (·.1)).Perm (rejected ++ seen)
  eligible : t.contributions.Sublist t.complete
  visited : (t.complete.map (·.1)).Sublist seen
  signs : t.positive + t.zero + t.negative =
    if metric.Growth ∨ metric.Breadth then t.contributions.length else t.complete.length

/-- A new key is set at the end. -/
theorem keys_setItem {α : Type} {items : List (String × α)} {key : String} {value : α} (h : key ∉ items.map (·.1)) :
    (setItem items key value).map (·.1) = items.map (·.1) ++ [key] := by
  rw [setItem, if_neg h, List.map_append, List.map_singleton]

/-- A metric of companies other than growth is none of breadth. -/
theorem MetricId.not_breadth (hgrowth : ¬ metric.Growth) (hspec : metric.spec.companyMetric ≠ none) :
    ¬ (metric.Growth ∨ metric.Breadth) := by
  cases metric <;> first | exact absurd rfl hspec | exact absurd (.inl rfl) hgrowth | exact absurd (.inr rfl) hgrowth | decide

/-- Growth is a metric of companies. -/
theorem MetricId.Growth.companyMetric (h : metric.Growth) : metric.spec.companyMetric ≠ none := by
  rcases h with rfl | rfl <;> exact Option.some_ne_none _

/-- Each value has one sign. -/
theorem Tally.count_signs (t : Tally) (value : Decimal) :
    (t.count value).positive + (t.count value).zero + (t.count value).negative = t.positive + t.zero + t.negative + 1 := by
  simp only [Tally.count]
  rcases lt_trichotomy value.value (Decimal.ofInt 0).value with h | h | h
  · have hnegative : value < .ofInt 0 := h
    have hpositive : ¬ .ofInt 0 < value := h.not_gt
    have hzero : ¬ value.NumEq (.ofInt 0) := h.ne
    rw [if_neg hpositive, if_neg hzero, if_pos hnegative]
    omega
  · have hnegative : ¬ value < .ofInt 0 := h.not_lt
    have hpositive : ¬ .ofInt 0 < value := h.symm.not_lt
    have hzero : value.NumEq (.ofInt 0) := h
    rw [if_neg hpositive, if_pos hzero, if_neg hnegative]
    omega
  · have hnegative : ¬ value < .ofInt 0 := h.not_gt
    have hpositive : .ofInt 0 < value := h
    have hzero : ¬ value.NumEq (.ofInt 0) := h.ne'
    rw [if_pos hpositive, if_neg hzero, if_neg hnegative]
    omega

/-- An observation is one of its company. -/
theorem issuerId_of_companyMetric {company : CompanySnapshot} {fields : List Field} {observation : CompanyObservation}
    (h : companyMetric company metric fields = .ok observation) : observation.issuerId = company.issuerId := by
  unfold companyMetric at h
  split at h
  case h_2 => cases h
  case h_1 result _ =>
    split at h
    · cases h
    · cases hvalue : result.value.bind (·.decimal?) with
      | none => simp [hvalue] at h
      | some value =>
        simp only [hvalue] at h
        split at h
        · cases h
          rfl
        · cases h

/-- What is observed is a metric of its company. -/
theorem issuerId_of_observe {company : CompanySnapshot} {spec : MetricSpec} {observation : CompanyObservation}
    (h : observe company spec = some (.ok observation)) : observation.issuerId = company.issuerId := by
  unfold observe at h
  obtain ⟨target, -, h⟩ := Option.map_eq_some_iff.mp h
  split at h
  · cases h
  · split at h
    · cases h
    · exact issuerId_of_companyMetric h

/-- Nothing is observed where the metric is none of companies. -/
theorem observe_eq_none {company : CompanySnapshot} {spec : MetricSpec} :
    observe company spec = none ↔ spec.companyMetric = none := Option.map_eq_none_iff

/-- What a visit does: the company is excluded, contributes with or without a metric, or is left out for its metric. -/
theorem Tally.visit_cases {t t' : Tally} {issuer : String} {company : CompanySnapshot}
    (h : t.visit roster metric method (issuer, company) = some t') :
    (∃ issues, t' = t.exclude issuer issues) ∨
    (metric.spec.companyMetric = none ∧ ∃ value,
      t' = ((t.accept metric.spec issuer company).count value).contribute issuer company) ∨
    (∃ observation value, observation.issuerId = company.issuerId ∧
      t' = (((t.accept metric.spec issuer company).distribute observation).count value).contribute issuer company) ∨
    (metric.Growth ∧ ∃ reasons,
      t' = ((t.accept metric.spec issuer company).withhold issuer reasons).leaveOut issuer reasons) ∨
    ¬ metric.Growth ∧ metric.spec.companyMetric ≠ none ∧ ∃ reasons value,
      t' = (((t.accept metric.spec issuer company).withhold issuer reasons).count value).contribute issuer company ∨
      t' = (((t.accept metric.spec issuer company).withhold issuer reasons).count value).leaveOut issuer reasons := by
  simp only [Tally.visit] at h
  split at h
  · cases h
    exact .inl ⟨_, rfl⟩
  obtain ⟨value, -, rfl⟩ := Option.map_eq_some_iff.mp h
  cases hobserve : observe company metric.spec with
  | none => exact .inr (.inl ⟨observe_eq_none.mp hobserve, value, rfl⟩)
  | some outcome =>
    have hspec : metric.spec.companyMetric ≠ none := fun hnone => by simp [observe_eq_none.mpr hnone] at hobserve
    cases outcome with
    | ok observation => exact .inr (.inr (.inl ⟨observation, _, issuerId_of_observe hobserve, rfl⟩))
    | error reasons =>
      by_cases hgrowth : metric.Growth
      · exact .inr (.inr (.inr (.inl ⟨hgrowth, reasons, if_pos hgrowth⟩)))
      · refine .inr (.inr (.inr (.inr ⟨hgrowth, hspec, reasons, value, ?_⟩)))
        simp only [if_neg hgrowth]
        split
        · exact .inl rfl
        · exact .inr rfl

section Step

variable {rejected seen : List String} {issuer : String} {company : CompanySnapshot} {t : Tally}

/-- An element is seen on the left of two lists. -/
theorem perm_append_left {α : Type} {a b c d : List α} (x : α) (h : (a ++ b).Perm (c ++ d)) :
    ((a ++ [x]) ++ b).Perm (c ++ (d ++ [x])) := by
  rw [List.append_assoc, ← List.append_assoc c]
  exact (List.perm_append_comm.append_left a).trans (by rw [← List.append_assoc]; exact h.append_right [x])

/-- An element is seen on the right of two lists. -/
theorem perm_append_right {α : Type} {a b c d : List α} (x : α) (h : (a ++ b).Perm (c ++ d)) :
    (a ++ (b ++ [x])).Perm (c ++ (d ++ [x])) := by
  rw [← List.append_assoc, ← List.append_assoc]
  exact h.append_right [x]

/-- An issuer that was not seen is none of the excluded. -/
theorem Accounts.notMem_excluded (ht : Accounts metric rejected seen t) (hissuer : issuer ∉ rejected ++ seen) :
    issuer ∉ t.excluded.map (·.1) :=
  fun h => hissuer (ht.parted.subset (List.mem_append_right _ h))

/-- An issuer that was not seen is none of those that the distribution leaves out. -/
theorem Accounts.notMem_distributionExcluded (ht : Accounts metric rejected seen t) (hissuer : issuer ∉ rejected ++ seen)
    (hspec : metric.spec.companyMetric ≠ none) : issuer ∉ t.distributionExcluded.map (·.1) :=
  fun h => hissuer ((ht.distributed hspec).subset (List.mem_append_right _ h))

/-- Excluding an issuer keeps the accounts. -/
theorem Accounts.exclude (ht : Accounts metric rejected seen t) (hissuer : issuer ∉ rejected ++ seen) (issues : List String) :
    Accounts metric rejected (seen ++ [issuer]) (t.exclude issuer issues) where
  parted := by
    rw [Tally.exclude, keys_setItem (ht.notMem_excluded hissuer)]
    exact perm_append_right issuer ht.parted
  distributed hspec := by
    rw [Tally.exclude, keys_setItem (ht.notMem_distributionExcluded hissuer hspec)]
    exact perm_append_right issuer (ht.distributed hspec)
  eligible := ht.eligible
  visited := ht.visited.trans (List.sublist_append_left _ _)
  signs := ht.signs

/-- The eligible issuers with one more are among those seen with one more. -/
theorem Accounts.visited_accept (ht : Accounts metric rejected seen t) :
    ((t.accept metric.spec issuer company).complete.map (·.1)).Sublist (seen ++ [issuer]) := by
  rw [Tally.accept, List.map_append]
  exact ht.visited.append_right _

/-- A company that contributes is seen. -/
theorem Accounts.parted_contribute (ht : Accounts metric rejected seen t) :
    ((t.contribute issuer company).contributions.map (·.1) ++ t.excluded.map (·.1)).Perm (rejected ++ (seen ++ [issuer])) := by
  rw [Tally.contribute, List.map_append]
  exact perm_append_left issuer ht.parted

/-- A company that is withheld is seen. -/
theorem Accounts.distributed_withhold (ht : Accounts metric rejected seen t) (hissuer : issuer ∉ rejected ++ seen)
    (reasons : List String) (hspec : metric.spec.companyMetric ≠ none) :
    (t.distribution.map (·.issuerId) ++ (t.withhold issuer reasons).distributionExcluded.map (·.1)).Perm
      (rejected ++ (seen ++ [issuer])) := by
  rw [Tally.withhold, keys_setItem (ht.notMem_distributionExcluded hissuer hspec)]
  exact perm_append_right issuer (ht.distributed hspec)

/-- A company that is left out is seen. -/
theorem Accounts.parted_leaveOut (ht : Accounts metric rejected seen t) (hissuer : issuer ∉ rejected ++ seen)
    (reasons : List String) :
    (t.contributions.map (·.1) ++ (t.leaveOut issuer reasons).excluded.map (·.1)).Perm (rejected ++ (seen ++ [issuer])) := by
  rw [Tally.leaveOut, keys_setItem (ht.notMem_excluded hissuer)]
  exact perm_append_right issuer ht.parted

/-- Counting a sign with a contribution keeps the signs. -/
theorem Accounts.signs_contribute (ht : Accounts metric rejected seen t) (issuer : String) (company : CompanySnapshot)
    (value : Decimal) :
    (t.count value).positive + (t.count value).zero + (t.count value).negative =
      if metric.Growth ∨ metric.Breadth then (t.contribute issuer company).contributions.length
      else (t.accept metric.spec issuer company).complete.length := by
  rw [Tally.count_signs, ht.signs, Tally.contribute, Tally.accept, List.length_append, List.length_append]
  split <;> rfl

/-- Visiting a company keeps the accounts. -/
theorem Accounts.visit {t' : Tally} (ht : Accounts metric rejected seen t) (hissuer : issuer ∉ rejected ++ seen)
    (hcompany : company.issuerId = issuer) (h : t.visit roster metric method (issuer, company) = some t') :
    Accounts metric rejected (seen ++ [issuer]) t' := by
  have hcontributes : ((t.contribute issuer company).contributions).Sublist (t.accept metric.spec issuer company).complete :=
    ht.eligible.append_right _
  have hleftOut : t.contributions.Sublist (t.accept metric.spec issuer company).complete :=
    ht.eligible.trans (List.sublist_append_left _ _)
  rcases Tally.visit_cases h with ⟨issues, rfl⟩ | ⟨hspec, value, rfl⟩ | ⟨observation, value, hobservation, rfl⟩ |
    ⟨hgrowth, reasons, rfl⟩ | ⟨hgrowth, hspec, reasons, value, rfl | rfl⟩
  · exact ht.exclude hissuer issues
  · exact ⟨ht.parted_contribute, fun hne => absurd hspec hne, hcontributes, ht.visited_accept, ht.signs_contribute issuer company value⟩
  · refine ⟨ht.parted_contribute, fun hne => ?_, hcontributes, ht.visited_accept, ht.signs_contribute issuer company value⟩
    simp only [Tally.contribute, Tally.count, Tally.distribute, Tally.accept, List.map_append, List.map_singleton, hobservation,
      hcompany]
    exact perm_append_left issuer (ht.distributed hne)
  · refine ⟨ht.parted_leaveOut hissuer reasons, ht.distributed_withhold hissuer reasons, hleftOut, ht.visited_accept, ?_⟩
    have hsigns := ht.signs
    rwa [if_pos (.inl hgrowth)] at hsigns ⊢
  · exact ⟨ht.parted_contribute, ht.distributed_withhold hissuer reasons, hcontributes, ht.visited_accept,
      ht.signs_contribute issuer company value⟩
  · refine ⟨ht.parted_leaveOut hissuer reasons, ht.distributed_withhold hissuer reasons, hleftOut, ht.visited_accept, ?_⟩
    have hsigns := ht.signs_contribute issuer company value
    rwa [if_neg (MetricId.not_breadth hgrowth hspec)] at hsigns ⊢

/-- Visiting companies keeps the accounts. -/
theorem Accounts.run {t' : Tally} {entries : List (String × CompanySnapshot)} (ht : Accounts metric rejected seen t)
    (hnodup : (rejected ++ (seen ++ entries.map (·.1))).Nodup) (hcompany : ∀ entry ∈ entries, entry.2.issuerId = entry.1)
    (h : entries.foldlM (Tally.visit roster metric method) t = some t') :
    Accounts metric rejected (seen ++ entries.map (·.1)) t' := by
  induction entries generalizing seen t with
  | nil =>
    cases h
    rwa [List.map_nil, List.append_nil]
  | cons entry entries ih =>
    rw [List.foldlM_cons, Option.bind_eq_bind, Option.bind_eq_some_iff] at h
    obtain ⟨next, hvisit, hrest⟩ := h
    rw [List.map_cons, List.append_cons] at hnodup ⊢
    have hnew : entry.1 ∉ rejected ++ seen := by
      rw [← List.append_assoc, ← List.append_assoc] at hnodup
      have hleft := (List.nodup_append.mp hnodup).1
      exact fun hmem => (List.nodup_append.mp hleft).2.2 _ hmem _ (List.mem_singleton_self _) rfl
    exact ih (ht.visit hnew (hcompany entry List.mem_cons_self) hvisit) hnodup
      (fun e he => hcompany e (List.mem_cons_of_mem _ he)) hrest

end Step

/-! ### Accounts of a roster -/

/-- What is rejected of a list and what is selected of it are all of it. -/
theorem rejected_append_selected (choice : String → Except (List String) CompanySnapshot) (issuers : List String) :
    ((issuers.filterMap fun issuer => match choice issuer with
        | .ok _ => none
        | .error reasons => some (issuer, reasons)).map (·.1) ++
      (issuers.filterMap fun issuer => match choice issuer with
        | .ok company => some (issuer, company)
        | .error _ => none).map (·.1)).Perm issuers := by
  induction issuers with
  | nil => exact .nil
  | cons issuer issuers ih =>
    cases h : choice issuer with
    | ok company =>
      simp only [List.filterMap_cons, h, List.map_cons]
      exact List.perm_middle.trans (ih.cons issuer)
    | error reasons =>
      simp only [List.filterMap_cons, h, List.map_cons, List.cons_append]
      exact ih.cons issuer

/-- A selected company is one of the issuer. -/
theorem issuerId_of_selectCompany {issuer : String} {company : CompanySnapshot}
    (h : selectCompany identical roster companies issuer = .ok company) : company.issuerId = issuer := by
  unfold selectCompany at h
  split at h
  case h_1 => cases h
  case h_2 first rest hmatches =>
    have hfirst : first ∈ companies.filter fun c => c.issuerId = issuer := by simp [hmatches]
    split at h
    · cases h
    · split at h
      · cases h
      · cases h
        simpa using (List.mem_filter.mp hfirst).2

/-- The selected entries are the companies that are selected for issuers of the roster. -/
theorem mem_selectedCompanies {entry : String × CompanySnapshot} :
    entry ∈ selectedCompanies identical roster companies ↔
      entry.1 ∈ roster.issuers ∧ selectCompany identical roster companies entry.1 = .ok entry.2 := by
  rw [selectedCompanies, List.mem_filterMap]
  constructor
  · rintro ⟨issuer, hissuer, h⟩
    split at h
    · cases h
      exact ⟨hissuer, ‹_›⟩
    · cases h
  · rintro ⟨hissuer, h⟩
    exact ⟨entry.1, hissuer, by rw [h]⟩

/-- The loop accounts for the issuers of the roster. -/
theorem accounts_of_tallyOf {t : Tally} (h : tallyOf identical roster companies metric method = some t) :
    Accounts metric ((rejectedIssuers identical roster companies).map (·.1))
      ((selectedCompanies identical roster companies).map (·.1)) t := by
  have hperm := rejected_append_selected (selectCompany identical roster companies) roster.issuers
  have hstart : Accounts metric ((rejectedIssuers identical roster companies).map (·.1)) []
      { excluded := rejectedIssuers identical roster companies
        distributionExcluded := rejectedIssuers identical roster companies } :=
    ⟨by simp, fun _ => by simp, .refl _, .refl _, by split <;> rfl⟩
  have hnodup := hperm.nodup_iff.mpr (sortedSet_nodup roster.issuerIds)
  exact hstart.run hnodup (fun entry hentry => issuerId_of_selectCompany (mem_selectedCompanies.mp hentry).2) h

/-- Two lists part the issuers of a roster: each of them is in one of the lists, once. -/
def SectorRoster.Parted (roster : SectorRoster) (a b : List String) : Prop :=
  (a ++ b).Nodup ∧ ∀ issuer, issuer ∈ a ++ b ↔ issuer ∈ roster.issuerIds

/-- Lists that are the issuers of a roster together part them. -/
theorem SectorRoster.parted_of_perm {a b : List String} (h : (a ++ b).Perm roster.issuers) : roster.Parted a b :=
  ⟨h.nodup_iff.mpr (sortedSet_nodup _), fun _ => h.mem_iff.trans mem_sortedSet⟩

/-- Exclusions are of the issuers that were excluded. -/
theorem issuerIds_exclusions (items : List (String × List String)) :
    ((exclusions items).map (·.issuerId)).Perm (items.map (·.1)) := by
  rw [exclusions, List.map_map]
  exact (List.perm_insertionSort _ items).map _

/-! ### Coverage -/

/-- A sum is that of the values. -/
theorem sumOf_exact {values : List Decimal} {r : Decimal} (h : sumOf (values.map .finite) = some r) :
    r.value = (values.map Decimal.value).sum := by
  have hones : ∀ items : List Decimal, signedSum (items.map fun _ => 1) (items.map Decimal.value) = (items.map Decimal.value).sum :=
    fun items => by induction items with
    | nil => rfl
    | cons item items ih => rw [List.map_cons, List.map_cons, signedSum_cons, ih, List.sum_cons, Int.cast_one, one_mul]
  unfold sumOf at h
  split at h
  · next hnil =>
    cases h
    rw [List.map_eq_nil_iff.mp hnil, Decimal.value_ofInt]
    rfl
  · rw [List.map_map] at h
    have hsigns : Signs (values.map fun _ => 1) := fun c hc => .inl (by simp at hc; exact hc.2)
    rw [(exactSum_exact hsigns h).2, hones]

/-- A part of a whole is a fraction between zero and one. -/
theorem fraction_unit {numerator denominator r : Decimal} (h : fraction numerator denominator = some r)
    (hnumerator : 0 ≤ numerator.value) (hle : numerator.value ≤ denominator.value) : 0 ≤ r.value ∧ r.value ≤ 1 := by
  have hrounds := Context.div?_rounds (by decide) h
  have hone : ratioContext.Representable 1 := ⟨1, 0, by norm_num [ratioContext], by decide, by norm_num⟩
  exact ⟨hrounds.nonneg (div_nonneg hnumerator (hnumerator.trans hle)),
    hrounds.le_of_le 1 hone (div_le_one_of_le₀ hle (hnumerator.trans hle))⟩

/-- A capitalization is positive. -/
theorem capOf_pos {company : CompanySnapshot} {cap : Decimal} (h : capOf company roster = some cap) : 0 < cap.value := by
  unfold capOf at h
  split at h
  · have hpos := (Option.filter_eq_some_iff.mp h).2
    simpa [Decimal.lt_iff_value] using hpos
  · cases h

/-- A ratio of counts that was asked for is a fraction between zero and one. -/
theorem countRatio_unit {wanted : Prop} [Decidable wanted] {numerator denominator : ℕ} {ratio : Decimal}
    (hle : numerator ≤ denominator) (h : countRatio wanted numerator denominator = some (some ratio)) :
    0 ≤ ratio.value ∧ ratio.value ≤ 1 := by
  unfold countRatio at h
  split at h
  · obtain ⟨r, hr, heq⟩ := Option.map_eq_some_iff.mp h
    cases heq
    exact fraction_unit hr (by simp) (by simpa using hle)
  · cases h

/-- The coverage of a roster by issuers is a fraction between zero and one. -/
theorem issuerCoverage_unit {t : Tally} {coverage : Decimal} (hle : t.complete.length ≤ roster.issuers.length)
    (h : (coverageOf roster metric t).bind (·.1) = some coverage) : 0 ≤ coverage.value ∧ coverage.value ≤ 1 := by
  obtain ⟨pair, hpair, hfirst⟩ := Option.bind_eq_some_iff.mp h
  simp only [coverageOf, Option.bind_eq_bind, Option.bind_eq_some_iff] at hpair
  obtain ⟨issuer, hissuer, ratio, -, heq⟩ := hpair
  cases heq
  rw [show issuer = some coverage from hfirst] at hissuer
  exact countRatio_unit hle hissuer

/-- The companies of a roster of which none is missing are selected. -/
theorem exists_selected (h : (selectedCompanies identical roster companies).length = roster.issuers.length) {issuer : String}
    (hissuer : issuer ∈ roster.issuers) :
    ∃ company, (issuer, company) ∈ selectedCompanies identical roster companies := by
  have hperm : ((rejectedIssuers identical roster companies).map (·.1) ++
      (selectedCompanies identical roster companies).map (·.1)).Perm roster.issuers :=
    rejected_append_selected (selectCompany identical roster companies) roster.issuers
  have hlength := hperm.length_eq
  rw [List.length_append, List.length_map, List.length_map, h] at hlength
  have hrejected : rejectedIssuers identical roster companies = [] := List.eq_nil_of_length_eq_zero (by omega)
  rw [hrejected, List.map_nil, List.nil_append] at hperm
  obtain ⟨entry, hentry, rfl⟩ := List.mem_map.mp (hperm.mem_iff.mpr hissuer)
  exact ⟨entry.2, hentry⟩

/-- A capitalization whose coverage is known is that of the whole roster, and the coverage is between zero and one. -/
theorem capitalization_coverage {selected contributions : List (String × CompanySnapshot)} {coverage : Decimal}
    (h : (Capitalization.of roster selected contributions).coverage = some coverage) :
    selected.length = roster.issuers.length ∧ (∀ entry ∈ selected, ∃ cap, capOf entry.2 roster = some cap) ∧
      0 ≤ coverage.value ∧ coverage.value ≤ 1 := by
  have hfinite : ∀ caps : List (String × Option Decimal),
      (caps.filterMap fun cap => cap.2.map Number.finite) = (caps.filterMap (·.2)).map .finite := fun caps =>
    List.map_filterMap.symm
  simp only [Capitalization.of, hfinite] at h
  split at h
  case isFalse => cases h
  case isTrue hknown =>
    split at h
    case h_1 => cases h
    case h_2 full hfull =>
      split at h
      case h_1 => cases h
      case h_2 contributing hcontributing =>
        split at h
        case h_1 => cases h
        case h_2 ratio hratio =>
          cases h
          have hpos : ∀ x ∈ ((selected.map fun c => (c.1, capOf c.2 roster)).filterMap (·.2)).map Decimal.value, 0 ≤ x := by
            intro x hx
            simp only [List.mem_map, List.mem_filterMap] at hx
            obtain ⟨cap, ⟨_, ⟨entry, -, rfl⟩, hcap⟩, rfl⟩ := hx
            exact (capOf_pos hcap).le
          have hpart := ((List.filter_sublist (p := fun cap => cap.1 ∈ contributions.map (·.1))
            (l := selected.map fun c => (c.1, capOf c.2 roster))).filterMap (·.2)).map Decimal.value
          refine ⟨by simpa using hknown.2.1, fun entry hentry => ?_, fraction_unit hratio ?_ ?_⟩
          · exact Option.ne_none_iff_exists'.mp (hknown.2.2 _ (List.mem_map_of_mem hentry))
          · rw [sumOf_exact hcontributing]
            exact List.sum_nonneg fun x hx => hpos x (hpart.subset hx)
          · rw [sumOf_exact hcontributing, sumOf_exact hfull]
            exact hpart.sum_le_sum hpos

/-! ### The result -/

/-- The value of a breadth is its positive signs among its contributors, as a ratio. -/
theorem fraction_of_breadth {t : Tally} {value : Decimal} (hbreadth : metric.Breadth)
    (h : (SectorMetric.of identical digest roster companies metric method policy t).value = some value) :
    fraction (.ofInt t.positive) (.ofInt t.contributions.length) = some value := by
  simp only [SectorMetric.of] at h
  cases hquarters : quartiles ((t.distribution.map (·.value)).insertionSort (· ≤ ·)) with
  | none => simp [hquarters] at h
  | some quarters =>
    simp only [hquarters, Option.elim_some, Aggregate.of] at h
    split at h
    · cases h
    · exact h

/-- Where comparison is allowed, the roster is complete, its companies are selected with positive capitalizations, and the
coverage fractions meet the policy. -/
theorem comparison_coverage {t : Tally}
    (hlength : t.complete.length ≤ roster.issuers.length)
    (h : (SectorMetric.of identical digest roster companies metric method policy t).comparisonAllowed = true) :
    roster.complete = true ∧
      (∀ issuer ∈ roster.issuerIds, ∃ company, selectCompany identical roster companies issuer = .ok company ∧
        ∃ cap, capOf company roster = some cap ∧ 0 < cap.value) ∧
      (∃ coverage, (SectorMetric.of identical digest roster companies metric method policy t).issuerCoverage = some coverage ∧
        0 ≤ coverage.value ∧ coverage.value ≤ 1 ∧ policy.minimumIssuerCoverage.value ≤ coverage.value) ∧
      (∃ coverage, (SectorMetric.of identical digest roster companies metric method policy t).capCoverage = some coverage ∧
        0 ≤ coverage.value ∧ coverage.value ≤ 1 ∧ policy.minimumCapCoverage.value ≤ coverage.value) ∧
      (SectorMetric.of identical digest roster companies metric method policy t).value ≠ none := by
  simp only [SectorMetric.of, decide_eq_true_eq] at h ⊢
  obtain ⟨hcomplete, hvalue, -, ⟨issuerCoverage, hissuer, hissuerMin⟩, capCoverage, hcap, hcapMin⟩ := h
  obtain ⟨hselected, hcaps, hcapUnit⟩ := capitalization_coverage hcap
  refine ⟨hcomplete, fun issuer hmem => ?_, ⟨issuerCoverage, hissuer, ?_⟩, ⟨capCoverage, hcap, hcapUnit.1, hcapUnit.2, hcapMin⟩,
    hvalue⟩
  · obtain ⟨company, hentry⟩ := exists_selected hselected (mem_sortedSet.mpr hmem)
    obtain ⟨cap, hpos⟩ := hcaps _ hentry
    exact ⟨company, (mem_selectedCompanies.mp hentry).2, cap, hpos, capOf_pos hpos⟩
  · split at hissuer
    · cases hissuer
    · obtain ⟨hnonneg, hle⟩ := issuerCoverage_unit hlength hissuer
      exact ⟨hnonneg, hle, hissuerMin⟩

/-- What a sample company has earned in a year. -/
def sampleIncome (amount : ℤ) : EvidenceValue where
  value := some (.finite (.ofInt amount))
  absoluteError := some (.finite (.ofInt 0))
  inputHash := sampleDigest 'a'
  periodStart := some ⟨2024, 1, 1, Date.inYears_2024, Date.inMonths_1, Date.inDays_2024_1_1⟩
  periodEnd := some ⟨2024, 12, 31, Date.inYears_2024, Date.inMonths_12, Date.inDays_2024_12_31⟩
  usable := true
  basis := "income_available_common"

/-- The snapshot of a sample company. -/
def sampleCompany (issuer : String) (amount : ℤ) : CompanySnapshot where
  issuerId := issuer
  snapshotId := "s"
  contextKey := "k"
  applicableMetrics := ["profit_breadth"]
  marketCap := { sampleIncome 100 with
    periodStart := none
    periodEnd := some ⟨2025, 1, 31, Date.inYears_2025, Date.inMonths_1, by decide⟩
    basis := "common_equity" }
  priorMarketCap := sampleIncome 0
  commonIncome := sampleIncome amount
  revenue := sampleIncome 0
  priorRevenue := sampleIncome 0
  operatingIncome := sampleIncome 0
  fcf := sampleIncome 0
  companyMetrics := []

/-- The roster of the sample companies. -/
def sampleRoster : SectorRoster where
  issuerIds := ["a", "b", "c"]
  contextKey := "k"
  complete := true
  evaluationDate := ⟨2025, 1, 31, Date.inYears_2025, Date.inMonths_1, by decide⟩
  inputHash := "h"
  lineageRefs := ["l"]
  identified := by decide +kernel
  evidenced := by decide +kernel
  earlier := by decide

/-- The revision of the policy of the samples has text. -/
theorem sampleSectorPolicy_named : Vintage.hasText "r" = true := by decide +kernel

/-- A policy of the samples. -/
def sampleSectorPolicy : SectorPolicy where
  minimumContributors := 1
  minimumIssuerCoverage := .ofInt 1
  minimumCapCoverage := .ofInt 1
  revision := "r"
  positive := le_rfl
  fractions := by decide
  named := sampleSectorPolicy_named

/-- The breadth of the sample companies. -/
def sampleBreadth : Option SectorMetric :=
  calculateSector (fun _ _ => false) id sampleRoster [sampleCompany "a" 1, sampleCompany "b" (-1), sampleCompany "c" 0]
    .profitBreadth .total sampleSectorPolicy

/-- The breadth of the sample companies has fifty digits. -/
theorem sampleBreadth_value : sampleBreadth.map (fun r => (r.value, r.positiveCount, r.v)) =
    some (some ⟨false, 33333333333333333333333333333333333333333333333333, -50⟩, 1, 3) := by
  decide +kernel

end EquityEval.Fundamentals
