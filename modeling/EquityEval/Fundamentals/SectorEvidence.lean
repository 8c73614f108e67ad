import EquityEval.Fundamentals.SectorAccounts

/-!
# The evidence of a sector

The metric of a sector depends on a set of evidence: on whether the snapshots of each issuer of the
roster are equal, and on how the first of them is spelled. It does not depend on the order of the
snapshots, on repeated ones or on those of other issuers. Snapshots of an issuer that are not equal
count as none, except in the reason of its exclusion.
-/

namespace EquityEval.Fundamentals

open DecimalArithmetic
open Discovery (sortedSet mem_sortedSet sortedSet_nodup)

/-! ### Equality -/

/-- Numbers that are one object are the same number. -/
def OneObject (identical : Number → Number → Bool) : Prop := ∀ x y, identical x y = true → x = y

section

variable {identical : Number → Number → Bool} (hone : OneObject identical)
include hone

/-- Equality of numbers is symmetric. -/
theorem equalNumbers_symm {x y : Option Number} (h : equalNumbers identical x y = true) : equalNumbers identical y x = true := by
  cases x with
  | none => cases y with
    | none => rfl
    | some y => cases h
  | some x => cases y with
    | none => cases h
    | some y =>
      simp only [equalNumbers, Bool.or_eq_true] at h ⊢
      rcases h with h | h
      · obtain rfl := hone _ _ h
        exact Or.inl h
      · right
        cases x <;> cases y <;> simp only [decide_eq_true_eq, Bool.false_eq_true] at h ⊢
        · exact Eq.symm h
        · exact h.symm

/-- Equality of numbers is transitive. -/
theorem equalNumbers_trans {x y z : Option Number} (h : equalNumbers identical x y = true)
    (h' : equalNumbers identical y z = true) : equalNumbers identical x z = true := by
  cases x with
  | none => cases y with
    | none => exact h'
    | some y => cases h
  | some x => cases y with
    | none => cases h
    | some y => cases z with
      | none => cases h'
      | some z =>
        simp only [equalNumbers, Bool.or_eq_true] at h h' ⊢
        rcases h with h | h
        · obtain rfl := hone _ _ h
          exact h'
        · rcases h' with h' | h'
          · obtain rfl := hone _ _ h'
            exact Or.inr h
          · right
            cases x <;> cases y <;> simp only [decide_eq_true_eq, Bool.false_eq_true] at h
            all_goals cases z <;> simp only [decide_eq_true_eq, Bool.false_eq_true] at h' ⊢
            · exact Eq.trans h h'
            · exact h.trans h'

/-- Equality of evidence is symmetric. -/
theorem EvidenceValue.equals_symm {a b : EvidenceValue} (h : a.equals identical b = true) : b.equals identical a = true := by
  simp only [equals, Bool.and_eq_true, decide_eq_true_eq] at h ⊢
  obtain ⟨⟨hvalue, herror⟩, h₁, h₂, h₃, h₄, h₅, h₆, h₇⟩ := h
  exact ⟨⟨equalNumbers_symm hone hvalue, equalNumbers_symm hone herror⟩, h₁.symm, h₂.symm, h₃.symm, h₄.symm, h₅.symm, h₆.symm, h₇.symm⟩

/-- Equality of evidence is transitive. -/
theorem EvidenceValue.equals_trans {a b c : EvidenceValue} (h : a.equals identical b = true) (h' : b.equals identical c = true) :
    a.equals identical c = true := by
  simp only [equals, Bool.and_eq_true, decide_eq_true_eq] at h h' ⊢
  obtain ⟨⟨hvalue, herror⟩, h₁, h₂, h₃, h₄, h₅, h₆, h₇⟩ := h
  obtain ⟨⟨hvalue', herror'⟩, h₁', h₂', h₃', h₄', h₅', h₆', h₇'⟩ := h'
  exact ⟨⟨equalNumbers_trans hone hvalue hvalue', equalNumbers_trans hone herror herror'⟩, h₁.trans h₁', h₂.trans h₂', h₃.trans h₃',
    h₄.trans h₄', h₅.trans h₅', h₆.trans h₆', h₇.trans h₇'⟩

/-- Equality of metrics is symmetric. -/
theorem CompanyMetric.equals_symm {a b : CompanyMetric} (h : a.equals identical b = true) : b.equals identical a = true := by
  simp only [equals, Bool.and_eq_true, decide_eq_true_eq] at h ⊢
  obtain ⟨hvalue, h₁, h₂, h₃, h₄, h₅⟩ := h
  exact ⟨equalNumbers_symm hone hvalue, h₁.symm, h₂.symm, h₃.symm, h₄.symm, h₅.symm⟩

/-- Equality of metrics is transitive. -/
theorem CompanyMetric.equals_trans {a b c : CompanyMetric} (h : a.equals identical b = true) (h' : b.equals identical c = true) :
    a.equals identical c = true := by
  simp only [equals, Bool.and_eq_true, decide_eq_true_eq] at h h' ⊢
  obtain ⟨hvalue, h₁, h₂, h₃, h₄, h₅⟩ := h
  obtain ⟨hvalue', h₁', h₂', h₃', h₄', h₅'⟩ := h'
  exact ⟨equalNumbers_trans hone hvalue hvalue', h₁.trans h₁', h₂.trans h₂', h₃.trans h₃', h₄.trans h₄', h₅.trans h₅'⟩

/-- Equality of metrics by place is symmetric. -/
theorem equalMetrics_symm {l l' : List CompanyMetric} (h : (l.zip l').all (fun pair => pair.1.equals identical pair.2) = true) :
    (l'.zip l).all (fun pair => pair.1.equals identical pair.2) = true := by
  induction l generalizing l' with
  | nil => simp
  | cons a l ih => cases l' with
    | nil => rfl
    | cons b l' =>
      simp only [List.zip_cons_cons, List.all_cons, Bool.and_eq_true] at h ⊢
      exact ⟨CompanyMetric.equals_symm hone h.1, ih h.2⟩

/-- Equality of metrics by place is transitive. -/
theorem equalMetrics_trans {l l' l'' : List CompanyMetric} (hlength : l.length = l'.length)
    (h : (l.zip l').all (fun pair => pair.1.equals identical pair.2) = true)
    (h' : (l'.zip l'').all (fun pair => pair.1.equals identical pair.2) = true) :
    (l.zip l'').all (fun pair => pair.1.equals identical pair.2) = true := by
  induction l generalizing l' l'' with
  | nil => rfl
  | cons a l ih => cases l' with
    | nil => cases hlength
    | cons b l' => cases l'' with
      | nil => rfl
      | cons c l'' =>
        simp only [List.zip_cons_cons, List.all_cons, Bool.and_eq_true] at h h' ⊢
        exact ⟨CompanyMetric.equals_trans hone h.1 h'.1, ih (Nat.succ.inj hlength) h.2 h'.2⟩

/-- Equality of snapshots is symmetric. -/
theorem CompanySnapshot.equals_symm {a b : CompanySnapshot} (h : a.equals identical b = true) : b.equals identical a = true := by
  simp only [equals, Bool.and_eq_true, decide_eq_true_eq] at h ⊢
  obtain ⟨⟨⟨⟨⟨⟨⟨⟨⟨h₁, h₂, h₃, h₄, h₅⟩, e₁⟩, e₂⟩, e₃⟩, e₄⟩, e₅⟩, e₆⟩, e₇⟩, hmetrics⟩ := h
  have hsymm := fun {x y : EvidenceValue} => EvidenceValue.equals_symm hone (a := x) (b := y)
  exact ⟨⟨⟨⟨⟨⟨⟨⟨⟨h₁.symm, h₂.symm, h₃.symm, h₄.symm, h₅.symm⟩, hsymm e₁⟩, hsymm e₂⟩, hsymm e₃⟩, hsymm e₄⟩, hsymm e₅⟩, hsymm e₆⟩,
    hsymm e₇⟩, equalMetrics_symm hone hmetrics⟩

/-- Equality of snapshots is transitive. -/
theorem CompanySnapshot.equals_trans {a b c : CompanySnapshot} (h : a.equals identical b = true)
    (h' : b.equals identical c = true) : a.equals identical c = true := by
  simp only [equals, Bool.and_eq_true, decide_eq_true_eq] at h h' ⊢
  obtain ⟨⟨⟨⟨⟨⟨⟨⟨⟨h₁, h₂, h₃, h₄, h₅⟩, e₁⟩, e₂⟩, e₃⟩, e₄⟩, e₅⟩, e₆⟩, e₇⟩, hmetrics⟩ := h
  obtain ⟨⟨⟨⟨⟨⟨⟨⟨⟨h₁', h₂', h₃', h₄', h₅'⟩, e₁'⟩, e₂'⟩, e₃'⟩, e₄'⟩, e₅'⟩, e₆'⟩, e₇'⟩, hmetrics'⟩ := h'
  have htrans := fun {x y z : EvidenceValue} => EvidenceValue.equals_trans hone (a := x) (b := y) (c := z)
  exact ⟨⟨⟨⟨⟨⟨⟨⟨⟨h₁.trans h₁', h₂.trans h₂', h₃.trans h₃', h₄.trans h₄', h₅.trans h₅'⟩, htrans e₁ e₁'⟩, htrans e₂ e₂'⟩,
    htrans e₃ e₃'⟩, htrans e₄ e₄'⟩, htrans e₅ e₅'⟩, htrans e₆ e₆'⟩, htrans e₇ e₇'⟩, equalMetrics_trans hone h₅ hmetrics hmetrics'⟩

end

/-- Equal snapshots are of one issuer. -/
theorem CompanySnapshot.issuerId_of_equals {identical : Number → Number → Bool} {a b : CompanySnapshot}
    (h : a.equals identical b = true) : a.issuerId = b.issuerId := by
  simp only [equals, Bool.and_eq_true, decide_eq_true_eq] at h
  exact h.1.1.1.1.1.1.1.1.1

/-! ### The snapshots of one issuer -/

/-- The snapshots of an issuer. -/
def snapshotsOf (companies : List CompanySnapshot) (issuer : String) : List CompanySnapshot :=
  companies.filter fun c => c.issuerId = issuer

/-- The snapshots are pairwise equal. -/
def Concordant (identical : Number → Number → Bool) (l : List CompanySnapshot) : Prop :=
  l.Pairwise fun a b => a.equals identical b = true

/-- If the first snapshots of an issuer of the roster are equal, they are spelled alike. -/
def SpelledAlike (identical : Number → Number → Bool) (roster : SectorRoster) (companies companies' : List CompanySnapshot) : Prop :=
  ∀ issuer ∈ roster.issuerIds, ∀ a ∈ (snapshotsOf companies issuer).head?, ∀ b ∈ (snapshotsOf companies' issuer).head?,
    a.equals identical b = true → a = b

section

variable {identical : Number → Number → Bool} {roster : SectorRoster} {companies companies' : List CompanySnapshot} {issuer : String}

/-- Snapshots agree when the others are equal to the first one. -/
theorem concordant_cons (hone : OneObject identical) {first : CompanySnapshot} {rest : List CompanySnapshot} :
    Concordant identical (first :: rest) ↔ ¬ ∃ c ∈ rest, c.equals identical first = false := by
  rw [Concordant, List.pairwise_cons]
  push Not
  simp only [ne_eq, Bool.not_eq_false]
  constructor
  · rintro ⟨hfirst, -⟩ c hc
    exact CompanySnapshot.equals_symm hone (hfirst c hc)
  · intro h
    refine ⟨fun c hc => CompanySnapshot.equals_symm hone (h c hc), List.pairwise_of_forall_mem_list fun a ha b hb => ?_⟩
    exact CompanySnapshot.equals_trans hone (h a ha) (CompanySnapshot.equals_symm hone (h b hb))

/-- Two of the snapshots that agree are one, or they are equal. -/
theorem Concordant.equals (hone : OneObject identical) {l : List CompanySnapshot} (h : Concordant identical l) {a b : CompanySnapshot}
    (ha : a ∈ l) (hb : b ∈ l) : a = b ∨ a.equals identical b = true := by
  have : Std.Symm fun a b : CompanySnapshot => a.equals identical b = true := ⟨fun _ _ => CompanySnapshot.equals_symm hone⟩
  by_cases heq : a = b
  · exact Or.inl heq
  · exact Or.inr (List.Pairwise.forall h ha hb heq)

/-- Whether snapshots agree does not depend on their order. -/
theorem concordant_perm (hone : OneObject identical) {l l' : List CompanySnapshot} (h : l.Perm l') : Concordant identical l ↔ Concordant identical l' :=
  h.pairwise_iff fun h => CompanySnapshot.equals_symm hone h

/-- A snapshot that is equal to one of others agrees with these when they agree. -/
theorem concordant_insert (hone : OneObject identical) {l : List CompanySnapshot} {c d : CompanySnapshot} (hc : c ∈ l)
    (hd : d.equals identical c = true) : Concordant identical (d :: l) ↔ Concordant identical l := by
  rw [Concordant, List.pairwise_cons]
  refine ⟨fun h => h.2, fun h => ⟨fun m hm => ?_, h⟩⟩
  rcases Concordant.equals hone h hc hm with rfl | hequal
  · exact hd
  · exact CompanySnapshot.equals_trans hone hd hequal

/-- An issuer without snapshots is missing. -/
theorem selectCompany_missing (h : snapshotsOf companies issuer = []) :
    selectCompany identical roster companies issuer = .error ["company_snapshot_missing"] := by
  rw [selectCompany, show companies.filter _ = [] from h]

/-- Snapshots that do not agree conflict. -/
theorem selectCompany_conflict (hone : OneObject identical) (hne : snapshotsOf companies issuer ≠ [])
    (h : ¬ Concordant identical (snapshotsOf companies issuer)) :
    selectCompany identical roster companies issuer = .error ["conflicting_issuer_snapshots"] := by
  obtain ⟨first, rest, hsnapshots⟩ := List.exists_cons_of_ne_nil hne
  rw [hsnapshots, concordant_cons hone, not_not] at h
  rw [selectCompany, show companies.filter _ = first :: rest from hsnapshots]
  exact if_pos h

/-- Of snapshots that agree, the first one is selected if it is of the context. -/
theorem selectCompany_agree (hone : OneObject identical) {first : CompanySnapshot} {rest : List CompanySnapshot}
    (hsnapshots : snapshotsOf companies issuer = first :: rest) (h : Concordant identical (snapshotsOf companies issuer)) :
    selectCompany identical roster companies issuer =
      if first.snapshotId = "" ∨ first.contextKey ≠ roster.contextKey then .error ["company_context_mismatch"] else .ok first := by
  rw [hsnapshots, concordant_cons hone] at h
  rw [selectCompany, show companies.filter _ = first :: rest from hsnapshots]
  exact if_neg h

/-- The selection among more snapshots that agree with some if those do is the same when the first one is spelled alike. -/
theorem selectCompany_of_agree (hone : OneObject identical) (hissuer : issuer ∈ roster.issuerIds)
    (hspelled : SpelledAlike identical roster companies companies')
    (hnil : snapshotsOf companies issuer = [] ↔ snapshotsOf companies' issuer = [])
    (hagree : Concordant identical (snapshotsOf companies issuer) ↔ Concordant identical (snapshotsOf companies' issuer))
    (hmem : ∀ c ∈ snapshotsOf companies issuer, c ∈ snapshotsOf companies' issuer) :
    selectCompany identical roster companies issuer = selectCompany identical roster companies' issuer := by
  by_cases hne : snapshotsOf companies issuer = []
  · rw [selectCompany_missing hne, selectCompany_missing (hnil.mp hne)]
  have hne' := mt hnil.mpr hne
  by_cases h : Concordant identical (snapshotsOf companies issuer)
  · obtain ⟨first, rest, hsnapshots⟩ := List.exists_cons_of_ne_nil hne
    obtain ⟨first', rest', hsnapshots'⟩ := List.exists_cons_of_ne_nil hne'
    have hfirst : first = first' := by
      have hin := hmem first (by simp [hsnapshots])
      have hin' : first' ∈ snapshotsOf companies' issuer := by simp [hsnapshots']
      rcases Concordant.equals hone (hagree.mp h) hin hin' with heq | hequal
      · exact heq
      · exact hspelled issuer hissuer first (by simp [hsnapshots]) first' (by simp [hsnapshots']) hequal
    rw [selectCompany_agree hone hsnapshots h, selectCompany_agree hone hsnapshots' (hagree.mp h), hfirst]
  · rw [selectCompany_conflict hone hne h, selectCompany_conflict hone hne' (mt hagree.mpr h)]

/-- The selection does not depend on the order of snapshots whose first one is spelled alike. -/
theorem selectCompany_perm (hone : OneObject identical) (hissuer : issuer ∈ roster.issuerIds)
    (hspelled : SpelledAlike identical roster companies companies')
    (hperm : (snapshotsOf companies issuer).Perm (snapshotsOf companies' issuer)) :
    selectCompany identical roster companies issuer = selectCompany identical roster companies' issuer :=
  selectCompany_of_agree hone hissuer hspelled ⟨fun h => (h ▸ hperm).nil_eq.symm, fun h => (h ▸ hperm).eq_nil⟩ (concordant_perm hone hperm)
    fun _ hc => hperm.mem_iff.mp hc

/-- An equal snapshot does not change the selection. -/
theorem selectCompany_insert (hone : OneObject identical) (hissuer : issuer ∈ roster.issuerIds)
    (hspelled : SpelledAlike identical roster companies companies') {c d : CompanySnapshot} (hc : c ∈ companies)
    (hd : d.equals identical c = true) (hperm : companies'.Perm (d :: companies)) :
    selectCompany identical roster companies issuer = selectCompany identical roster companies' issuer := by
  have hsnapshots : (snapshotsOf companies' issuer).Perm (snapshotsOf (d :: companies) issuer) := hperm.filter _
  by_cases hof : d.issuerId = issuer
  · have hin : c ∈ snapshotsOf companies issuer :=
      List.mem_filter.mpr ⟨hc, by simpa using (CompanySnapshot.issuerId_of_equals hd).symm.trans hof⟩
    have hcons : snapshotsOf (d :: companies) issuer = d :: snapshotsOf companies issuer := List.filter_cons_of_pos (by simpa using hof)
    rw [hcons] at hsnapshots
    refine selectCompany_of_agree hone hissuer hspelled ⟨fun h => ?_, fun h => ?_⟩ ?_ fun m hm => ?_
    · simp [h] at hin
    · rw [h] at hsnapshots
      cases hsnapshots.nil_eq
    · rw [concordant_perm hone hsnapshots, concordant_insert hone hin hd]
    · exact hsnapshots.mem_iff.mpr (List.mem_cons_of_mem _ hm)
  · have hcons : snapshotsOf (d :: companies) issuer = snapshotsOf companies issuer := List.filter_cons_of_neg (by simpa using hof)
    rw [hcons] at hsnapshots
    exact selectCompany_perm hone hissuer hspelled hsnapshots.symm

end

/-! ### The metric of the sector -/

/-- A metric with other retained snapshots. -/
def SectorMetric.retain (result : SectorMetric) (companies : List CompanySnapshot) : SectorMetric :=
  { result with companySnapshots := companies }

/-- An exclusion for conflicting snapshots, whatever the reason was. -/
def IssuerExclusion.conflict (issuer : String) (e : IssuerExclusion) : IssuerExclusion :=
  if e.issuerId = issuer then ⟨issuer, ["conflicting_issuer_snapshots"]⟩ else e

/-- A metric that excludes an issuer for conflicting snapshots. -/
def SectorMetric.conflict (result : SectorMetric) (issuer : String) : SectorMetric :=
  { result with
    excluded := result.excluded.map (·.conflict issuer)
    distributionExcluded := result.distributionExcluded.map (·.conflict issuer) }

/-- The rosters differ in the order and repetition of their issuers only. -/
structure SectorRoster.SameIssuers (roster roster' : SectorRoster) : Prop where
  issuerIds : ∀ issuer, issuer ∈ roster.issuerIds ↔ issuer ∈ roster'.issuerIds
  contextKey : roster'.contextKey = roster.contextKey
  complete : roster'.complete = roster.complete
  evaluationDate : roster'.evaluationDate = roster.evaluationDate
  inputHash : roster'.inputHash = roster.inputHash
  lineageRefs : roster'.lineageRefs = roster.lineageRefs
  priorEvaluationDate : roster'.priorEvaluationDate = roster.priorEvaluationDate

section

variable {identical : Number → Number → Bool} {digest : String → String} {roster : SectorRoster}
  {companies companies' : List CompanySnapshot} {metric : MetricId} {method : Method} {policy : SectorPolicy}

/-- The metric reads the selected snapshots only. -/
theorem calculateSector_congr
    (h : ∀ issuer ∈ roster.issuerIds, selectCompany identical roster companies issuer = selectCompany identical roster companies' issuer) :
    calculateSector identical digest roster companies' metric method policy =
      (calculateSector identical digest roster companies metric method policy).map (·.retain companies') := by
  have hselect : ∀ issuer ∈ roster.issuers, _ := fun issuer hissuer => h issuer (mem_sortedSet.mp hissuer)
  have hselected : selectedCompanies identical roster companies' = selectedCompanies identical roster companies :=
    List.filterMap_congr fun issuer hissuer => by rw [hselect issuer hissuer]
  have hrejected : rejectedIssuers identical roster companies' = rejectedIssuers identical roster companies :=
    List.filterMap_congr fun issuer hissuer => by rw [hselect issuer hissuer]
  unfold calculateSector tallyOf
  rw [hselected, hrejected, Option.map_map]
  congr 1
  funext t
  simp only [Function.comp_apply, SectorMetric.of, SectorMetric.retain, hselected]

/-- Sorted issuers of the same members are the same. -/
theorem SectorRoster.SameIssuers.issuers {roster' : SectorRoster} (h : roster.SameIssuers roster') : roster'.issuers = roster.issuers := by
  have hperm : roster'.issuers.Perm roster.issuers := by
    rw [SectorRoster.issuers, SectorRoster.issuers, List.perm_ext_iff_of_nodup (sortedSet_nodup _) (sortedSet_nodup _)]
    intro issuer
    rw [mem_sortedSet, mem_sortedSet, h.issuerIds]
  exact hperm.eq_of_pairwise' (List.pairwise_insertionSort (· ≤ ·) _) (List.pairwise_insertionSort (· ≤ ·) _)

section

variable {roster' : SectorRoster} (h : roster.SameIssuers roster')
include h

/-- A selection reads what the rosters have in common. -/
theorem SectorRoster.SameIssuers.selectCompany (issuer : String) :
    selectCompany identical roster' companies issuer = selectCompany identical roster companies issuer := by
  simp only [Fundamentals.selectCompany, h.contextKey]

/-- A visit reads what the rosters have in common. -/
theorem SectorRoster.SameIssuers.visit : Tally.visit roster' metric method = Tally.visit roster metric method := by
  have hfield : ∀ company, fieldIssues company roster' = fieldIssues company roster := by
    intro company
    funext spec issues field
    simp only [fieldIssues, h.evaluationDate]
  have hissues : ∀ company metric, inputIssues company roster' metric = inputIssues company roster metric := by
    intro company metric
    funext spec
    simp only [inputIssues, hfield]
  funext t entry
  rw [Tally.visit, Tally.visit, hissues]

/-- Capitalizations read what the rosters have in common. -/
theorem SectorRoster.SameIssuers.capitalization (selected contributions : List (String × CompanySnapshot)) :
    Capitalization.of roster' selected contributions = Capitalization.of roster selected contributions := by
  have hcaps : (selected.map fun c => (c.1, capOf c.2 roster')) = selected.map fun c => (c.1, capOf c.2 roster) := by
    simp only [capOf, h.evaluationDate]
  unfold Capitalization.of
  dsimp only
  rw [hcaps, h.issuers]

/-- The metric reads the set of the issuers of the roster. -/
theorem calculateSector_roster : calculateSector identical digest roster' companies metric method policy =
    (calculateSector identical digest roster companies metric method policy).map fun result => { result with roster := roster' } := by
  have hselected : selectedCompanies identical roster' companies = selectedCompanies identical roster companies := by
    simp only [selectedCompanies, h.issuers, h.selectCompany]
  have hrejected : rejectedIssuers identical roster' companies = rejectedIssuers identical roster companies := by
    simp only [rejectedIssuers, h.issuers, h.selectCompany]
  have hcoverage : ∀ t, coverageOf roster' metric t = coverageOf roster metric t := by
    intro t
    unfold coverageOf
    rw [h.issuers]
  have hallowed : ∀ n value issuers caps,
      ComparisonAllowed roster' policy n value issuers caps ↔ ComparisonAllowed roster policy n value issuers caps := by
    intro n value issuers caps
    rw [ComparisonAllowed, ComparisonAllowed, h.complete]
  have hflag : ∀ n value issuers caps text, flagIf (¬ ComparisonAllowed roster' policy n value issuers caps) text =
      flagIf (¬ ComparisonAllowed roster policy n value issuers caps) text :=
    fun n value issuers caps _ => if_congr (not_congr (hallowed n value issuers caps)) rfl rfl
  unfold calculateSector tallyOf
  rw [hselected, hrejected, h.visit, Option.map_map]
  congr 1
  funext t
  rw [Function.comp_apply, SectorMetric.of, SectorMetric.of]
  dsimp only
  rw [hselected, h.capitalization, hcoverage, decide_eq_decide.mpr (hallowed _ _ _ _), hflag, h.issuers, h.contextKey, h.inputHash,
    h.complete]

end

/-! ### Conflicts -/

/-- A rejection for conflicting snapshots, whatever the reason was. -/
def conflictEntry (issuer : String) (entry : String × List String) : String × List String :=
  if entry.1 = issuer then (issuer, ["conflicting_issuer_snapshots"]) else entry

/-- What has been found with an issuer rejected for conflicting snapshots. -/
def Tally.conflict (issuer : String) (t : Tally) : Tally :=
  { t with
    excluded := t.excluded.map (conflictEntry issuer)
    distributionExcluded := t.distributionExcluded.map (conflictEntry issuer) }

section

variable {issuer : String}

/-- The issuers stay the same. -/
theorem fst_conflictEntry (entry : String × List String) : (conflictEntry issuer entry).1 = entry.1 := by
  unfold conflictEntry
  split
  · exact Eq.symm ‹_›
  · rfl

/-- Another issuer's entry is set in the same way. -/
theorem setItem_conflict {items : List (String × List String)} {key : String} {value : List String} (hne : key ≠ issuer) :
    setItem (items.map (conflictEntry issuer)) key value = (setItem items key value).map (conflictEntry issuer) := by
  have hkeys : (items.map (conflictEntry issuer)).map (·.1) = items.map (·.1) := by
    rw [List.map_map]
    exact List.map_congr_left fun entry _ => fst_conflictEntry entry
  have hother : conflictEntry issuer (key, value) = (key, value) := if_neg hne
  unfold setItem
  rw [hkeys]
  split
  · rw [List.map_map, List.map_map]
    refine List.map_congr_left fun entry _ => ?_
    simp only [Function.comp_apply, fst_conflictEntry]
    split
    · rw [hother]
    · rfl
  · rw [List.map_append, List.map_singleton, hother]

/-- A company of another issuer is visited in the same way. -/
theorem Tally.visit_conflict {t : Tally} {entry : String × CompanySnapshot} (hne : entry.1 ≠ issuer) :
    (t.conflict issuer).visit roster metric method entry = (t.visit roster metric method entry).map (Tally.conflict issuer) := by
  have hset : ∀ (items : List (String × List String)) (value : List String),
      setItem (items.map (conflictEntry issuer)) entry.1 value = (setItem items entry.1 value).map (conflictEntry issuer) :=
    fun _ _ => setItem_conflict hne
  unfold visit
  dsimp only
  split
  · simp only [Option.map_some, exclude, conflict, hset]
  · rw [Option.map_map]
    congr 1
    funext value
    cases observe entry.2 metric.spec with
    | none => rfl
    | some observed => cases observed with
      | ok observation => rfl
      | error reasons =>
        simp only [Function.comp_apply]
        split
        · simp only [withhold, leaveOut, accept, conflict, hset]
        · split
          · simp only [withhold, contribute, count, accept, conflict, hset]
          · simp only [withhold, leaveOut, count, accept, conflict, hset]

/-- Companies of other issuers are visited in the same way. -/
theorem Tally.run_conflict {entries : List (String × CompanySnapshot)} (hne : ∀ entry ∈ entries, entry.1 ≠ issuer) (t : Tally) :
    entries.foldlM (Tally.visit roster metric method) (t.conflict issuer) =
      (entries.foldlM (Tally.visit roster metric method) t).map (Tally.conflict issuer) := by
  induction entries generalizing t with
  | nil => rfl
  | cons entry entries ih =>
    rw [List.foldlM_cons, List.foldlM_cons, visit_conflict (hne entry List.mem_cons_self)]
    cases t.visit roster metric method entry with
    | none => rfl
    | some t' => exact ih (fun e he => hne e (List.mem_cons_of_mem _ he)) t'

/-- The exclusions are those with the reason of an issuer replaced. -/
theorem exclusions_conflict (items : List (String × List String)) :
    exclusions (items.map (conflictEntry issuer)) = (exclusions items).map (·.conflict issuer) := by
  have hsort := List.map_insertionSort (fun a b : String × List String => a.1 ≤ b.1) (fun a b => a.1 ≤ b.1) (conflictEntry issuer) items
    fun a _ b _ => by rw [fst_conflictEntry, fst_conflictEntry]
  rw [exclusions, exclusions, ← hsort, List.map_map, List.map_map]
  refine List.map_congr_left fun entry _ => ?_
  simp only [Function.comp_apply, conflictEntry, IssuerExclusion.conflict]
  split <;> rfl

/-- The entry of another issuer stays. -/
theorem mem_setItem {items : List (String × List String)} {entry : String × List String} {key : String} {value : List String}
    (h : entry ∈ items) (hne : key ≠ entry.1) : entry ∈ setItem items key value := by
  unfold setItem
  split
  · exact List.mem_map.mpr ⟨entry, h, if_neg (Ne.symm hne)⟩
  · exact List.mem_append_left _ h

/-- A visit keeps the exclusions of other issuers. -/
theorem Tally.visit_excluded {t t' : Tally} {entry : String × CompanySnapshot} {exclusion : String × List String}
    (hmem : exclusion ∈ t.excluded) (hne : entry.1 ≠ exclusion.1) (h : t.visit roster metric method entry = some t') :
    exclusion ∈ t'.excluded := by
  unfold visit at h
  dsimp only at h
  split at h
  · cases h
    exact mem_setItem hmem hne
  · obtain ⟨value, -, rfl⟩ := Option.map_eq_some_iff.mp h
    cases observe entry.2 metric.spec with
    | none => exact hmem
    | some observed => cases observed with
      | ok observation => exact hmem
      | error reasons =>
        dsimp only
        split
        · exact mem_setItem hmem hne
        · split
          · exact hmem
          · exact mem_setItem hmem hne

/-- Visits keep the exclusions of other issuers. -/
theorem Tally.run_excluded {entries : List (String × CompanySnapshot)} {t t' : Tally} {exclusion : String × List String}
    (hmem : exclusion ∈ t.excluded) (hne : ∀ entry ∈ entries, entry.1 ≠ exclusion.1)
    (h : entries.foldlM (Tally.visit roster metric method) t = some t') : exclusion ∈ t'.excluded := by
  induction entries generalizing t with
  | nil =>
    cases h
    exact hmem
  | cons entry entries ih =>
    rw [List.foldlM_cons] at h
    obtain ⟨next, hnext, h⟩ := Option.bind_eq_some_iff.mp h
    exact ih (visit_excluded hmem (hne entry List.mem_cons_self) hnext) (fun e he => hne e (List.mem_cons_of_mem _ he)) h

/-- A rejected issuer is excluded. -/
theorem mem_excluded_of_rejected {result : SectorMetric} {reasons : List String} (hissuer : issuer ∈ roster.issuerIds)
    (hrejected : selectCompany identical roster companies issuer = .error reasons)
    (h : calculateSector identical digest roster companies metric method policy = some result) :
    ⟨issuer, reasons⟩ ∈ result.excluded := by
  obtain ⟨t, ht, rfl⟩ := Option.map_eq_some_iff.mp h
  have hentry : (issuer, reasons) ∈ rejectedIssuers identical roster companies :=
    List.mem_filterMap.mpr ⟨issuer, mem_sortedSet.mpr hissuer, by rw [hrejected]⟩
  have hmem : (issuer, reasons) ∈ t.excluded := by
    refine Tally.run_excluded hentry (fun entry hselected heq => ?_) ht
    have hok := (mem_selectedCompanies.mp hselected).2
    rw [show entry.1 = issuer from heq, hrejected] at hok
    cases hok
  exact List.mem_map.mpr ⟨_, (List.mem_insertionSort _).mpr hmem, rfl⟩

/-- Conflicting snapshots of an issuer count as none. -/
theorem calculateSector_conflict (hmissing : selectCompany identical roster companies issuer = .error ["company_snapshot_missing"])
    (hconflict : selectCompany identical roster companies' issuer = .error ["conflicting_issuer_snapshots"])
    (hother : ∀ issuer' ∈ roster.issuerIds, issuer' ≠ issuer →
      selectCompany identical roster companies issuer' = selectCompany identical roster companies' issuer') :
    calculateSector identical digest roster companies' metric method policy =
      (calculateSector identical digest roster companies metric method policy).map fun result =>
        (result.conflict issuer).retain companies' := by
  have hselected : selectedCompanies identical roster companies' = selectedCompanies identical roster companies := by
    refine List.filterMap_congr fun issuer' hissuer => ?_
    by_cases heq : issuer' = issuer
    · rw [heq, hmissing, hconflict]
    · rw [hother issuer' (mem_sortedSet.mp hissuer) heq]
  have hrejected : rejectedIssuers identical roster companies' =
      (rejectedIssuers identical roster companies).map (conflictEntry issuer) := by
    rw [rejectedIssuers, rejectedIssuers, List.map_filterMap]
    refine List.filterMap_congr fun issuer' hissuer => ?_
    by_cases heq : issuer' = issuer
    · rw [heq, hmissing, hconflict, Option.map_some, conflictEntry, if_pos rfl]
    · rw [← hother issuer' (mem_sortedSet.mp hissuer) heq]
      cases selectCompany identical roster companies issuer' with
      | ok company => rfl
      | error reasons => rw [Option.map_some, conflictEntry, if_neg heq]
  have hothers : ∀ entry ∈ selectedCompanies identical roster companies, entry.1 ≠ issuer := by
    intro entry hentry heq
    have hok := (mem_selectedCompanies.mp hentry).2
    rw [heq, hmissing] at hok
    cases hok
  have hrun : ∀ t : Tally, (selectedCompanies identical roster companies).foldlM (Tally.visit roster metric method) (t.conflict issuer) =
      ((selectedCompanies identical roster companies).foldlM (Tally.visit roster metric method) t).map (Tally.conflict issuer) :=
    Tally.run_conflict hothers
  unfold calculateSector tallyOf
  rw [hselected, hrejected, Option.map_map]
  refine (congrArg (Option.map _) (hrun { excluded := _, distributionExcluded := _ })).trans ?_
  rw [Option.map_map]
  congr 1
  funext t
  simp only [Function.comp_apply, SectorMetric.of, SectorMetric.conflict, SectorMetric.retain, hselected, ← exclusions_conflict]
  rfl

end

/-- The snapshots of other issuers. -/
def snapshotsBut (companies : List CompanySnapshot) (issuer : String) : List CompanySnapshot :=
  companies.filter fun c => c.issuerId ≠ issuer

/-- The snapshots of issuers of the roster. -/
def snapshotsIn (companies : List CompanySnapshot) (roster : SectorRoster) : List CompanySnapshot :=
  companies.filter fun c => c.issuerId ∈ roster.issuerIds

/-- The snapshots of an issuer of the roster are among those of the roster. -/
theorem snapshotsOf_snapshotsIn {issuer : String} (hissuer : issuer ∈ roster.issuerIds) :
    snapshotsOf (snapshotsIn companies roster) issuer = snapshotsOf companies issuer := by
  rw [snapshotsOf, snapshotsIn, List.filter_filter]
  refine List.filter_congr fun c _ => ?_
  by_cases heq : c.issuerId = issuer
  · simp [heq, hissuer]
  · simp [heq]

/-- The snapshots of an issuer are among those of the issuers other than another one. -/
theorem snapshotsOf_snapshotsBut {issuer issuer' : String} (hne : issuer' ≠ issuer) :
    snapshotsOf (snapshotsBut companies issuer) issuer' = snapshotsOf companies issuer' := by
  rw [snapshotsOf, snapshotsBut, List.filter_filter]
  refine List.filter_congr fun c _ => ?_
  by_cases heq : c.issuerId = issuer'
  · simp [heq, hne]
  · simp [heq]

/-- There are no snapshots of an issuer among those of the others. -/
theorem snapshotsOf_snapshotsBut_self {issuer : String} : snapshotsOf (snapshotsBut companies issuer) issuer = [] := by
  rw [snapshotsOf, snapshotsBut, List.filter_filter, List.filter_eq_nil_iff]
  simp

end

/-- A snapshot that is equal to that of a sample company, with an income of a thousand decimal places. -/
def longCompany : CompanySnapshot :=
  { sampleCompany "a" 1 with commonIncome := { sampleIncome 1 with value := some (.finite ⟨false, 10 ^ 1000, -1000⟩) } }

end EquityEval.Fundamentals
