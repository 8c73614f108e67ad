import EquityEval.Difference.Views
import EquityEval.Discovery.Comparison

/-!
# Chains of polls

Each eligible poll compares its inventory with that of the poll before it. What the polls of a chain
report is what a comparison of the last inventory with the first would report: no filing is lost and
none is reported twice.
-/

namespace EquityEval.Discovery

open GrowingViews Relational Workflow

/-- An inventory as a poll reads it at its cutoff. -/
structure Reading where
  inventory : FilingInventory
  cutoff : Instant
deriving DecidableEq, Repr

namespace Reading

/-- The filings that a reading sees. -/
def visible (r : Reading) (forms : List String) : List InventoryFiling :=
  r.inventory.filings.filter fun f => decide (f.Visible forms r.cutoff)

/-- What a reading knows of the filing under an accession. -/
def view (r : Reading) (forms : List String) : View String FilingMetadata := fun accession =>
  ((r.visible forms).find? fun f => f.accession = accession).map filingMetadata

/-- A reading is selected without a flag. -/
def Clean (r : Reading) (plan : MonitorPlan) (label : String) : Prop :=
  ∃ s, selected plan r.inventory r.cutoff label = .ok s ∧ s.flags = []

end Reading

/-- The plans are of one issuer, one window and the same forms. -/
structure SameWindow (p q : MonitorPlan) : Prop where
  cik : p.cik = q.cik
  inventoryStart : p.inventoryStart = q.inventoryStart
  inventoryEnd : p.inventoryEnd = q.inventoryEnd
  forms : p.forms = q.forms

/-- The plan compares one reading with another. -/
def Compares (plan : MonitorPlan) (r t : Reading) : Prop :=
  plan.baseline.cutoff = r.cutoff ∧ plan.cutoff = t.cutoff

/-- The poll compares one reading with another by some plan of the window and is eligible. -/
def EligiblePoll (plan : MonitorPlan) (r : Reading) (c : Comparison) (t : Reading) : Prop :=
  ∃ q, SameWindow plan q ∧ Compares q r t ∧ compareInventories r.inventory t.inventory q = .ok c ∧
    c.baselineEligible = true

/-- Eligible polls, each with the reading of the one before as its baseline. -/
inductive Chain (plan : MonitorPlan) : Reading → List Comparison → Reading → Prop where
  | single {r t : Reading} {c : Comparison} (h : EligiblePoll plan r c t) : Chain plan r [c] t
  | next {r t u : Reading} {polls : List Comparison} {c : Comparison} (hchain : Chain plan r polls t)
      (h : EligiblePoll plan t c u) : Chain plan r (polls ++ [c]) u

/-! ### Selections and views -/

section

variable {plan q : MonitorPlan} {r t : Reading} {label : String} {s : Selection}

/-- A selection depends on the issuer, the window and the forms of a plan. -/
theorem SameWindow.selected (h : SameWindow plan q) (inventory : FilingInventory) (cutoff : Instant) (label : String) :
    selected plan inventory cutoff label = Discovery.selected q inventory cutoff label := by
  have hconsider : Selection.consider plan cutoff label = Selection.consider q cutoff label := by
    funext s f
    unfold Selection.consider
    rw [h.forms]
  unfold Discovery.selected
  rw [h.cik, h.inventoryStart, h.inventoryEnd, hconsider]

/-- A clean selection holds the visible filings. -/
theorem filings_of_clean (h : selected plan r.inventory r.cutoff label = .ok s) (hflags : s.flags = []) :
    s.filings = r.visible plan.forms := (selected_clean h hflags).2.2.2

/-- An accession is a key of a clean selection exactly when the reading knows it. -/
theorem mem_keys (h : s.filings = r.visible plan.forms) {key : String} :
    key ∈ s.keys ↔ ∃ m, r.view plan.forms key = some m := by
  unfold Selection.keys Reading.view
  rw [mem_sortedSet, h]
  constructor
  · intro hkey
    obtain ⟨f, hf, haccession⟩ := List.mem_map.mp hkey
    cases hfind : (r.visible plan.forms).find? fun f => f.accession = key with
    | none => exact absurd (List.find?_eq_none.mp hfind f hf) (by simpa using haccession)
    | some g => exact ⟨filingMetadata g, rfl⟩
  · rintro ⟨m, hm⟩
    obtain ⟨f, hf, -⟩ := Option.map_eq_some_iff.mp hm
    exact List.mem_map.mpr ⟨f, List.mem_of_find?_eq_some hf, by simpa using List.find?_some hf⟩

/-- An accession is not a key of a clean selection exactly when the reading does not know it. -/
theorem not_mem_keys (h : s.filings = r.visible plan.forms) {key : String} :
    key ∉ s.keys ↔ r.view plan.forms key = none := by
  rw [mem_keys h]
  cases r.view plan.forms key <;> simp

/-- What a reading knows of an accession is the metadata of the filing selected under it. -/
theorem view_eq (h : s.filings = r.visible plan.forms) (key : String) :
    r.view plan.forms key = (s.get key).map filingMetadata := by
  unfold Reading.view Selection.get
  rw [h]

/-- The filing selected under an accession has it. -/
theorem accession_of_get {key : String} {f : InventoryFiling} (h : s.get key = some f) : f.accession = key := by
  simpa using List.find?_some h

end

/-! ### One eligible poll -/

/-- Both readings are clean, and nothing that the first knows is lost or changed in the second. -/
structure Growth (plan : MonitorPlan) (r t : Reading) : Prop where
  baseline : r.Clean plan "baseline"
  current : t.Clean plan "current"
  grows : Grows (r.view plan.forms) (t.view plan.forms)

/-- The comparison reports the filings that a reading gains over another, the original ones and the
amendments, each once. -/
structure Reports (forms : List String) (newFilings amendments : List Observation) (r t : Reading) : Prop where
  originals : ∀ m, m ∈ newFilings.map (·.metadata) ↔
    (m.accession, m) ∈ gained (r.view forms) (t.view forms) ∧ ¬ m.Amends
  amended : ∀ m, m ∈ amendments.map (·.metadata) ↔
    (m.accession, m) ∈ gained (r.view forms) (t.view forms) ∧ m.Amends
  once : ((newFilings ++ amendments).map (·.metadata.accession)).Nodup

section

variable {plan q : MonitorPlan} {r t u : Reading} {c : Comparison} {old new : Selection}

/-- The observations of the filings selected under some keys. -/
def observations (s : Selection) (keys : List String) : List Observation :=
  keys.filterMap fun key => (s.get key).map observation

/-- A selection observes each of its keys under itself. -/
theorem observations_accessions {s : Selection} (h : s.filings = r.visible plan.forms) {keys : List String}
    (hkeys : ∀ key ∈ keys, key ∈ s.keys) : (observations s keys).map (·.metadata.accession) = keys := by
  induction keys with
  | nil => rfl
  | cons key rest ih =>
    obtain ⟨m, hm⟩ := (mem_keys h).mp (hkeys key List.mem_cons_self)
    rw [view_eq h] at hm
    obtain ⟨f, hf, -⟩ := Option.map_eq_some_iff.mp hm
    have hhead : observations s (key :: rest) = observation f :: observations s rest := by simp [observations, hf]
    rw [hhead, List.map_cons, ih fun key' hkey' => hkeys key' (List.mem_cons_of_mem _ hkey')]
    simp [observation, filingMetadata, accession_of_get hf]

/-- The additions of a comparison are the filings that the second reading gains. -/
theorem mem_additions (hold : old.filings = r.visible plan.forms) (hnew : new.filings = t.visible plan.forms)
    (m : FilingMetadata) :
    m ∈ (observations new (new.keys.filter (· ∉ old.keys))).map (·.metadata) ↔
      (m.accession, m) ∈ gained (r.view plan.forms) (t.view plan.forms) := by
  unfold gained observations
  simp only [Set.mem_ofPred_eq, List.map_filterMap, List.mem_filterMap, List.mem_filter, decide_eq_true_eq,
    not_mem_keys hold, mem_keys hnew, Option.map_map]
  constructor
  · rintro ⟨key, ⟨-, hnone⟩, hkey⟩
    have hm : t.view plan.forms key = some m := by rw [view_eq hnew]; exact hkey
    obtain ⟨f, hf, hmetadata⟩ := Option.map_eq_some_iff.mp hkey
    have haccession : m.accession = key := by
      rw [← hmetadata]
      exact accession_of_get hf
    rw [haccession]
    exact ⟨hnone, hm⟩
  · rintro ⟨hnone, hm⟩
    refine ⟨m.accession, ⟨⟨m, hm⟩, hnone⟩, ?_⟩
    rw [view_eq hnew] at hm
    exact hm

/-- Nothing disappeared and nothing changed exactly when the view grows. -/
theorem grows_iff (hold : old.filings = r.visible plan.forms) (hnew : new.filings = t.visible plan.forms) :
    Grows (r.view plan.forms) (t.view plan.forms) ↔
      old.keys.filter (· ∉ new.keys) = [] ∧
        (old.keys.filter (· ∈ new.keys)).filterMap (metadataChange old new) = [] := by
  simp only [List.filter_eq_nil_iff, List.filterMap_eq_nil_iff, List.mem_filter, decide_eq_true_eq, not_not]
  constructor
  · intro hgrows
    refine ⟨?_, ?_⟩
    · intro key hkey
      obtain ⟨m, hm⟩ := (mem_keys hold).mp hkey
      exact (mem_keys hnew).mpr ⟨m, hgrows key m hm⟩
    · rintro key ⟨hkey, -⟩
      obtain ⟨m, hm⟩ := (mem_keys hold).mp hkey
      have hm' := hgrows key m hm
      rw [view_eq hold] at hm
      rw [view_eq hnew] at hm'
      obtain ⟨f, hf, rfl⟩ := Option.map_eq_some_iff.mp hm
      obtain ⟨g, hg, hsame⟩ := Option.map_eq_some_iff.mp hm'
      simp [metadataChange, hf, hg, hsame]
  · rintro ⟨hkept, hsame⟩ key m hm
    have hkey := (mem_keys hold).mpr ⟨m, hm⟩
    obtain ⟨m', hm'⟩ := (mem_keys hnew).mp (hkept key hkey)
    have hchange := hsame key ⟨hkey, hkept key hkey⟩
    have hm'' := hm'
    rw [view_eq hold] at hm
    rw [view_eq hnew] at hm''
    obtain ⟨f, hf, rfl⟩ := Option.map_eq_some_iff.mp hm
    obtain ⟨g, hg, rfl⟩ := Option.map_eq_some_iff.mp hm''
    rw [hm']
    by_contra hne
    have hne' : filingMetadata f ≠ filingMetadata g := fun heq => hne (by rw [heq])
    simp [metadataChange, hf, hg, hne'] at hchange

/-- The parts of an eligible comparison. -/
theorem compareInventories_eq_ok (hplan : Compares plan r t)
    (h : compareInventories r.inventory t.inventory plan = .ok c) :
    ∃ old new, selected plan r.inventory r.cutoff "baseline" = .ok old ∧
      selected plan t.inventory t.cutoff "current" = .ok new ∧
      c.newFilings = (observations new (new.keys.filter (· ∉ old.keys))).filter (fun row => ¬ row.metadata.Amends) ∧
      c.amendments = (observations new (new.keys.filter (· ∉ old.keys))).filter (fun row => row.metadata.Amends) ∧
      (c.baselineEligible = true ↔ old.flags = [] ∧ new.flags = [] ∧
        old.keys.filter (· ∉ new.keys) = [] ∧
        (old.keys.filter (· ∈ new.keys)).filterMap (metadataChange old new) = []) := by
  unfold compareInventories at h
  rw [hplan.1, hplan.2] at h
  obtain ⟨old, hold, h⟩ := bind_eq_ok.mp h
  obtain ⟨new, hnew, h⟩ := bind_eq_ok.mp h
  rw [← pure_eq_ok.mp h]
  refine ⟨old, new, hold, hnew, rfl, rfl, ?_⟩
  simp only [decide_eq_true_eq, sortedSet_eq_nil, List.append_eq_nil_iff, and_assoc]
  split <;> split <;> simp_all

/-- An eligible poll reports what its reading gains over the one before. -/
theorem growth_of_eligible (hplan : Compares plan r t) (h : compareInventories r.inventory t.inventory plan = .ok c)
    (heligible : c.baselineEligible = true) :
    Growth plan r t ∧ Reports plan.forms c.newFilings c.amendments r t := by
  obtain ⟨old, new, hold, hnew, hnewFilings, hamendments, hiff⟩ := compareInventories_eq_ok hplan h
  obtain ⟨holdFlags, hnewFlags, hunchanged⟩ := hiff.mp heligible
  have holdFilings := filings_of_clean hold holdFlags
  have hnewFilings' := filings_of_clean hnew hnewFlags
  refine ⟨⟨⟨old, hold, holdFlags⟩, ⟨new, hnew, hnewFlags⟩, (grows_iff holdFilings hnewFilings').mpr hunchanged⟩, ?_⟩
  have hadditions := mem_additions holdFilings hnewFilings'
  constructor
  · intro m
    rw [← hadditions, hnewFilings]
    simp only [List.mem_map, List.mem_filter, decide_eq_true_eq]
    constructor
    · rintro ⟨row, ⟨hrow, hform⟩, rfl⟩
      exact ⟨⟨row, hrow, rfl⟩, hform⟩
    · rintro ⟨⟨row, hrow, rfl⟩, hform⟩
      exact ⟨row, ⟨hrow, hform⟩, rfl⟩
  · intro m
    rw [← hadditions, hamendments]
    simp only [List.mem_map, List.mem_filter, decide_eq_true_eq]
    constructor
    · rintro ⟨row, ⟨hrow, hform⟩, rfl⟩
      exact ⟨⟨row, hrow, rfl⟩, hform⟩
    · rintro ⟨⟨row, hrow, rfl⟩, hform⟩
      exact ⟨row, ⟨hrow, hform⟩, rfl⟩
  · have hnodup : ((observations new (new.keys.filter (· ∉ old.keys))).map (·.metadata.accession)).Nodup := by
      rw [observations_accessions hnewFilings' fun key hkey => List.mem_of_mem_filter hkey]
      exact (sortedSet_nodup _).filter _
    rw [hnewFilings, hamendments]
    refine (List.Perm.nodup_iff ?_).mp hnodup
    refine List.Perm.map _ ?_
    have hsplit := (List.filter_append_perm (fun row : Observation => decide ¬ row.metadata.Amends)
      (observations new (new.keys.filter (· ∉ old.keys)))).symm
    simpa using hsplit

/-- Two clean readings of which the second grows from the first compare eligibly. -/
theorem eligible_of_growth (hplan : Compares plan r t) (h : Growth plan r t) :
    ∃ c, compareInventories r.inventory t.inventory plan = .ok c ∧ c.baselineEligible = true := by
  obtain ⟨old, hold, holdFlags⟩ := h.baseline
  obtain ⟨new, hnew, hnewFlags⟩ := h.current
  have hunchanged := (grows_iff (filings_of_clean hold holdFlags) (filings_of_clean hnew hnewFlags)).mp h.grows
  obtain ⟨c, hc⟩ : ∃ c, compareInventories r.inventory t.inventory plan = .ok c := by
    unfold compareInventories
    rw [hplan.1, hplan.2, hold, hnew]
    exact ⟨_, rfl⟩
  refine ⟨c, hc, ?_⟩
  obtain ⟨old', new', hold', hnew', -, -, hiff⟩ := compareInventories_eq_ok hplan hc
  cases hold.symm.trans hold'
  cases hnew.symm.trans hnew'
  exact hiff.mpr ⟨holdFlags, hnewFlags, hunchanged⟩

/-- Growth depends on the issuer, the window and the forms of a plan. -/
theorem SameWindow.growth (h : SameWindow plan q) : Growth plan r t ↔ Growth q r t := by
  have hclean (s : Reading) (label : String) : s.Clean plan label ↔ s.Clean q label := by
    unfold Reading.Clean
    rw [h.selected]
  constructor
  · intro hgrowth
    exact ⟨(hclean _ _).mp hgrowth.baseline, (hclean _ _).mp hgrowth.current, h.forms ▸ hgrowth.grows⟩
  · intro hgrowth
    exact ⟨(hclean _ _).mpr hgrowth.baseline, (hclean _ _).mpr hgrowth.current, h.forms ▸ hgrowth.grows⟩

end

/-! ### A chain of eligible polls -/

section

variable {plan : MonitorPlan} {r t u : Reading} {c : Comparison} {polls : List Comparison}

/-- A poll of a chain grows and reports by the plan of the chain. -/
theorem EligiblePoll.growth (h : EligiblePoll plan r c t) :
    Growth plan r t ∧ Reports plan.forms c.newFilings c.amendments r t := by
  obtain ⟨q, hwindow, hplan, hc, heligible⟩ := h
  obtain ⟨hgrowth, hreports⟩ := growth_of_eligible hplan hc heligible
  exact ⟨hwindow.growth.mpr hgrowth, hwindow.forms ▸ hreports⟩

/-- What two readings gain one after the other is reported by the reports of both. -/
theorem Reports.append {newFilings amendments : List Observation} (hgrows : Grows (r.view plan.forms) (t.view plan.forms))
    (hgrows' : Grows (t.view plan.forms) (u.view plan.forms)) (h : Reports plan.forms newFilings amendments r t)
    (h' : Reports plan.forms c.newFilings c.amendments t u) :
    Reports plan.forms (newFilings ++ c.newFilings) (amendments ++ c.amendments) r u := by
  have hunion := gained_union hgrows hgrows'
  constructor
  · intro m
    rw [List.map_append, List.mem_append, h.originals, h'.originals, hunion]
    exact or_and_right.symm
  · intro m
    rw [List.map_append, List.mem_append, h.amended, h'.amended, hunion]
    exact or_and_right.symm
  · have hgained {m : Observation} (hm : m ∈ newFilings ++ amendments) :
        (m.metadata.accession, m.metadata) ∈ gained (r.view plan.forms) (t.view plan.forms) := by
      rcases List.mem_append.mp hm with hm | hm
      · exact ((h.originals _).mp (List.mem_map_of_mem hm)).1
      · exact ((h.amended _).mp (List.mem_map_of_mem hm)).1
    have hgained' {m : Observation} (hm : m ∈ c.newFilings ++ c.amendments) :
        (m.metadata.accession, m.metadata) ∈ gained (t.view plan.forms) (u.view plan.forms) := by
      rcases List.mem_append.mp hm with hm | hm
      · exact ((h'.originals _).mp (List.mem_map_of_mem hm)).1
      · exact ((h'.amended _).mp (List.mem_map_of_mem hm)).1
    have happend : (((newFilings ++ amendments) ++ (c.newFilings ++ c.amendments)).map (·.metadata.accession)).Nodup := by
      rw [List.map_append]
      refine List.nodup_append.mpr ⟨h.once, h'.once, ?_⟩
      intro a ha b hb
      obtain ⟨m, hm, rfl⟩ := List.mem_map.mp ha
      obtain ⟨m', hm', rfl⟩ := List.mem_map.mp hb
      exact gained_disjoint (hgained hm) (hgained' hm')
    refine (List.Perm.nodup_iff (List.Perm.map _ ?_)).mp happend
    rw [← List.append_assoc, List.append_assoc newFilings, List.append_assoc newFilings, List.append_assoc newFilings]
    refine List.Perm.append_left _ ?_
    rw [← List.append_assoc]
    have hswap : (amendments ++ c.newFilings).Perm (c.newFilings ++ amendments) := List.perm_append_comm
    exact hswap.append_right _

/-- A chain grows from its first reading to its last, and its polls report what was gained. -/
theorem Chain.growth (h : Chain plan r polls t) :
    Growth plan r t ∧ Reports plan.forms (polls.flatMap (·.newFilings)) (polls.flatMap (·.amendments)) r t := by
  induction h with
  | single h => simpa using h.growth
  | next _ h ih =>
    obtain ⟨hgrowth, hreports⟩ := ih
    obtain ⟨hgrowth', hreports'⟩ := h.growth
    refine ⟨⟨hgrowth.baseline, hgrowth'.current, trans_of Grows hgrowth.grows hgrowth'.grows⟩, ?_⟩
    simpa using hreports.append hgrowth.grows hgrowth'.grows hreports'

/-- Two reports of what was gained report the same filings. -/
theorem Reports.perm {newFilings newFilings' amendments amendments' : List Observation} {forms : List String}
    (h : Reports forms newFilings amendments r t) (h' : Reports forms newFilings' amendments' r t) :
    (newFilings.map (·.metadata)).Perm (newFilings'.map (·.metadata)) ∧
      (amendments.map (·.metadata)).Perm (amendments'.map (·.metadata)) := by
  have hnodup {rows : List Observation} (hrows : (rows.map (·.metadata.accession)).Nodup) :
      (rows.map (·.metadata)).Nodup := by
    refine List.Nodup.of_map FilingMetadata.accession ?_
    rw [List.map_map]
    exact hrows
  have honce := h.once
  have honce' := h'.once
  rw [List.map_append, List.nodup_append] at honce honce'
  constructor
  · refine (List.perm_ext_iff_of_nodup (hnodup honce.1) (hnodup honce'.1)).mpr fun m => ?_
    rw [h.originals, h'.originals]
  · refine (List.perm_ext_iff_of_nodup (hnodup honce.2.1) (hnodup honce'.2.1)).mpr fun m => ?_
    rw [h.amended, h'.amended]

/-- A visible filing that was not seen before is reported once. -/
theorem Reports.count {newFilings amendments : List Observation} (hclean : t.Clean plan "current")
    (h : Reports plan.forms newFilings amendments r t) {f : InventoryFiling} (hf : f ∈ t.visible plan.forms)
    (hnew : r.view plan.forms f.accession = none) :
    ((newFilings ++ amendments).map (·.metadata)).count (filingMetadata f) = 1 := by
  obtain ⟨s, hs, hflags⟩ := hclean
  have hview : t.view plan.forms f.accession = some (filingMetadata f) := by
    have hunique := (selected_clean hs hflags).2.2.1
    have hnodup : ((t.visible plan.forms).map (·.accession)).Nodup := hunique.sublist (List.filter_sublist.map _)
    unfold Reading.view
    cases hfind : (t.visible plan.forms).find? fun g => g.accession = f.accession with
    | none => exact absurd (List.find?_eq_none.mp hfind f hf) (by simp)
    | some g =>
      have haccession : g.accession = f.accession := by simpa using List.find?_some hfind
      rw [List.inj_on_of_nodup_map hnodup (List.mem_of_find?_eq_some hfind) hf haccession]
      rfl
  have hgained : (f.accession, filingMetadata f) ∈ gained (r.view plan.forms) (t.view plan.forms) := ⟨hnew, hview⟩
  have hmem : filingMetadata f ∈ (newFilings ++ amendments).map (·.metadata) := by
    rw [List.map_append, List.mem_append]
    by_cases hform : (filingMetadata f).Amends
    · exact Or.inr ((h.amended _).mpr ⟨hgained, hform⟩)
    · exact Or.inl ((h.originals _).mpr ⟨hgained, hform⟩)
  refine List.count_eq_one_of_mem (List.Nodup.of_map FilingMetadata.accession ?_) hmem
  rw [List.map_map]
  exact h.once

/-- Along any chain of eligible polls, a comparison of the last inventory with the first is eligible;
its new filings and its amendments are those of the polls, which report no accession twice, and each
filing that the last reading sees and the first does not know is reported exactly once. The rows may
differ in the capture and the locator of the filing, which are those of the inventory that was
compared. -/
theorem chained_discovery (h : Chain plan r polls t) (hplan : Compares plan r t) :
    ∃ c, compareInventories r.inventory t.inventory plan = .ok c ∧ c.baselineEligible = true ∧
      (c.newFilings.map (·.metadata)).Perm ((polls.flatMap (·.newFilings)).map (·.metadata)) ∧
      (c.amendments.map (·.metadata)).Perm ((polls.flatMap (·.amendments)).map (·.metadata)) ∧
      ((polls.flatMap (·.newFilings) ++ polls.flatMap (·.amendments)).map (·.metadata.accession)).Nodup ∧
      ∀ f ∈ t.inventory.filings, f.Visible plan.forms t.cutoff → r.view plan.forms f.accession = none →
        ((polls.flatMap (·.newFilings) ++ polls.flatMap (·.amendments)).map (·.metadata)).count (filingMetadata f) = 1 := by
  obtain ⟨hgrowth, hreports⟩ := h.growth
  obtain ⟨c, hc, heligible⟩ := eligible_of_growth hplan hgrowth
  obtain ⟨-, hreport⟩ := growth_of_eligible hplan hc heligible
  obtain ⟨hnewFilings, hamendments⟩ := hreport.perm hreports
  refine ⟨c, hc, heligible, hnewFilings, hamendments, hreports.once, ?_⟩
  intro f hf hvisible hnew
  exact hreports.count hgrowth.current (List.mem_filter.mpr ⟨hf, decide_eq_true hvisible⟩) hnew

end

/-! ### Three inventories of one issuer -/

/-- The plan of the sample at two cutoffs. -/
def samplePlan (baselineCutoff cutoff : Instant) : MonitorPlan where
  version := "sec-filing-monitor-v1"
  issuerId := 1
  cik := "0000320193"
  sourceId := 2
  policyRevisionId := 3
  inventoryStart := 20000
  inventoryEnd := 20100
  cutoff
  forms := ["10-K", "10-K/A", "10-Q"]
  resources := ["submissions/0000320193"]
  baseline := ⟨.priorMonitorResult, 4, 5, "e3b0c44298fc1c149afbf4c8996fb92427ae41e4649b934ca495991b7852b855",
    baselineCutoff, "sec-filing-monitor-v1", none, none, none, some 6⟩

/-- A filing of the sample. -/
def sampleFiling (accession form : String) (acceptance : Instant) (capture : Uuid) : InventoryFiling :=
  ⟨accession, 20010, form, some 20000, some "report.htm", some acceptance, some "verified_timezone", capture,
    "/filings/recent/0", [("acceptanceDateTime", .text "2024-10-15T00:00:00.000Z")]⟩

/-- An inventory of the sample. -/
def sampleInventory (filings : List InventoryFiling) (capture : Uuid) : FilingInventory :=
  ⟨"0000320193", 20000, 20100, filings, [capture], .complete, [], []⟩

/-- The first inventory has no filing. -/
def firstReading : Reading := ⟨sampleInventory [] 7, 1728864000000000⟩

/-- The second inventory has a quarterly report. -/
def secondReading : Reading :=
  ⟨sampleInventory [sampleFiling "0000320193-24-000001" "10-Q" 1728950400000000 8] 8, 1729000000000000⟩

/-- The third inventory has the report again, from another capture, and an amendment of an annual report. -/
def thirdReading : Reading :=
  ⟨sampleInventory [sampleFiling "0000320193-24-000001" "10-Q" 1728950400000000 9,
    sampleFiling "0000320193-24-000002" "10-K/A" 1729036800000000 9] 9, 1729123200000000⟩

/-- The comparison of two readings of the sample. -/
def samplePoll (r t : Reading) : Except ValueError Comparison :=
  compareInventories r.inventory t.inventory (samplePlan r.cutoff t.cutoff)

/-- What two readings of the sample report. -/
def sampleReport (r t : Reading) : Option (Bool × List Observation × List Observation) :=
  (samplePoll r t).toOption.map fun c => (c.baselineEligible, c.newFilings, c.amendments)

/-- An eligible comparison of the sample. -/
theorem eligible_of_any {r t : Reading} (h : (samplePoll r t).toOption.any (·.baselineEligible) = true) :
    ∃ c, samplePoll r t = .ok c ∧ c.baselineEligible = true := by
  cases hpoll : samplePoll r t with
  | error e => simp [hpoll, Except.toOption] at h
  | ok c => exact ⟨c, rfl, by simpa [hpoll, Except.toOption] using h⟩

/-- The comparison over both steps takes the report from the last capture, so its rows are not those
of the two polls. -/
theorem chained_rows_differ :
    let report : InventoryFiling := sampleFiling "0000320193-24-000001" "10-Q" 1728950400000000 8
    let amendment : InventoryFiling := sampleFiling "0000320193-24-000002" "10-K/A" 1729036800000000 9
    sampleReport firstReading secondReading = some (true, [observation report], []) ∧
      sampleReport secondReading thirdReading = some (true, [], [observation amendment]) ∧
      sampleReport firstReading thirdReading =
        some (true, [observation { report with sourceCaptureId := 9 }], [observation amendment]) ∧
      ¬ [observation { report with sourceCaptureId := 9 }].Perm ([observation report] ++ []) := by
  decide +kernel

/-- The filings of the two polls are those of the comparison over both. -/
theorem chained_discovery_sample :
    ∃ polls c, Chain (samplePlan firstReading.cutoff thirdReading.cutoff) firstReading polls thirdReading ∧
      samplePoll firstReading thirdReading = .ok c ∧ c.baselineEligible = true ∧
      (c.newFilings.map (·.metadata)).Perm ((polls.flatMap (·.newFilings)).map (·.metadata)) := by
  obtain ⟨c, hc, heligible⟩ := eligible_of_any (r := firstReading) (t := secondReading) (by decide +kernel)
  obtain ⟨c', hc', heligible'⟩ := eligible_of_any (r := secondReading) (t := thirdReading) (by decide +kernel)
  have hfirst : EligiblePoll (samplePlan firstReading.cutoff thirdReading.cutoff) firstReading c secondReading :=
    ⟨samplePlan firstReading.cutoff secondReading.cutoff, ⟨rfl, rfl, rfl, rfl⟩, ⟨rfl, rfl⟩, hc, heligible⟩
  have hsecond : EligiblePoll (samplePlan firstReading.cutoff thirdReading.cutoff) secondReading c' thirdReading :=
    ⟨samplePlan secondReading.cutoff thirdReading.cutoff, ⟨rfl, rfl, rfl, rfl⟩, ⟨rfl, rfl⟩, hc', heligible'⟩
  have hchain := (Chain.single hfirst).next hsecond
  obtain ⟨long, hlong, hlongEligible, hnewFilings, -⟩ := chained_discovery hchain ⟨rfl, rfl⟩
  exact ⟨_, long, hchain, hlong, hlongEligible, hnewFilings⟩

end EquityEval.Discovery
