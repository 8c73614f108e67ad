import EquityEval.Publication.Calls

/-!
# The children of a valuation

Every entry of a list of the payload becomes a row that the guard compares with the saved payload.
What is compared was taken from the same payload, so the guard passes, and the rows are refused
exactly when a name, a state or a text is missing or not allowed.
-/

namespace EquityEval.Publication

open Relational Text
open Fundamentals (Jsonb fundamentalsCanonical memberText)
open Workflow (Uuid SqlError violates)

/-! ### Parts of canonical values -/

section Canonical

variable {p x : Jsonb} {name list : String} {n : ℕ}

/-- A member of a value that has a canonical text has one. -/
theorem canonical_member (hp : (fundamentalsCanonical p).isSome) (h : member name p = some x) : (fundamentalsCanonical x).isSome := by
  cases p with
  | scalar => cases h
  | array => cases h
  | object members =>
    obtain ⟨m, hfind, rfl⟩ := Option.map_eq_some_iff.mp h
    rw [Fundamentals.fundamentalsCanonical_object, Option.isSome_map, Option.isSome_iff_exists] at hp
    obtain ⟨texts, htexts⟩ := hp
    obtain ⟨text, htext⟩ := Tree.exists_of_mapM htexts (Tree.mem_byKey.mpr (List.mem_of_find?_eq_some hfind))
    obtain ⟨value, hvalue, -⟩ := Option.map_eq_some_iff.mp htext
    exact Option.isSome_iff_exists.mpr ⟨value, hvalue⟩

/-- An entry of a list that has a canonical text has one. -/
theorem canonical_item {items : List Jsonb} (hp : (fundamentalsCanonical (.array items)).isSome) (h : x ∈ items) :
    (fundamentalsCanonical x).isSome := by
  rw [Fundamentals.fundamentalsCanonical_array, Option.isSome_map, Option.isSome_iff_exists] at hp
  obtain ⟨texts, htexts⟩ := hp
  obtain ⟨text, htext⟩ := Tree.exists_of_mapM htexts h
  rw [htext]
  rfl

/-- The entries of a list that is there are its entries. -/
theorem entries_cases (q : Option Jsonb) : entries q = [] ∨ ∃ items, q = some (.array items) ∧ entries q = items := by
  cases q with
  | none => exact Or.inl rfl
  | some p =>
    cases p with
    | scalar => exact Or.inl rfl
    | object => exact Or.inl rfl
    | array items => exact Or.inr ⟨items, rfl, rfl⟩

/-- An entry of a list is the item at its ordinal, and has a canonical text with the payload. -/
theorem numbered_entry (hp : (fundamentalsCanonical p).isSome) (h : (x, n) ∈ numbered (entries (member list p))) :
    (member list p).bind (item (n - 1)) = some x ∧ (fundamentalsCanonical x).isSome ∧ 0 < n := by
  rcases entries_cases (member list p) with hnil | ⟨items, hlist, hentries⟩
  · rw [hnil] at h
    cases h
  · rw [hentries] at h
    obtain ⟨hle, hlt, hget⟩ := List.mem_zipIdx h
    have hitem : items[n - 1]? = some x := by
      rw [hget]
      exact List.getElem?_eq_getElem _
    refine ⟨?_, ?_, hle⟩
    · rw [hlist]
      exact hitem
    · exact canonical_item (canonical_member hp hlist) (List.mem_of_getElem? hitem)

end Canonical

/-! ### Rows -/

/-- A scenario with its ordinal. -/
def scenarioOf (run : Uuid) (entry : Jsonb × ℕ) : ScenarioRow where
  runId := run
  ordinal := entry.2
  name := (text "name" entry.1).getD []
  state := (pathText "solve" "state" entry.1).getD []
  resultText := (fundamentalsCanonical entry.1).getD []

/-- A grid with its ordinal. -/
def sensitivityOf (run : Uuid) (entry : Jsonb × ℕ) : SensitivityRow where
  runId := run
  ordinal := entry.2
  name := (text "name" entry.1).getD []
  resultText := (fundamentalsCanonical entry.1).getD []

/-- A conclusion with its ordinal. -/
def conclusionOf (run : Uuid) (entry : Jsonb × ℕ) : ConclusionRow where
  runId := run
  ordinal := entry.2
  conclusion := (textOf entry.1).getD []

section Rows

variable {p : Jsonb} {run : Uuid} {entry : Jsonb × ℕ}

/-- The guard passes for a row that is taken from the payload. -/
theorem entryGuard_numbered {list : String} (hp : (fundamentalsCanonical p).isSome) (h : entry ∈ numbered (entries (member list p)))
    {name resultText : List CodePoint} (hname : text "name" entry.1 = some name) (htext : fundamentalsCanonical entry.1 = some resultText) :
    entryGuard p list entry.2 name resultText = .ok entry.1 := by
  obtain ⟨x, n⟩ := entry
  exact bind_eq_ok.mpr ⟨x, orRaise_eq_ok.mpr (numbered_entry hp h).1, bind_eq_ok.mpr ⟨(), raiseIf_eq_ok.mpr (by simp [hname, htext]), rfl⟩⟩

/-- A scenario is accepted when it has a name and a state. -/
theorem scenarioRow_eq_ok (run : Uuid) (hp : (fundamentalsCanonical p).isSome) (h : entry ∈ numbered (entries (member "scenarios" p)))
    (row : ScenarioRow) : scenarioRow p run entry = .ok row ↔
      ((text "name" entry.1).isSome ∧ (pathText "solve" "state" entry.1).isSome) ∧ row = scenarioOf run entry := by
  obtain ⟨x, n⟩ := entry
  obtain ⟨resultText, htext⟩ := Option.isSome_iff_exists.mp (numbered_entry hp h).2.1
  simp only [scenarioRow, scenarioOf, bind_eq_ok, orRaise_eq_ok, raiseIf_eq_ok, pure_eq_ok, not_not, htext, Option.isSome_iff_exists]
  constructor
  · rintro ⟨name, hname, state, hstate, text', htext', expected, -, -, -, rfl⟩
    cases htext'
    exact ⟨⟨⟨name, hname⟩, state, hstate⟩, by rw [hname, hstate]; rfl⟩
  · rintro ⟨⟨⟨name, hname⟩, state, hstate⟩, rfl⟩
    refine ⟨name, hname, state, hstate, resultText, rfl, x, entryGuard_numbered hp h hname htext, (), hstate.symm, ?_⟩
    rw [hname, hstate]
    rfl

/-- A grid is accepted when it has a name. -/
theorem sensitivityRow_eq_ok (run : Uuid) (hp : (fundamentalsCanonical p).isSome) (h : entry ∈ numbered (entries (member "sensitivities" p)))
    (row : SensitivityRow) : sensitivityRow p run entry = .ok row ↔ (text "name" entry.1).isSome ∧ row = sensitivityOf run entry := by
  obtain ⟨x, n⟩ := entry
  obtain ⟨resultText, htext⟩ := Option.isSome_iff_exists.mp (numbered_entry hp h).2.1
  simp only [sensitivityRow, sensitivityOf, bind_eq_ok, orRaise_eq_ok, pure_eq_ok, htext, Option.isSome_iff_exists]
  constructor
  · rintro ⟨name, hname, text', htext', expected, -, rfl⟩
    cases htext'
    exact ⟨⟨name, hname⟩, by rw [hname]; rfl⟩
  · rintro ⟨⟨name, hname⟩, rfl⟩
    refine ⟨name, hname, resultText, rfl, x, entryGuard_numbered hp h hname htext, ?_⟩
    rw [hname]
    rfl

/-- A conclusion is accepted when it is a text. -/
theorem conclusionRow_eq_ok (run : Uuid) (hp : (fundamentalsCanonical p).isSome) (h : entry ∈ numbered (entries (member "conclusions" p)))
    (row : ConclusionRow) : conclusionRow p run entry = .ok row ↔ (textOf entry.1).isSome ∧ row = conclusionOf run entry := by
  obtain ⟨x, n⟩ := entry
  simp only [conclusionRow, conclusionOf, bind_eq_ok, orRaise_eq_ok, raiseIf_eq_ok, pure_eq_ok, not_not, (numbered_entry hp h).1,
    Option.bind_some, Option.isSome_iff_exists]
  constructor
  · rintro ⟨conclusion, hconclusion, -, -, rfl⟩
    exact ⟨⟨conclusion, hconclusion⟩, by rw [hconclusion]; rfl⟩
  · rintro ⟨⟨conclusion, hconclusion⟩, rfl⟩
    refine ⟨conclusion, hconclusion, (), hconclusion.symm, ?_⟩
    rw [hconclusion]
    rfl

end Rows

/-! ### Constraints -/

section Constraints

variable {ρ κ : Type} {key : ρ → κ} {rows new : List ρ} {run : Uuid} {items : List Jsonb} {f : Jsonb × ℕ → ρ}

/-- The ordinals of entries are different. -/
theorem uniqueBy_ordinals {key : ρ → Uuid × ℕ} (hkey : ∀ entry, key (f entry) = (run, entry.2)) : UniqueBy key ((numbered items).map f) := by
  have hkeys : ((numbered items).map f).map key = (List.range' 1 items.length).map (Prod.mk run) := by
    rw [← List.zipIdx_map_snd, List.map_map, List.map_map]
    exact List.map_congr_left fun entry _ => hkey entry
  rw [UniqueBy, hkeys]
  exact (List.nodup_range' 1).map (Prod.mk_right_injective run)

/-- The names of rows are different when those of the entries are. -/
theorem uniqueBy_names (key : ρ → Uuid × List CodePoint) (hkey : ∀ entry, key (f entry) = (run, (text "name" entry.1).getD []))
    (hnames : ∀ x ∈ items, (text "name" x).isSome) : UniqueBy key ((numbered items).map f) ↔ UniqueBy (text "name") items := by
  have hkeys : ((numbered items).map f).map key = (items.map fun x => (text "name" x).getD []).map (Prod.mk run) := by
    have hitems : items = (numbered items).map (·.1) := (List.zipIdx_map_fst 1 items).symm
    conv_rhs => rw [hitems]
    rw [List.map_map, List.map_map, List.map_map]
    exact List.map_congr_left fun entry _ => hkey entry
  have hsome : items.map (text "name") = (items.map fun x => (text "name" x).getD []).map some := by
    rw [List.map_map]
    refine List.map_congr_left fun x hx => ?_
    obtain ⟨name, hname⟩ := Option.isSome_iff_exists.mp (hnames x hx)
    rw [Function.comp_apply, hname]
    rfl
  rw [UniqueBy, UniqueBy, hkeys, hsome, List.nodup_map_iff (Prod.mk_right_injective run), List.nodup_map_iff (Option.some_injective _)]

/-- An entry of a numbered list is an entry of the list. -/
theorem mem_of_numbered {entry : Jsonb × ℕ} (h : entry ∈ numbered items) : entry.1 ∈ items := by
  obtain ⟨x, n⟩ := entry
  obtain ⟨-, -, hget⟩ := List.mem_zipIdx h
  rw [hget]
  exact List.getElem_mem _

/-- What holds of every numbered entry holds of every entry. -/
theorem forall_numbered {q : Jsonb → Prop} : (∀ entry ∈ numbered items, q entry.1) ↔ ∀ x ∈ items, q x := by
  refine ⟨fun h x hx => ?_, fun h entry hentry => h entry.1 (mem_of_numbered hentry)⟩
  rw [← List.zipIdx_map_fst 1 items] at hx
  obtain ⟨entry, hentry, rfl⟩ := List.mem_map.mp hx
  exact h entry hentry

/-- Keys with the run are different from those of the rows of other runs. -/
theorem uniqueBy_append_run {κ' : Type} {key : ρ → Uuid × κ'} {run? : ρ → Uuid} (hkey : ∀ row, (key row).1 = run? row)
    (hrows : UniqueBy key rows) (hother : ∀ x ∈ rows, run? x ≠ run) (hnew : ∀ y ∈ new, run? y = run) :
    UniqueBy key (rows ++ new) ↔ UniqueBy key new := by
  refine uniqueBy_append hrows fun x hx y hy heq => hother x hx ?_
  rw [← hkey, heq, hkey, hnew y hy]

/-- Ordinals are positive. -/
theorem ordinal_pos {entry : Jsonb × ℕ} (h : entry ∈ numbered items) : 0 < entry.2 := by
  obtain ⟨x, n⟩ := entry
  exact (List.mem_zipIdx h).1

/-- A state is allowed when it is there and one of the states. -/
theorem state_iff (x : Jsonb) :
    (pathText "solve" "state" x).getD [] ∈ solveStates ↔ ∃ state ∈ pathText "solve" "state" x, state ∈ solveStates := by
  cases pathText "solve" "state" x with
  | none => simpa using (by decide : ([] : List CodePoint) ∉ solveStates)
  | some state => simp

/-- Scenarios of a run of its own are valid when their names are different and their states allowed. -/
theorem scenariosValid_iff {rows : List ScenarioRow} (hrows : ScenariosValid rows) (hother : ∀ x ∈ rows, x.runId ≠ run)
    (hnames : ∀ x ∈ items, (text "name" x).isSome) : ScenariosValid (rows ++ (numbered items).map (scenarioOf run)) ↔
      UniqueBy (text "name") items ∧ ∀ x ∈ items, ∃ state ∈ pathText "solve" "state" x, state ∈ solveStates := by
  have hnew : ∀ y ∈ (numbered items).map (scenarioOf run), y.runId = run := by
    rintro y hy
    obtain ⟨entry, -, rfl⟩ := List.mem_map.mp hy
    rfl
  rw [ScenariosValid, uniqueBy_append_run (fun _ => rfl) hrows.1 hother hnew, uniqueBy_append_run (fun _ => rfl) hrows.2.1 hother hnew,
    uniqueBy_names (fun s : ScenarioRow => (s.runId, s.name)) (fun _ => rfl) hnames, List.forall_mem_append, List.forall_mem_map]
  constructor
  · rintro ⟨-, hunique, -, hstates⟩
    exact ⟨hunique, forall_numbered.mp fun entry hentry => (state_iff entry.1).mp (hstates entry hentry).2⟩
  · rintro ⟨hunique, hstates⟩
    refine ⟨uniqueBy_ordinals fun _ => rfl, hunique, hrows.2.2, fun entry hentry => ⟨ordinal_pos hentry, ?_⟩⟩
    exact (state_iff entry.1).mpr (hstates entry.1 (mem_of_numbered hentry))

/-- Grids of a run of its own are valid when their names are different. -/
theorem sensitivitiesValid_iff {rows : List SensitivityRow} (hrows : SensitivitiesValid rows) (hother : ∀ x ∈ rows, x.runId ≠ run)
    (hnames : ∀ x ∈ items, (text "name" x).isSome) :
    SensitivitiesValid (rows ++ (numbered items).map (sensitivityOf run)) ↔ UniqueBy (text "name") items := by
  have hnew : ∀ y ∈ (numbered items).map (sensitivityOf run), y.runId = run := by
    rintro y hy
    obtain ⟨entry, -, rfl⟩ := List.mem_map.mp hy
    rfl
  rw [SensitivitiesValid, uniqueBy_append_run (fun _ => rfl) hrows.1 hother hnew, uniqueBy_append_run (fun _ => rfl) hrows.2.1 hother hnew,
    uniqueBy_names (fun s : SensitivityRow => (s.runId, s.name)) (fun _ => rfl) hnames, List.forall_mem_append, List.forall_mem_map]
  exact ⟨fun h => h.2.1, fun h => ⟨uniqueBy_ordinals fun _ => rfl, h, hrows.2.2, fun entry hentry => ordinal_pos hentry⟩⟩

/-- Conclusions of a run of its own are valid. -/
theorem conclusionsValid (items : List Jsonb) {rows : List ConclusionRow} (hrows : ConclusionsValid rows) (hother : ∀ x ∈ rows, x.runId ≠ run) :
    ConclusionsValid (rows ++ (numbered items).map (conclusionOf run)) := by
  have hnew : ∀ y ∈ (numbered items).map (conclusionOf run), y.runId = run := by
    rintro y hy
    obtain ⟨entry, -, rfl⟩ := List.mem_map.mp hy
    rfl
  rw [ConclusionsValid, uniqueBy_append_run (fun _ => rfl) hrows.1 hother hnew, List.forall_mem_append, List.forall_mem_map]
  exact ⟨uniqueBy_ordinals fun _ => rfl, hrows.2, fun entry hentry => ordinal_pos hentry⟩

end Constraints

/-! ### All children -/

/-- The lists of a valuation can be stored: what has a name has one of its own, and what is solved for has a state. -/
structure ChildrenFit (p : Jsonb) : Prop where
  scenarios : IsList (member "scenarios" p)
  sensitivities : IsList (member "sensitivities" p)
  conclusions : IsList (member "conclusions" p)
  scenarioNames : (∀ x ∈ entries (member "scenarios" p), (text "name" x).isSome) ∧ UniqueBy (text "name") (entries (member "scenarios" p))
  states : ∀ x ∈ entries (member "scenarios" p), ∃ state ∈ pathText "solve" "state" x, state ∈ solveStates
  sensitivityNames : (∀ x ∈ entries (member "sensitivities" p), (text "name" x).isSome) ∧
    UniqueBy (text "name") (entries (member "sensitivities" p))
  texts : ∀ x ∈ entries (member "conclusions" p), (textOf x).isSome

/-- No children of a run are stored. -/
structure Store.Childless (store : Store) (run : Uuid) : Prop where
  scenarios : ∀ x ∈ store.scenarios.rows, x.runId ≠ run
  sensitivities : ∀ x ∈ store.sensitivities.rows, x.runId ≠ run
  conclusions : ∀ x ∈ store.conclusions.rows, x.runId ≠ run

/-- The tables where the children of a run were stored. -/
structure Store.HasChildren (store store' : Store) (p : Jsonb) (run : Uuid) : Prop where
  scenarios : store'.scenarios.rows = store.scenarios.rows ++ (numbered (entries (member "scenarios" p))).map (scenarioOf run)
  sensitivities : store'.sensitivities.rows =
    store.sensitivities.rows ++ (numbered (entries (member "sensitivities" p))).map (sensitivityOf run)
  conclusions : store'.conclusions.rows = store.conclusions.rows ++ (numbered (entries (member "conclusions" p))).map (conclusionOf run)

section Children

variable {store store' : Store} {p : Jsonb} {run : Uuid}

/-- The children of a run are stored when the lists of its payload fit; nothing else changes. -/
theorem Store.saveChildren_eq_ok (hp : (fundamentalsCanonical p).isSome) (hnone : store.Childless run) :
    store.saveChildren p run = .ok store' ↔ ChildrenFit p ∧ store.HasChildren store' p run ∧
      store' = { store with
        scenarios := store'.scenarios, sensitivities := store'.sensitivities, conclusions := store'.conclusions } := by
  have hscenarioRows := fun rows => mapM_eq_ok (fun entry hentry row => scenarioRow_eq_ok run hp hentry row) rows
  have hsensitivityRows := fun rows => mapM_eq_ok (fun entry hentry row => sensitivityRow_eq_ok run hp hentry row) rows
  have hconclusionRows := fun rows => mapM_eq_ok (fun entry hentry row => conclusionRow_eq_ok run hp hentry row) rows
  unfold Store.saveChildren
  simp only [bind_eq_ok, elements_eq_ok, Table.write_iff, pure_eq_ok]
  constructor
  · rintro ⟨_, ⟨hscenarios, rfl⟩, rows, hmap, scenarios, ⟨hvalid, hrows⟩, _, ⟨hgrids, rfl⟩, rows', hmap', sensitivities, ⟨hvalid', hrows'⟩,
      _, ⟨hconclusions, rfl⟩, rows'', hmap'', conclusions, ⟨-, hrows''⟩, rfl⟩
    obtain ⟨hnamed, rfl⟩ := (hscenarioRows rows).mp hmap
    obtain ⟨hnamed', rfl⟩ := (hsensitivityRows rows').mp hmap'
    obtain ⟨htexts, rfl⟩ := (hconclusionRows rows'').mp hmap''
    have hnames := (forall_numbered (q := fun x => (text "name" x).isSome)).mp fun entry hentry => (hnamed entry hentry).1
    have hnames' := (forall_numbered (q := fun x => (text "name" x).isSome)).mp hnamed'
    obtain ⟨hunique, hstates⟩ := (scenariosValid_iff store.scenarios.valid hnone.scenarios hnames).mp hvalid
    have hunique' := (sensitivitiesValid_iff store.sensitivities.valid hnone.sensitivities hnames').mp hvalid'
    exact ⟨⟨hscenarios, hgrids, hconclusions, ⟨hnames, hunique⟩, hstates, ⟨hnames', hunique'⟩,
      (forall_numbered (q := fun x => (textOf x).isSome)).mp htexts⟩, ⟨hrows, hrows', hrows''⟩, rfl⟩
  · rintro ⟨hfit, hchildren, hstore⟩
    have hnamed := (forall_numbered (q := fun x => (text "name" x).isSome)).mpr hfit.scenarioNames.1
    have hstates : ∀ entry ∈ numbered (entries (member "scenarios" p)), (pathText "solve" "state" entry.1).isSome := by
      intro entry hentry
      obtain ⟨state, hstate, -⟩ := hfit.states entry.1 (mem_of_numbered hentry)
      exact Option.isSome_iff_exists.mpr ⟨state, hstate⟩
    refine ⟨_, ⟨hfit.scenarios, rfl⟩, _, (hscenarioRows _).mpr ⟨fun entry hentry => ⟨hnamed entry hentry, hstates entry hentry⟩, rfl⟩,
      store'.scenarios, ⟨?_, hchildren.scenarios⟩, _, ⟨hfit.sensitivities, rfl⟩, _, (hsensitivityRows _).mpr
      ⟨(forall_numbered (q := fun x => (text "name" x).isSome)).mpr hfit.sensitivityNames.1, rfl⟩, store'.sensitivities,
      ⟨?_, hchildren.sensitivities⟩, _, ⟨hfit.conclusions, rfl⟩, _, (hconclusionRows _).mpr
      ⟨(forall_numbered (q := fun x => (textOf x).isSome)).mpr hfit.texts, rfl⟩, store'.conclusions, ⟨?_, hchildren.conclusions⟩, hstore.symm⟩
    · exact (scenariosValid_iff store.scenarios.valid hnone.scenarios hfit.scenarioNames.1).mpr ⟨hfit.scenarioNames.2, hfit.states⟩
    · exact (sensitivitiesValid_iff store.sensitivities.valid hnone.sensitivities hfit.sensitivityNames.1).mpr hfit.sensitivityNames.2
    · exact conclusionsValid _ store.conclusions.valid hnone.conclusions

/-- Lists that fit have children. -/
theorem Store.exists_saveChildren (hp : (fundamentalsCanonical p).isSome) (hnone : store.Childless run) (hfit : ChildrenFit p) :
    ∃ store', store.saveChildren p run = .ok store' := by
  let scenarios : Table ScenarioRow ScenariosValid := ⟨_, (scenariosValid_iff store.scenarios.valid hnone.scenarios
    hfit.scenarioNames.1).mpr ⟨hfit.scenarioNames.2, hfit.states⟩⟩
  let sensitivities : Table SensitivityRow SensitivitiesValid := ⟨_, (sensitivitiesValid_iff store.sensitivities.valid
    hnone.sensitivities hfit.sensitivityNames.1).mpr hfit.sensitivityNames.2⟩
  let conclusions : Table ConclusionRow ConclusionsValid := ⟨_, conclusionsValid (entries (member "conclusions" p))
    store.conclusions.valid hnone.conclusions⟩
  exact ⟨{ store with scenarios, sensitivities, conclusions },
    (Store.saveChildren_eq_ok hp hnone).mpr ⟨hfit, ⟨rfl, rfl, rfl⟩, rfl⟩⟩

/-- As many rows of a run as entries are stored. -/
theorem length_select {ρ : Type} {constraint : List ρ → Prop} {t t' : Table ρ constraint} {run? : ρ → Uuid} {items : List Jsonb}
    {f : Jsonb × ℕ → ρ} (hrows : t'.rows = t.rows ++ (numbered items).map f) (hother : ∀ x ∈ t.rows, run? x ≠ run)
    (hnew : ∀ entry, run? (f entry) = run) : (t'.select (run? · = run)).length = items.length := by
  have hold : t.rows.filter (fun row => decide (run? row = run)) = [] := by
    rw [List.filter_eq_nil_iff]
    exact fun x hx heq => hother x hx (of_decide_eq_true heq)
  have hall : ((numbered items).map f).filter (fun row => decide (run? row = run)) = (numbered items).map f := by
    rw [List.filter_eq_self]
    intro row hrow
    obtain ⟨entry, -, rfl⟩ := List.mem_map.mp hrow
    exact decide_eq_true (hnew entry)
  rw [Table.select, hrows, List.filter_append, hold, hall, List.nil_append, List.length_map]
  exact List.length_zipIdx

/-- Children that were stored are complete. -/
theorem Store.HasChildren.complete (h : store.HasChildren store' p run) (hnone : store.Childless run) (hfit : ChildrenFit p) :
    store'.runComplete p run = .ok () := by
  unfold Store.runComplete
  rw [arrayLength_bind, arrayLength_bind, arrayLength_bind, raiseIf_eq_ok]
  refine ⟨hfit.scenarios, hfit.sensitivities, hfit.conclusions, ?_⟩
  rw [length_select h.scenarios hnone.scenarios fun _ => rfl, length_select h.sensitivities hnone.sensitivities fun _ => rfl,
    length_select h.conclusions hnone.conclusions fun _ => rfl]
  simp

end Children

end EquityEval.Publication
