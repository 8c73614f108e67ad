import EquityEval.Market.Effects

/-!
# Exact publication

What a publication that returns has done to the tables: a new batch is inserted and published, a batch of
the same input is left as it is, and in both cases every child of the bundle is stored under the batch,
which has as many. A new batch then has exactly these children; a batch that was there before has them if
the bundle repeats none.
-/

namespace EquityEval.Market

open Relational Workflow Ingestion TransitionSystem

/-! ### Children -/

section Children

variable {ι : Type} {constraint : List (Child ι) → Prop} {table table' : Table (Child ι) constraint} {insert : Bool} {batch : Uuid}
  {items : List ι}

/-- The rows of a batch are the given items. -/
def Agrees (rows : List (Child ι)) (batch : Uuid) (items : List ι) : Prop := (childrenOf rows batch).Perm (items.map (Child.mk batch))

/-- What a table stores of the items that are given for a batch. -/
structure StoresChildren (table table' : Table (Child ι) constraint) (insert : Bool) (batch : Uuid) (items : List ι) : Prop where
  stores : Stores table table' insert (items.map (Child.mk batch))
  count : (childrenOf table'.rows batch).length = items.length

/-- Children that are stored passed their checks and were counted. -/
theorem storeChildren_eq_ok {κ : Type} [DecidableEq ι] [DecidableEq κ] [DecidablePred constraint] {key : Child ι → κ}
    {checked : ι → Prop} [DecidablePred checked] {name : String} {check : ι → Except SqlError Unit} {building : Bool}
    (h : storeChildren key checked name check batch building insert table items = .ok table') :
    StoresChildren table table' insert batch items := by
  simp only [storeChildren, bind_eq_ok, raiseIf_eq_ok, not_not, pure_eq_ok] at h
  obtain ⟨stored, hloop, _, hcount, rfl⟩ := h
  refine ⟨Stores.of_foldlM ?_ hloop, hcount⟩
  intro t item t' hturn
  obtain ⟨_, -, hinsert⟩ := bind_eq_ok.mp hturn
  simp only [insertChild, bind_eq_ok] at hinsert
  obtain ⟨_, -, _, -, hexact⟩ := hinsert
  exact Stores.of_insertExact hexact

namespace StoresChildren

/-- The children of a batch that had none are the items. -/
theorem agrees_new (h : StoresChildren table table' true batch items) (hunique : table'.rows.Nodup)
    (hempty : childrenOf table.rows batch = []) : Agrees table'.rows batch items :=
  h.stores.perm_of_new hunique hempty (h.count.trans (List.length_map _).symm)

/-- The children of a batch are the items exactly if no item is given twice. -/
theorem agrees_iff (h : StoresChildren table table' insert batch items) (hunique : table'.rows.Nodup) :
    Agrees table'.rows batch items ↔ items.Nodup := by
  have hinjective : Function.Injective (Child.mk batch : ι → Child ι) := fun _ _ heq => (Child.mk.inj heq).2
  rw [← List.nodup_map_iff hinjective]
  refine h.stores.perm_iff_nodup hunique ?_ (h.count.trans (List.length_map _).symm)
  intro c hc
  obtain ⟨item, -, rfl⟩ := List.mem_map.mp hc
  exact decide_eq_true rfl

/-- A row that is there afterwards was there before or belongs to the batch. -/
theorem mem_or (h : StoresChildren table table' insert batch items) {c : Child ι} (hc : c ∈ table'.rows) :
    c ∈ table.rows ∨ c.batchId = batch := by
  obtain ⟨new, hnew, hsub, -⟩ := h.stores.added
  rw [hnew] at hc
  rcases List.mem_append.mp hc with hc | hc
  · exact .inl hc
  · obtain ⟨item, -, rfl⟩ := List.mem_map.mp (hsub hc)
    exact .inr rfl

/-- Nothing is inserted for a batch that was there before. -/
theorem rows_eq (h : StoresChildren table table' false batch items) : table'.rows = table.rows := by
  obtain ⟨new, hnew, -, hnone⟩ := h.stores.added
  rw [hnew, hnone rfl, List.append_nil]

end StoresChildren

end Children

/-! ### The tables after a publication -/

/-- What a publication does to the batches. -/
inductive Batches (store store' : MarketStore) (bundle : MarketBundle) : PublishResult → Prop where
  | new (row : MarketBatch) (hnone : publishedBatch store bundle.batch = none) (hid : row.id = bundle.batchId)
      (hcontent : row.content = bundle.batch) (hpublished : row.Published)
      (hfresh : ∀ b ∈ store.batches.rows, b.id ≠ bundle.batchId) (hrows : store'.batches.rows = store.batches.rows ++ [row]) :
      Batches store store' bundle ⟨bundle.batchId, false⟩
  | reused (b : MarketBatch) (hb : publishedBatch store bundle.batch = some b) (hcontent : b.content = bundle.batch)
      (hrows : store'.batches = store.batches) : Batches store store' bundle ⟨b.id, true⟩

/-- What a publication does to the tables. -/
structure Publishes (store store' : MarketStore) (bundle : MarketBundle) (result : PublishResult) : Prop where
  batches : Batches store store' bundle result
  inputs : StoresChildren store.inputs store'.inputs (!result.reused) result.batchId bundle.inputs
  flags : StoresChildren store.flags store'.flags (!result.reused) result.batchId bundle.flags
  prices : StoresChildren store.prices store'.prices (!result.reused) result.batchId bundle.prices
  macros : StoresChildren store.macros store'.macros (!result.reused) result.batchId bundle.macros

section Effects

variable {w : World} {store store' : MarketStore} {bundle : MarketBundle} {binding : Option QuoteBinding}
  {definition : Option SeriesDefinition} {batch : Uuid} {insert : Bool}

/-- Bindings and definitions are tables of their own. -/
theorem storeIdentities_eq_ok (h : storeIdentities w store bundle = .ok store') :
    store'.batches = store.batches ∧ store'.inputs = store.inputs ∧ store'.flags = store.flags ∧ store'.prices = store.prices ∧
      store'.macros = store.macros := by
  obtain ⟨_, -, h⟩ := bind_eq_ok.mp h
  obtain ⟨_, -, h⟩ := bind_eq_ok.mp h
  cases h
  exact ⟨rfl, rfl, rfl, rfl, rfl⟩

/-- The children of a bundle are stored under its batch, and the batches are left as they are. -/
theorem storeBundle_eq_ok (h : storeBundle w store bundle binding definition batch insert = .ok store') :
    store'.batches = store.batches ∧ StoresChildren store.inputs store'.inputs insert batch bundle.inputs ∧
      StoresChildren store.flags store'.flags insert batch bundle.flags ∧
      StoresChildren store.prices store'.prices insert batch bundle.prices ∧
      StoresChildren store.macros store'.macros insert batch bundle.macros := by
  simp only [storeBundle, bind_eq_ok, pure_eq_ok] at h
  obtain ⟨inputs, hinputs, flags, hflags, prices, hprices, macros, hmacros, rfl⟩ := h
  exact ⟨rfl, storeChildren_eq_ok hinputs, storeChildren_eq_ok hflags, storeChildren_eq_ok hprices, storeChildren_eq_ok hmacros⟩

/-- A batch that is inserted is stored as one that is being built. -/
theorem insertBatch_eq_ok {stage : Uuid} (h : insertBatch w store bundle stage = .ok store') :
    Stores store.batches store'.batches true [⟨bundle.batchId, bundle.batch, stage, w.now, .building⟩] ∧
      store'.inputs = store.inputs ∧ store'.flags = store.flags ∧ store'.prices = store.prices ∧ store'.macros = store.macros := by
  simp only [insertBatch, bind_eq_ok, pure_eq_ok] at h
  obtain ⟨_, -, _, -, batches, hexact, rfl⟩ := h
  exact ⟨Stores.of_insertExact hexact, rfl, rfl, rfl, rfl⟩

/-- A batch that is published leaves the children as they are. -/
theorem publishBatch_eq_ok (h : publishBatch w store batch = .ok store') :
    (store'.batches.rows = store.batches.rows.map fun b => if b.id = batch then { b with state := .published w.now } else b) ∧
      store'.inputs = store.inputs ∧ store'.flags = store.flags ∧ store'.prices = store.prices ∧ store'.macros = store.macros := by
  simp only [publishBatch, bind_eq_ok, pure_eq_ok] at h
  obtain ⟨_, -, batches, hupdate, rfl⟩ := h
  exact ⟨Table.update_eq_ok hupdate, rfl, rfl, rfl, rfl⟩

/-- A batch that is inserted among published ones and then published is the last row. -/
theorem batches_of_new {mid : MarketStore} {stage : Uuid} (hpublished : ∀ b ∈ store.batches.rows, b.Published)
    (hinsert : Stores store.batches mid.batches true [⟨bundle.batchId, bundle.batch, stage, w.now, .building⟩])
    (hpublish : store'.batches.rows =
      mid.batches.rows.map fun b => if b.id = bundle.batchId then { b with state := .published w.now } else b) :
    (∀ b ∈ store.batches.rows, b.id ≠ bundle.batchId) ∧
      store'.batches.rows = store.batches.rows ++ [⟨bundle.batchId, bundle.batch, stage, w.now, .published w.now⟩] := by
  obtain ⟨new, hrows, hsub, -⟩ := hinsert.added
  have hstored := hinsert.stored (List.mem_singleton_self _)
  rw [hrows] at hstored
  have hids := mid.batches.valid.1
  rw [hrows, UniqueBy, List.map_append] at hids
  -- the row is new, since the others are published
  have hnew : new = [⟨bundle.batchId, bundle.batch, stage, w.now, .building⟩] := by
    have hmem := (List.mem_append.mp hstored).resolve_left fun hold => Bool.false_ne_true (hpublished _ hold)
    rcases new with _ | ⟨b, _ | ⟨b', rest⟩⟩
    · cases hmem
    · rw [List.mem_singleton.mp (hsub (List.mem_singleton_self b))]
    · have hb := List.mem_singleton.mp (hsub List.mem_cons_self)
      have hb' := List.mem_singleton.mp (hsub (List.mem_cons_of_mem b List.mem_cons_self))
      have hnodup := (List.nodup_append'.mp hids).2.1
      rw [hb, hb', List.map_cons, List.map_cons] at hnodup
      exact absurd List.mem_cons_self (List.nodup_cons.mp hnodup).1
  rw [hnew] at hrows hids
  have hfresh : ∀ b ∈ store.batches.rows, b.id ≠ bundle.batchId := by
    intro b hb hid
    exact (List.nodup_append'.mp hids).2.2 (List.mem_map_of_mem hb) (by rw [hid]; exact List.mem_singleton_self _)
  refine ⟨hfresh, ?_⟩
  rw [hpublish, hrows, List.map_append, List.map_singleton, if_pos rfl]
  congr 1
  conv_rhs => rw [← List.map_id store.batches.rows]
  exact List.map_congr_left fun b hb => if_neg (hfresh b hb)

/-- What a publication that returns has done. -/
theorem marketPublish_eq_ok {resultText : ResultText} {lease : Lease} {stage : Uuid} {db : Database} {result : PublishResult}
    (hpublished : ∀ b ∈ store.batches.rows, b.Published)
    (h : marketPublish resultText w store lease stage bundle = .ok (db, store', result)) : Publishes store store' bundle result := by
  simp only [marketPublish, bind_eq_ok, raiseIf_eq_ok, pure_eq_ok, Prod.mk.injEq] at h
  obtain ⟨_, -, _, -, _, -, _, -, _, hcontent, identified, hidentified, _, -, _, -, _, -, _, -, _, -, _, -, begun, hbegun, stored, hstored,
    _, -, _, -, final, hfinal, _, -, -, rfl, rfl⟩ := h
  obtain ⟨hbatches, hinputs, hflags, hprices, hmacros⟩ := storeIdentities_eq_ok hidentified
  obtain ⟨hbatches', hinputs', hflags', hprices', hmacros'⟩ := storeBundle_eq_ok hstored
  cases hexisting : publishedBatch store bundle.batch with
  | none =>
    rw [hexisting] at hbegun hfinal hinputs' hflags' hprices' hmacros'
    obtain ⟨hinsert, hinputs₁, hflags₁, hprices₁, hmacros₁⟩ := insertBatch_eq_ok hbegun
    obtain ⟨hrows, hinputs₂, hflags₂, hprices₂, hmacros₂⟩ := publishBatch_eq_ok hfinal
    rw [hbatches'] at hrows
    rw [hbatches] at hinsert
    obtain ⟨hfresh, hlast⟩ := batches_of_new hpublished hinsert hrows
    rw [hinputs₁, hinputs] at hinputs'
    rw [hflags₁, hflags] at hflags'
    rw [hprices₁, hprices] at hprices'
    rw [hmacros₁, hmacros] at hmacros'
    constructor
    case batches => exact .new _ hexisting rfl rfl rfl hfresh hlast
    case inputs => exact hinputs₂ ▸ hinputs'
    case flags => exact hflags₂ ▸ hflags'
    case prices => exact hprices₂ ▸ hprices'
    case macros => exact hmacros₂ ▸ hmacros'
  | some b =>
    rw [hexisting] at hbegun hfinal hinputs' hflags' hprices' hmacros' hcontent
    cases hbegun
    cases hfinal
    have hsame : b.content = bundle.batch := by
      by_contra hne
      exact hcontent ⟨b, rfl, hne⟩
    rw [hinputs] at hinputs'
    rw [hflags] at hflags'
    rw [hprices] at hprices'
    rw [hmacros] at hmacros'
    constructor
    case batches => exact .reused b hexisting hsame (hbatches'.trans hbatches)
    case inputs => exact hinputs'
    case flags => exact hflags'
    case prices => exact hprices'
    case macros => exact hmacros'

end Effects

/-! ### Every reachable state -/

/-- The batches of some rows are there. -/
def Owned {ι : Type} (batches : List MarketBatch) (rows : List (Child ι)) : Prop := ∀ c ∈ rows, ∃ b ∈ batches, b.id = c.batchId

/-- All batches are published, and every child has its batch. -/
structure MarketStore.Sound (store : MarketStore) : Prop where
  published : ∀ b ∈ store.batches.rows, b.Published
  inputs : Owned store.batches.rows store.inputs.rows
  flags : Owned store.batches.rows store.flags.rows
  prices : Owned store.batches.rows store.prices.rows
  macros : Owned store.batches.rows store.macros.rows

/-- The rows of a batch are the children of a bundle. -/
def MarketStore.Holds (store : MarketStore) (batch : Uuid) (bundle : MarketBundle) : Prop :=
  Agrees store.inputs.rows batch bundle.inputs ∧ Agrees store.flags.rows batch bundle.flags ∧
    Agrees store.prices.rows batch bundle.prices ∧ Agrees store.macros.rows batch bundle.macros

/-- No child is given twice. -/
def MarketBundle.NoRepeats (bundle : MarketBundle) : Prop :=
  bundle.inputs.Nodup ∧ bundle.flags.Nodup ∧ bundle.prices.Nodup ∧ bundle.macros.Nodup

section Publications

variable {store store' : MarketStore} {bundle : MarketBundle} {result : PublishResult}

/-- The batch of a result is published and has the content of the bundle; the batches from before are there. -/
theorem Publishes.batch (h : Publishes store store' bundle result) (hsound : store.Sound) :
    (∃ b ∈ store'.batches.rows, b.id = result.batchId ∧ b.Published ∧ b.content = bundle.batch) ∧
      (∀ b ∈ store.batches.rows, b ∈ store'.batches.rows) ∧ ∀ b ∈ store'.batches.rows, b.Published := by
  cases h.batches with
  | new row _ hid hcontent hpublished _ hrows =>
    rw [hrows]
    refine ⟨⟨row, List.mem_concat_self, hid, hpublished, hcontent⟩, fun b hb => List.mem_append_left _ hb, fun b hb => ?_⟩
    rcases List.mem_append.mp hb with hb | hb
    · exact hsound.published b hb
    · exact List.mem_singleton.mp hb ▸ hpublished
  | reused b hb hcontent hrows =>
    rw [hrows]
    have hmem := List.mem_of_find?_eq_some hb
    exact ⟨⟨b, hmem, rfl, hsound.published b hmem, hcontent⟩, fun _ h => h, hsound.published⟩

/-- The children that a publication stores have their batch. -/
theorem StoresChildren.owned {ι : Type} {constraint : List (Child ι) → Prop} {table table' : Table (Child ι) constraint} {insert : Bool}
    {batch : Uuid} {items : List ι} {batches batches' : List MarketBatch} (h : StoresChildren table table' insert batch items)
    (howned : Owned batches table.rows) (hgrows : ∀ b ∈ batches, b ∈ batches') (hbatch : ∃ b ∈ batches', b.id = batch) :
    Owned batches' table'.rows := by
  intro c hc
  rcases h.mem_or hc with hold | hnew
  · obtain ⟨b, hb, hid⟩ := howned c hold
    exact ⟨b, hgrows b hb, hid⟩
  · rw [hnew]
    exact hbatch

/-- A publication keeps the tables sound. -/
theorem Publishes.sound (h : Publishes store store' bundle result) (hsound : store.Sound) : store'.Sound := by
  obtain ⟨⟨b, hb, hid, -, -⟩, hgrows, hpublished⟩ := h.batch hsound
  have hbatch : ∃ b ∈ store'.batches.rows, b.id = result.batchId := ⟨b, hb, hid⟩
  exact ⟨hpublished, h.inputs.owned hsound.inputs hgrows hbatch, h.flags.owned hsound.flags hgrows hbatch,
    h.prices.owned hsound.prices hgrows hbatch, h.macros.owned hsound.macros hgrows hbatch⟩

/-- A fresh batch has no children. -/
theorem childrenOf_fresh {ι : Type} {rows : List (Child ι)} {batches : List MarketBatch} (howned : Owned batches rows) {batch : Uuid}
    (hfresh : ∀ b ∈ batches, b.id ≠ batch) : childrenOf rows batch = [] := by
  refine List.filter_eq_nil_iff.mpr fun c hc hbatch => ?_
  obtain ⟨b, hb, hid⟩ := howned c hc
  exact hfresh b hb (hid.trans (of_decide_eq_true hbatch))

/-- The children of a new batch are those of the bundle. -/
theorem Publishes.holds_new (h : Publishes store store' bundle result) (hsound : store.Sound) (hnew : result.reused = false) :
    store'.Holds result.batchId bundle := by
  obtain ⟨hbatches, hinputs, hflags, hprices, hmacros⟩ := h
  rw [hnew] at hinputs hflags hprices hmacros
  cases hbatches with
  | new row _ _ _ _ hfresh _ =>
    refine ⟨?_, ?_, ?_, ?_⟩
    · exact hinputs.agrees_new (nodup_of_unique store'.inputs.valid.1) (childrenOf_fresh hsound.inputs hfresh)
    · exact hflags.agrees_new (nodup_of_unique store'.flags.valid.1) (childrenOf_fresh hsound.flags hfresh)
    · exact hprices.agrees_new (nodup_of_unique store'.prices.valid.1) (childrenOf_fresh hsound.prices hfresh)
    · exact hmacros.agrees_new (nodup_of_unique store'.macros.valid.1) (childrenOf_fresh hsound.macros hfresh)
  | reused => cases hnew

/-- The children of the batch are those of the bundle exactly if the bundle repeats none. -/
theorem Publishes.holds_iff (h : Publishes store store' bundle result) : store'.Holds result.batchId bundle ↔ bundle.NoRepeats := by
  unfold MarketStore.Holds MarketBundle.NoRepeats
  rw [h.inputs.agrees_iff (nodup_of_unique store'.inputs.valid.1), h.flags.agrees_iff (nodup_of_unique store'.flags.valid.1),
    h.prices.agrees_iff (nodup_of_unique store'.prices.valid.1), h.macros.agrees_iff (nodup_of_unique store'.macros.valid.1)]

/-- A batch that is reused keeps its children. -/
theorem Publishes.holds_before (h : Publishes store store' bundle result) (hreused : result.reused = true) :
    store'.Holds result.batchId bundle ↔ store.Holds result.batchId bundle := by
  obtain ⟨-, hinputs, hflags, hprices, hmacros⟩ := h
  rw [hreused] at hinputs hflags hprices hmacros
  unfold MarketStore.Holds
  rw [hinputs.rows_eq, hflags.rows_eq, hprices.rows_eq, hmacros.rows_eq]

end Publications

section Runs

variable {resources : Resources} {resultText : ResultText}

/-- A publication that returns leaves the other tables as they are. -/
theorem publish_eq_ok {s s' : State} {lease : Lease} {stage : Uuid} {bundle : MarketBundle} {references : References}
    {result : PublishResult} (hsound : s.store.Sound)
    (h : s.publish resources resultText lease stage bundle references = .ok (s', result)) :
    Publishes s.store s'.store bundle result := by
  simp only [State.publish, bind_eq_ok, pure_eq_ok, Prod.mk.injEq] at h
  obtain ⟨⟨db, store, published⟩, hpublish, rfl, rfl⟩ := h
  exact marketPublish_eq_ok hsound.published hpublish

/-- The tables of market data are sound in every reachable state. -/
theorem sound_invariant : (system resources resultText).Invariant fun s => s.store.Sound where
  initial := by
    rintro s ⟨-, -, -, hstore⟩
    rw [hstore]
    constructor
    case published => exact fun b hb => absurd hb List.not_mem_nil
    case inputs | flags | prices | macros => exact fun c hc => absurd hc List.not_mem_nil
  step := by
    intro s action s' hsound hstep
    rcases effect_of_step hstep with rfl | heffect
    · exact hsound
    cases heffect with
    | published lease stage bundle references result hpublish => exact (publish_eq_ok hsound hpublish).sound hsound
    | elapsed now db h => exact h ▸ hsound
    | granted capabilities hkept h => exact h ▸ hsound
    | fetched captures attempts guard hcaptures hattempts h => exact h ▸ hsound

/-- A published batch is found again by its input. -/
theorem publishedBatch_eq_some {s : State} {batch : BatchContent} {b : MarketBatch} (h : publishedBatch s.store batch = some b) :
    b ∈ s.store.batches.rows ∧ b.Published := by
  have hfound : b.input = (batch.sourceId, batch.inputManifestHash) ∧ b.Published := by
    simpa only [decide_eq_true_eq] using List.find?_some h
  exact ⟨List.mem_of_find?_eq_some h, hfound.2⟩

/-- **Publication is exact.** A source and an input have at most one published batch. A publication that returns has stored exactly
the children of its bundle under the batch that it names, if the batch is new or the bundle repeats no child; a bundle that repeats
none and differs from the batch of its input is refused; and a call that is refused changes nothing. -/
theorem publication_exact {s : State} (hs : (system resources resultText).Reachable s) :
    (∀ b ∈ s.store.batches.rows, ∀ b' ∈ s.store.batches.rows, b.Published → b'.Published → b.input = b'.input → b = b') ∧
      ∀ lease stage bundle references,
        (∀ s' result, s.publish resources resultText lease stage bundle references = .ok (s', result) →
          (∃ b ∈ s'.store.batches.rows, b.id = result.batchId ∧ b.Published ∧ b.content = bundle.batch) ∧
            (result.reused = true ↔ publishedBatch s.store bundle.batch ≠ none) ∧
            (result.reused = false ∨ bundle.NoRepeats → s'.store.Holds result.batchId bundle)) ∧
        (∀ b, publishedBatch s.store bundle.batch = some b → bundle.NoRepeats →
          ¬ (b.content = bundle.batch ∧ s.store.Holds b.id bundle) →
            ∃ e, s.publish resources resultText lease stage bundle references = .error e) ∧
        ∀ e, s.publish resources resultText lease stage bundle references = .error e →
          s.after resources resultText (.publish lease stage bundle references) = s := by
  have hsound := sound_invariant.holds hs
  refine ⟨?_, ?_⟩
  · intro b hb b' hb' hpublished hpublished' hinput
    exact List.inj_on_of_nodup_map s.store.batches.valid.2.1 (List.mem_filter.mpr ⟨hb, decide_eq_true hpublished⟩)
      (List.mem_filter.mpr ⟨hb', decide_eq_true hpublished'⟩) hinput
  intro lease stage bundle references
  refine ⟨?_, ?_, ?_⟩
  · intro s' result hpublish
    have h := publish_eq_ok hsound hpublish
    refine ⟨(h.batch hsound).1, ?_, ?_⟩
    · cases h.batches with
      | new _ hnone => exact ⟨fun hreused => (Bool.false_ne_true hreused).elim, fun hsome => absurd hnone hsome⟩
      | reused b hb => exact ⟨fun _ => by rw [hb]; exact Option.some_ne_none b, fun _ => rfl⟩
    · rintro (hnew | hnoRepeats)
      · exact h.holds_new hsound hnew
      · exact h.holds_iff.mpr hnoRepeats
  · intro b hb hnoRepeats hdiffers
    cases hpublish : s.publish resources resultText lease stage bundle references with
    | error e => exact ⟨e, rfl⟩
    | ok published =>
      obtain ⟨s', result⟩ := published
      have h := publish_eq_ok hsound hpublish
      have hholds := h.holds_iff.mpr hnoRepeats
      cases hbatches : h.batches with
      | new _ hnone => exact absurd (hb.symm.trans hnone) (Option.some_ne_none b)
      | reused b' hb' hcontent =>
        obtain rfl : b = b' := Option.some.inj (hb.symm.trans hb')
        exact absurd ⟨hcontent, (h.holds_before rfl).mp hholds⟩ hdiffers
  · intro e herror
    simp only [State.after, State.perform, herror]
    rfl

end Runs

/-! ### A series without observations -/

/-- A request for one series. -/
def samplePlanned : AnalysisRequest where
  id := 1
  workspaceId := 10
  securityId := 11
  quoteIdentifierId := some 12
  trigger := .manualRefresh
  membershipId := none
  parentRequestId := none
  requestSequence := 1
  idempotencyKey := "key"
  options :=
    { maxAttempts := 3
      marketPlan := some ⟨none, none, none, some 5, some ["BC_10YEAR"], some 0, some 30, none⟩ }
  parametersHash := "hash"

/-- A stage that normalizes the series. -/
def sampleStage (id : Uuid) : StageAttempt := ⟨id, 2, "macro_normalization_0123456789abcdef", 1, 0, none, [], none⟩

/-- The request runs, and has some stages. -/
def sampleDatabase (stages : Table StageAttempt StagesValid) : Database :=
  { Database.empty with
    requests := ⟨[samplePlanned], by decide⟩
    executions := ⟨[⟨2, 1, 1, .running "worker" (seconds 3600), none, 0, 1, none, none, none, none⟩], by decide⟩
    requestStates := ⟨[⟨1, 2, 1, none⟩], by decide⟩
    stages := stages }

/-- The lease of the execution. -/
def sampleLease : Lease := ⟨1, 2, 1, 1, "worker"⟩

/-- A capability that covers the whole source. -/
def sampleCapability : Capability where
  policyRevisionId := 6
  sourceId := 5
  rawScope := ⟨.source, []⟩
  normalizedScope := ⟨.source, []⟩
  rawRetention := .indefiniteWithoutRequiredDeletion
  normalizedRetention := .indefiniteWithoutRequiredDeletion
  internalAnalysisAllowed := true
  reviewValidUntil := none
  reviewBasis := "review"

/-- A flag of the series. -/
def sampleFlag (id : Uuid) : QualityFlag := ⟨id, none, none, "no_observations", .blocking, "no observations", none, none, none, 0⟩

/-- A batch without observations that two flags explain. -/
def sampleBundle : MarketBundle where
  batchId := 50
  batch :=
    { dataKind := .macroSeries, sourceId := 5, policyRevisionId := 6, quoteIdentifierId := none, securityId := none
      quoteBindingId := none, sourceSeriesKey := some "BC_10YEAR", seriesDefinitionId := none, requestedStart := 0
      requestedEnd := 30, sourceVintageMode := .currentProviderHistory, sourceAsOfDate := none, retrievalCutoff := none
      parserRevision := "parser-v1", normalizerRevision := "normalizer-v1", selectionPolicyRevision := "selection-v1"
      inputManifestHash := String.ofList (List.replicate 64 '0'), outputManifestHash := String.ofList (List.replicate 64 '1')
      manifestBlobKey := "manifest", manifestBodySha256 := String.ofList (List.replicate 64 '2'), manifestByteCount := 2
      coverageState := .unavailable }
  inputs := []
  flags := [sampleFlag 60, sampleFlag 61]
  prices := []
  macros := []

/-- The same batch under another identifier, with one flag twice and the other one left out. -/
def repeatingBundle : MarketBundle := { sampleBundle with batchId := 51, flags := [sampleFlag 60, sampleFlag 60] }

/-- Every row that a publication refers to is there. -/
def sampleReferences : References := ⟨fun _ => none, fun _ => [], fun _ => true, fun _ => true, fun _ => true⟩

/-- No source is one of the SEC. -/
def sampleResources : Resources := ⟨fun _ => some 5, fun _ _ _ _ => false, fun _ _ _ => .ok ()⟩

/-- The text of a result. -/
def sampleText : ResultText := fun _ _ => "batch"

/-- Nothing is published, and the stage runs. -/
def sampleStart : State :=
  { now := 0, db := sampleDatabase ⟨[sampleStage 3], by decide +kernel⟩, capabilities := ⟨[], capabilitiesValid_nil⟩
    captures := ⟨[], Ingestion.capturesValid_nil⟩, attempts := ⟨[], Ingestion.attemptsValid_nil⟩, store := .empty }

/-- A capability is there. -/
def sampleReady : State := sampleStart.after sampleResources sampleText (.insertCapability sampleCapability)

/-- The bundle is published. -/
def samplePublished : State := sampleReady.after sampleResources sampleText (.publish sampleLease 3 sampleBundle sampleReferences)

/-- Another stage runs. -/
def sampleAgain : State :=
  samplePublished.after sampleResources sampleText (.workflow (sampleDatabase ⟨[sampleStage 4], by decide +kernel⟩))

/-- What a publication of the samples returns. -/
def sampleAnswer (s : State) (stage : Uuid) (bundle : MarketBundle) : Option PublishResult :=
  (s.publish sampleResources sampleText sampleLease stage bundle sampleReferences).toOption.map Prod.snd

/-- A publication that answers has returned a state. -/
theorem exists_of_sampleAnswer {s : State} {stage : Uuid} {bundle : MarketBundle} {result : PublishResult}
    (h : sampleAnswer s stage bundle = some result) :
    ∃ s', s.publish sampleResources sampleText sampleLease stage bundle sampleReferences = .ok (s', result) := by
  obtain ⟨⟨s', _⟩, hpublish, rfl⟩ := Option.map_eq_some_iff.mp h
  exact ⟨s', toOption_eq_some.mp hpublish⟩

theorem sampleReady_reachable : (system sampleResources sampleText).Reachable sampleReady := by
  have hstart : (system sampleResources sampleText).Reachable sampleStart := .initial ⟨rfl, rfl, rfl, rfl⟩
  exact reachable_after hstart _ trivial

theorem sampleAgain_reachable : (system sampleResources sampleText).Reachable sampleAgain := by
  have hpublished : (system sampleResources sampleText).Reachable samplePublished := reachable_after sampleReady_reachable _ trivial
  exact reachable_after hpublished _ trivial

theorem repeated_child_accepted :
    ∃ s, (system sampleResources sampleText).Reachable s ∧ ∃ s' result,
      s.publish sampleResources sampleText sampleLease 4 repeatingBundle sampleReferences = .ok (s', result) ∧
        ¬ s'.store.Holds result.batchId repeatingBundle ∧ result.batchId ≠ repeatingBundle.batchId := by
  have hanswer : sampleAnswer sampleAgain 4 repeatingBundle = some ⟨50, true⟩ := by decide +kernel
  obtain ⟨s', hpublish⟩ := exists_of_sampleAnswer hanswer
  have h := publish_eq_ok (sound_invariant.holds sampleAgain_reachable) hpublish
  refine ⟨sampleAgain, sampleAgain_reachable, s', ⟨50, true⟩, hpublish, ?_, by decide⟩
  rw [h.holds_iff]
  rintro ⟨-, hflags, -, -⟩
  exact absurd hflags (by decide)

theorem publication_exact_sample :
    ∃ s' result, sampleReady.publish sampleResources sampleText sampleLease 3 sampleBundle sampleReferences = .ok (s', result) ∧
      s'.store.Holds result.batchId sampleBundle := by
  have hanswer : sampleAnswer sampleReady 3 sampleBundle = some ⟨50, false⟩ := by decide +kernel
  obtain ⟨s', hpublish⟩ := exists_of_sampleAnswer hanswer
  obtain ⟨hreturned, -, -⟩ := (publication_exact sampleReady_reachable).2 sampleLease 3 sampleBundle sampleReferences
  exact ⟨s', ⟨50, false⟩, hpublish, (hreturned s' _ hpublish).2.2 (.inl rfl)⟩

end EquityEval.Market
