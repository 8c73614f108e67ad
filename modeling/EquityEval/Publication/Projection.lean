import EquityEval.Publication.Calls

/-!
# The projection of the latest requests and results

A projection answers for each context. Projecting a request takes the answer of its context to the
later of the two, and projecting a result touches the answer only while its request is the latest.
-/

namespace EquityEval.Publication

open Relational
open Workflow (Uuid SqlError violates)

/-- The row of a context after another row of it was projected. -/
def LatestRow.advance (row : LatestRow) : Option LatestRow → LatestRow
  | none => row
  | some old =>
    if old.latestRequestSequence < row.latestRequestSequence then
      { old with latestRequestId := row.latestRequestId, latestRequestSequence := row.latestRequestSequence }
    else old

/-- The row after a result of its context was projected. -/
def LatestRow.publish (context : Context) (sequence : ℕ) (result : Uuid) (row : LatestRow) : LatestRow :=
  if row.context = context ∧ row.latestRequestSequence = sequence then { row with snapshot := some (result, sequence) } else row

/-- A projection where a request was projected. -/
def Advanced (row : LatestRow) (latest latest' : Table LatestRow LatestValid) : Prop :=
  ∀ c, latest'.lookup LatestRow.context c =
    if c = row.context then some (row.advance (latest.lookup LatestRow.context c)) else latest.lookup LatestRow.context c

/-- A projection where a result was projected. -/
def Published (context : Context) (sequence : ℕ) (result : Uuid) (latest latest' : Table LatestRow LatestValid) : Prop :=
  ∀ c, latest'.lookup LatestRow.context c = (latest.lookup LatestRow.context c).map (LatestRow.publish context sequence result)

/-- A row comes before a later one of its context. -/
structure LatestRow.Before (old new : LatestRow) : Prop where
  context : new.context = old.context
  requests : old.latestRequestSequence ≤ new.latestRequestSequence
  snapshots : ∀ snapshot ∈ old.snapshot, ∃ later ∈ new.snapshot, snapshot.2 ≤ later.2

instance : IsPreorder LatestRow LatestRow.Before where
  refl _ := ⟨rfl, le_refl _, fun snapshot h => ⟨snapshot, h, le_refl _⟩⟩
  trans _ _ _ h h' := by
    refine ⟨h'.context.trans h.context, h.requests.trans h'.requests, fun snapshot hsnapshot => ?_⟩
    obtain ⟨later, hlater, hle⟩ := h.snapshots snapshot hsnapshot
    obtain ⟨latest, hlatest, hle'⟩ := h'.snapshots later hlater
    exact ⟨latest, hlatest, hle.trans hle'⟩

section Rows

variable {row old : LatestRow} {context : Context} {sequence : ℕ} {result : Uuid}

/-- A row that is there comes before what it is after a request was projected. -/
theorem LatestRow.before_advance : old.Before (row.advance (some old)) := by
  simp only [advance]
  split
  next hlt => exact ⟨rfl, hlt.le, fun snapshot hsnapshot => ⟨snapshot, hsnapshot, le_refl _⟩⟩
  next => exact refl_of LatestRow.Before old

/-- A projected request is not after the latest one. -/
theorem LatestRow.le_advance (row : LatestRow) (found : Option LatestRow) :
    row.latestRequestSequence ≤ (row.advance found).latestRequestSequence := by
  cases found with
  | none => exact le_refl _
  | some old =>
    simp only [advance]
    split
    next => exact le_refl _
    next hle => exact not_lt.mp hle

/-- A result is never projected before another one: the sequence of a snapshot is not after the latest request. -/
theorem LatestRow.before_publish (hvalid : ∀ snapshot ∈ old.snapshot, snapshot.2 ≤ old.latestRequestSequence) :
    old.Before (old.publish context sequence result) := by
  unfold publish
  split
  next h => exact ⟨rfl, le_refl _, fun snapshot hsnapshot => ⟨_, rfl, h.2 ▸ hvalid snapshot hsnapshot⟩⟩
  next => exact refl_of LatestRow.Before old

end Rows

section Tables

variable {latest latest' : Table LatestRow LatestValid} {row new : LatestRow} {context : Context} {sequence : ℕ} {result : Uuid}

/-- A row is the answer for its context. -/
theorem lookup_latest (h : row ∈ latest.rows) : latest.lookup LatestRow.context row.context = some row :=
  Table.lookup_of_mem latest.valid.1 h

/-- A row after a request was projected: it was there, or it is the row of the context of the request. -/
theorem Advanced.mem (h : Advanced row latest latest') (hnew : new ∈ latest'.rows) : new ∈ latest.rows ∨ new.context = row.context ∧
    (new = row ∨ ∃ old ∈ latest.rows, old.context = row.context ∧ new = row.advance (some old)) := by
  have hfound := lookup_latest hnew
  rw [h] at hfound
  split at hfound
  next hcontext =>
    right
    refine ⟨hcontext, ?_⟩
    cases hold : latest.lookup LatestRow.context new.context with
    | none =>
      rw [hold] at hfound
      exact Or.inl (Option.some.inj hfound).symm
    | some old =>
      rw [hold] at hfound
      obtain ⟨hmem, hc⟩ := Table.lookup_eq_some hold
      exact Or.inr ⟨old, hmem, hc.trans hcontext, (Option.some.inj hfound).symm⟩
  next => exact Or.inl (Table.lookup_eq_some hfound).1

/-- Every row comes before one that is there after a request was projected. -/
theorem Advanced.before (h : Advanced row latest latest') {old : LatestRow} (hold : old ∈ latest.rows) :
    ∃ new ∈ latest'.rows, old.Before new := by
  have hfound := h old.context
  rw [lookup_latest hold] at hfound
  split at hfound
  next => exact ⟨_, (Table.lookup_eq_some hfound).1, LatestRow.before_advance⟩
  next => exact ⟨old, (Table.lookup_eq_some hfound).1, refl_of LatestRow.Before old⟩

/-- The context of a projected request has a row whose latest request is not before it. -/
theorem Advanced.projected (h : Advanced row latest latest') :
    ∃ new ∈ latest'.rows, new.context = row.context ∧ row.latestRequestSequence ≤ new.latestRequestSequence := by
  have hfound := h row.context
  rw [if_pos rfl] at hfound
  obtain ⟨hmem, hcontext⟩ := Table.lookup_eq_some hfound
  exact ⟨_, hmem, hcontext, row.le_advance _⟩

/-- A row after a result was projected was there before it. -/
theorem Published.mem (h : Published context sequence result latest latest') (hnew : new ∈ latest'.rows) :
    ∃ old ∈ latest.rows, new = old.publish context sequence result := by
  have hfound := lookup_latest hnew
  rw [h] at hfound
  obtain ⟨old, hold, hpublish⟩ := Option.map_eq_some_iff.mp hfound
  exact ⟨old, (Table.lookup_eq_some hold).1, hpublish.symm⟩

/-- Every row comes before one that is there after a result was projected. -/
theorem Published.before (h : Published context sequence result latest latest') {old : LatestRow} (hold : old ∈ latest.rows) :
    ∃ new ∈ latest'.rows, old.Before new := by
  have hfound := h old.context
  rw [lookup_latest hold] at hfound
  exact ⟨_, (Table.lookup_eq_some hfound).1, LatestRow.before_publish (latest.valid.2 old hold)⟩

end Tables

/-! ### What projecting does -/

section Projecting

variable {store store' : Store} {workflow : Workflow.Database} {context : Context} {request result : Uuid} {sequence : ℕ}

/-- A request that is projected is intended, and its context answers with the later of the requests. -/
theorem Store.project_eq_ok (h : store.project workflow context request sequence = .ok store') :
    store.Intends workflow context request sequence ∧ ∃ latest, store' = { store with latest } ∧
      Advanced { context, latestRequestId := request, latestRequestSequence := sequence } store.latest latest := by
  unfold Store.project at h
  obtain ⟨_, hguard, h⟩ := bind_eq_ok.mp h
  have hintends : store.Intends workflow context request sequence := by
    unfold Store.latestGuard at hguard
    obtain ⟨_, hintended, -⟩ := bind_eq_ok.mp hguard
    exact not_not.mp (raiseIf_eq_ok.mp hintended)
  refine ⟨hintends, ?_⟩
  cases hfound : store.latest.lookup LatestRow.context context with
  | none =>
    simp only [hfound] at h
    obtain ⟨latest, hinsert, hreturn⟩ := bind_eq_ok.mp h
    refine ⟨latest, (pure_eq_ok.mp hreturn).symm, fun c => ?_⟩
    have hrows := Table.insert_eq_ok hinsert
    rw [Table.lookup_insert hrows]
    by_cases hc : c = context
    · rw [hc, hfound, if_pos rfl, if_pos rfl]
      rfl
    · rw [if_neg hc, if_neg (fun heq => hc heq.symm), Option.or_none]
  | some old =>
    have hold := (Table.lookup_eq_some hfound).2
    simp only [hfound] at h
    split at h
    next hlt =>
      obtain ⟨_, -, h⟩ := bind_eq_ok.mp h
      obtain ⟨latest, hupdate, hreturn⟩ := bind_eq_ok.mp h
      refine ⟨latest, (pure_eq_ok.mp hreturn).symm, fun c => ?_⟩
      rw [Table.lookup_changed (Table.update_eq_ok hupdate) fun row hrow => hold.trans hrow.symm]
      by_cases hc : c = context
      · rw [hc, hfound, if_pos rfl, Option.map_some, if_pos hold]
        simp only [LatestRow.advance]
        rw [if_pos hlt]
      · rw [if_neg hc]
        cases hother : store.latest.lookup LatestRow.context c with
        | none => rfl
        | some other =>
          rw [Option.map_some, if_neg (fun heq => hc ((Table.lookup_eq_some hother).2.symm.trans heq))]
    next hle =>
      refine ⟨store.latest, (pure_eq_ok.mp h).symm, fun c => ?_⟩
      by_cases hc : c = context
      · rw [hc, hfound, if_pos rfl]
        simp only [LatestRow.advance]
        rw [if_neg hle]
      · rw [if_neg hc]

/-- A row with the context and the sequence of a result is the one that its projection replaces. -/
theorem Store.find_latest {old row : LatestRow}
    (hfound : (store.latest.rows.find? fun row => decide (row.context = context ∧ row.latestRequestSequence = sequence)) = some old)
    (hrow : row ∈ store.latest.rows) (hcontext : row.context = context) : row = old := by
  have hmeets := List.find?_some hfound
  rw [decide_eq_true_eq] at hmeets
  exact List.inj_on_of_nodup_map store.latest.valid.1 hrow (List.mem_of_find?_eq_some hfound) (hcontext.trans hmeets.1.symm)

/-- A projection where the row of a result was replaced. -/
theorem Store.published_of_update {old : LatestRow} {latest : Table LatestRow LatestValid}
    (hfound : (store.latest.rows.find? fun row => decide (row.context = context ∧ row.latestRequestSequence = sequence)) = some old)
    (hrows : latest.rows = store.latest.rows.map fun row =>
      if row.context = context ∧ row.latestRequestSequence = sequence then { old with snapshot := some (result, sequence) } else row) :
    Published context sequence result store.latest latest := by
  have hmeets := List.find?_some hfound
  rw [decide_eq_true_eq] at hmeets
  intro c
  rw [Table.lookup_changed hrows fun row hrow => hmeets.1.trans hrow.1.symm]
  refine Option.map_congr fun row hrow => ?_
  unfold LatestRow.publish
  split
  next h => rw [Store.find_latest hfound (Table.lookup_eq_some hrow).1 h.1]
  next => rfl

/-- A result that is projected is that of the latest request of its context, or no row changes. -/
theorem Store.projectResult_eq_ok (h : store.projectResult workflow context sequence result = .ok store') :
    ∃ latest, store' = { store with latest } ∧ Published context sequence result store.latest latest := by
  unfold Store.projectResult at h
  split at h
  next hnone =>
    refine ⟨store.latest, (pure_eq_ok.mp h).symm, fun c => ?_⟩
    cases hlookup : store.latest.lookup LatestRow.context c with
    | none => rfl
    | some row =>
      have hnot := List.find?_eq_none.mp hnone row (Table.lookup_eq_some hlookup).1
      rw [decide_eq_true_eq] at hnot
      exact congrArg some (if_neg hnot).symm
  next old hfound =>
    obtain ⟨_, -, h⟩ := bind_eq_ok.mp h
    obtain ⟨latest, hupdate, hreturn⟩ := bind_eq_ok.mp h
    exact ⟨latest, (pure_eq_ok.mp hreturn).symm, Store.published_of_update hfound (Table.update_eq_ok hupdate)⟩

end Projecting

end EquityEval.Publication
