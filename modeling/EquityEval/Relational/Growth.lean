import EquityEval.Relational.Table

/-!
# Growing tables

A table that is only appended to keeps its rows in their order. What was found in it is found again,
and a selection of rows that are no longer added stays the same.
-/

namespace Relational

universe u v

namespace Table

variable {ρ : Type u} {κ : Type v} {constraint : List ρ → Prop}

/-- The rows are kept, and the rows that are added are not closed. -/
def Extends (closed : ρ → Prop) (t t' : Table ρ constraint) : Prop :=
  ∃ added, t'.rows = t.rows ++ added ∧ ∀ row ∈ added, ¬ closed row

/-- The rows are kept. -/
abbrev Grows (t t' : Table ρ constraint) : Prop := Extends (fun _ => False) t t'

namespace Extends

variable {closed : ρ → Prop} {t t' t'' : Table ρ constraint}

/-- Nothing is added. -/
theorem of_eq (h : t'.rows = t.rows) : Extends closed t t' := ⟨[], by simpa using h, by simp⟩

/-- A table extends itself. -/
theorem refl (t : Table ρ constraint) : Extends closed t t := of_eq rfl

/-- Extensions compose. -/
theorem trans (h : Extends closed t t') (h' : Extends closed t' t'') : Extends closed t t'' := by
  obtain ⟨added, hrows, hopen⟩ := h
  obtain ⟨more, hrows', hopen'⟩ := h'
  refine ⟨added ++ more, by rw [hrows', hrows, List.append_assoc], fun row hrow => ?_⟩
  rcases List.mem_append.mp hrow with hrow | hrow
  · exact hopen row hrow
  · exact hopen' row hrow

/-- A row that is not closed is added. -/
theorem concat {row : ρ} (h : t'.rows = t.rows ++ [row]) (hopen : ¬ closed row) : Extends closed t t' :=
  ⟨[row], h, by simpa using hopen⟩

/-- What is not added because of a weaker condition is not added. -/
theorem weaken {closed' : ρ → Prop} (h : Extends closed t t') (hclosed : ∀ row, closed' row → closed row) :
    Extends closed' t t' := by
  obtain ⟨added, hrows, hopen⟩ := h
  exact ⟨added, hrows, fun row hrow hclosed' => hopen row hrow (hclosed row hclosed')⟩

/-- The rows are kept. -/
theorem grows (h : Extends closed t t') : Grows t t' := by
  obtain ⟨added, hrows, -⟩ := h
  exact ⟨added, hrows, fun _ _ => id⟩

/-- The rows are kept. -/
theorem mem (h : Extends closed t t') {row : ρ} (hrow : row ∈ t.rows) : row ∈ t'.rows := by
  obtain ⟨added, hrows, -⟩ := h
  rw [hrows]
  exact List.mem_append_left _ hrow

/-- A row was there or is not closed. -/
theorem mem_or (h : Extends closed t t') {row : ρ} (hrow : row ∈ t'.rows) : row ∈ t.rows ∨ ¬ closed row := by
  obtain ⟨added, hrows, hopen⟩ := h
  rw [hrows] at hrow
  exact (List.mem_append.mp hrow).imp_right (hopen row)

/-- What was found is found again. -/
theorem lookup [DecidableEq κ] (h : Extends closed t t') {key : ρ → κ} {k : κ} {row : ρ} (hrow : t.lookup key k = some row) :
    t'.lookup key k = some row := by
  obtain ⟨added, hrows, -⟩ := h
  simp only [Table.lookup] at hrow ⊢
  rw [hrows, List.find?_append, hrow]
  rfl

/-- A lookup of what is there finds the same. -/
theorem lookup_eq [DecidableEq κ] (h : Extends closed t t') {key : ρ → κ} {k : κ} (hrow : (t.lookup key k).isSome) :
    t'.lookup key k = t.lookup key k := by
  obtain ⟨row, hsome⟩ := Option.isSome_iff_exists.mp hrow
  rw [hsome, h.lookup hsome]

/-- What was found is there again. -/
theorem isSome_lookup [DecidableEq κ] (h : Extends closed t t') {key : ρ → κ} {k : κ} (hrow : (t.lookup key k).isSome) :
    (t'.lookup key k).isSome := by
  obtain ⟨row, hsome⟩ := Option.isSome_iff_exists.mp hrow
  rw [h.lookup hsome]
  rfl

/-- A selection of closed rows stays the same. -/
theorem select (h : Extends closed t t') {condition : ρ → Prop} [DecidablePred condition]
    (hclosed : ∀ row, condition row → closed row) : t'.select condition = t.select condition := by
  obtain ⟨added, hrows, hopen⟩ := h
  have hnone : added.filter (fun row => decide (condition row)) = [] := by
    rw [List.filter_eq_nil_iff]
    intro row hrow hcondition
    exact hopen row hrow (hclosed row (of_decide_eq_true hcondition))
  simp only [Table.select, hrows, List.filter_append, hnone, List.append_nil]

/-- A selection by keys of rows that are there stays the same. -/
theorem select_keys [DecidableEq κ] (h : Extends closed t t') {key : ρ → κ} (hunique : UniqueBy key t'.rows) {keys : List κ}
    (hkeys : ∀ k ∈ keys, ∃ row ∈ t.rows, key row = k) :
    t'.select (fun row => key row ∈ keys) = t.select fun row => key row ∈ keys := by
  obtain ⟨added, hrows, -⟩ := h
  have hnone : added.filter (fun row => decide (key row ∈ keys)) = [] := by
    rw [List.filter_eq_nil_iff]
    intro row hrow hmem
    obtain ⟨old, hold, hkey⟩ := hkeys _ (of_decide_eq_true hmem)
    rw [hrows, UniqueBy, List.map_append, List.nodup_append] at hunique
    exact hunique.2.2 _ (List.mem_map_of_mem hold) _ (List.mem_map_of_mem hrow) hkey
  simp only [Table.select, hrows, List.filter_append, hnone, List.append_nil]

end Extends

end Table

end Relational
