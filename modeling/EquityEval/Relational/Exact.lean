import EquityEval.Relational.Table
import Mathlib.Data.List.Perm.Subperm

/-!
# Exact insertion

A row is inserted unless it is in conflict with one that is there, and then the row with its key has to
be the row that was given. The rows that a series of such insertions is given are all stored; whether the
rows of a group are exactly these, each once, is a matter of their number.
-/

namespace Relational

universe v

variable {ρ κ ε : Type} {constraint : List ρ → Prop}

section Insertions

variable [DecidablePred constraint]

/-- Insert a row unless it breaks a constraint: `ON CONFLICT DO NOTHING`. -/
def Table.insertOrIgnore (t : Table ρ constraint) (row : ρ) : Table ρ constraint :=
  if h : constraint (t.rows ++ [row]) then ⟨t.rows ++ [row], h⟩ else t

/-- Insert a row if asked to, and check that the row with its key is that row. -/
def Table.insertExact [DecidableEq ρ] [DecidableEq κ] (t : Table ρ constraint) (key : ρ → κ) (row : ρ) (insert : Bool) (conflict : ε) :
    Except ε (Table ρ constraint) := do
  let t := if insert then t.insertOrIgnore row else t
  raiseIf (t.lookup key (key row) ≠ some row) conflict
  return t

end Insertions

/-- All rows of a list are stored, and no others are added; none are added unless insertions are made. -/
structure Stores (t t' : Table ρ constraint) (insert : Bool) (rows : List ρ) : Prop where
  added : ∃ new, t'.rows = t.rows ++ new ∧ new ⊆ rows ∧ (insert = false → new = [])
  stored : rows ⊆ t'.rows

namespace Stores

variable {t t' t'' : Table ρ constraint} {insert : Bool} {rows rows' : List ρ}

/-- Nothing to store. -/
theorem nil : Stores t t insert [] := ⟨⟨[], (List.append_nil _).symm, List.nil_subset _, fun _ => rfl⟩, List.nil_subset _⟩

/-- Rows that are stored stay so. -/
theorem grows (h : Stores t t' insert rows) : t.rows ⊆ t'.rows := by
  obtain ⟨new, hnew, -⟩ := h.added
  rw [hnew]
  exact List.subset_append_left _ _

/-- One list after the other is stored. -/
theorem append (h : Stores t t' insert rows) (h' : Stores t' t'' insert rows') : Stores t t'' insert (rows ++ rows') := by
  obtain ⟨new, hnew, hsub, hnone⟩ := h.added
  obtain ⟨new', hnew', hsub', hnone'⟩ := h'.added
  constructor
  case added =>
    refine ⟨new ++ new', by rw [hnew', hnew, List.append_assoc], ?_, ?_⟩
    · exact List.append_subset.mpr ⟨List.subset_append_of_subset_left _ hsub, List.subset_append_of_subset_right _ hsub'⟩
    · intro hinsert
      rw [hnone hinsert, hnone' hinsert, List.append_nil]
  case stored => exact List.append_subset.mpr ⟨fun x hx => h'.grows (h.stored hx), h'.stored⟩

/-- An exact insertion stores its row. -/
theorem of_insertExact [DecidablePred constraint] [DecidableEq ρ] [DecidableEq κ] {key : ρ → κ} {row : ρ} {conflict : ε}
    (h : t.insertExact key row insert conflict = .ok t') : Stores t t' insert [row] := by
  simp only [Table.insertExact, bind_eq_ok, raiseIf_eq_ok, not_not, pure_eq_ok] at h
  obtain ⟨-, hlookup, rfl⟩ := h
  refine ⟨?_, List.cons_subset.mpr ⟨(Table.lookup_eq_some hlookup).1, List.nil_subset _⟩⟩
  split
  next hinsert =>
    unfold Table.insertOrIgnore
    split
    · exact ⟨[row], rfl, List.Subset.refl _, fun hnot => absurd hinsert (by rw [hnot]; decide)⟩
    · exact ⟨[], (List.append_nil _).symm, List.nil_subset _, fun _ => rfl⟩
  next => exact ⟨[], (List.append_nil _).symm, List.nil_subset _, fun _ => rfl⟩

/-- A loop each of whose turns stores a row stores them all. -/
theorem of_foldlM {α : Type v} {f : Table ρ constraint → α → Except ε (Table ρ constraint)} {row : α → ρ} {items : List α}
    (hf : ∀ t a t', f t a = .ok t' → Stores t t' insert [row a]) (h : items.foldlM f t = .ok t') :
    Stores t t' insert (items.map row) := by
  induction items generalizing t with
  | nil =>
    cases h
    exact nil
  | cons a items ih =>
    rw [List.foldlM_cons] at h
    obtain ⟨t₁, hfirst, hrest⟩ := bind_eq_ok.mp h
    exact (hf t a t₁ hfirst).append (ih hrest)

/-- Rows of a group that was empty are the rows given, when they are as many. -/
theorem perm_of_new (h : Stores t t' true rows) (hunique : t'.rows.Nodup) {group : ρ → Bool} (hempty : t.rows.filter group = [])
    (hcount : (t'.rows.filter group).length = rows.length) :
    (t'.rows.filter group).Perm rows := by
  obtain ⟨new, hnew, hsub, -⟩ := h.added
  have hrows : t'.rows.filter group ⊆ rows := by
    rw [hnew, List.filter_append, hempty, List.nil_append]
    exact fun x hx => hsub (List.mem_of_mem_filter hx)
  exact ((hunique.filter group).subperm hrows).perm_of_length_le hcount.ge

/-- Rows of a group are the rows given, when they are as many, exactly if none of these is given twice. -/
theorem perm_iff_nodup (h : Stores t t' insert rows) (hunique : t'.rows.Nodup) {group : ρ → Bool}
    (hgroup : ∀ row ∈ rows, group row = true) (hcount : (t'.rows.filter group).length = rows.length) :
    (t'.rows.filter group).Perm rows ↔ rows.Nodup := by
  constructor
  · intro hperm
    exact hperm.nodup_iff.mp (hunique.filter group)
  · intro hnodup
    have hrows : rows ⊆ t'.rows.filter group := fun x hx => List.mem_filter.mpr ⟨h.stored hx, hgroup x hx⟩
    exact ((hnodup.subperm hrows).perm_of_length_le hcount.le).symm

end Stores

end Relational
