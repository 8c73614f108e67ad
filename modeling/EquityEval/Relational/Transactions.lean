import Mathlib.Data.List.Basic
import Mathlib.Data.Int.Notation
import Mathlib.Logic.Function.Basic

/-!
# Rows of concurrent transactions

Each row keeps the transaction that wrote it. A statement sees the rows of its own transaction and
those of committed ones; the rows of an aborted transaction are no rows. A transaction that ends
releases its locks.
-/

namespace Relational

/-- What became of a transaction. -/
inductive TransactionOutcome where
  | active
  | committed
  | aborted
deriving DecidableEq, Repr

/-- A row with the transaction that wrote it. -/
structure Row (α : Type) where
  writer : ℕ
  value : α
deriving DecidableEq

/-- What became of every transaction. -/
abbrev Outcomes : Type := ℕ → TransactionOutcome

/-- The row is there, or will be when its transaction commits. -/
def Row.Live {α : Type} (o : Outcomes) (row : Row α) : Prop := o row.writer ≠ .aborted

/-- A statement of a transaction sees the row. -/
def Row.VisibleTo {α : Type} (o : Outcomes) (x : ℕ) (row : Row α) : Prop := row.writer = x ∨ o row.writer = .committed

instance {α : Type} (o : Outcomes) (row : Row α) : Decidable (row.Live o) := inferInstanceAs (Decidable (_ ≠ _))

instance {α : Type} (o : Outcomes) (x : ℕ) (row : Row α) : Decidable (row.VisibleTo o x) :=
  inferInstanceAs (Decidable (_ ∨ _))

/-- The values of the rows that a transaction sees. -/
def visible {α : Type} (o : Outcomes) (x : ℕ) (rows : List (Row α)) : List α :=
  (rows.filter fun row => row.VisibleTo o x).map (·.value)

/-- The values of the rows that are there. -/
def live {α : Type} (o : Outcomes) (rows : List (Row α)) : List α := (rows.filter fun row => row.Live o).map (·.value)

/-- Who holds which lock. -/
abbrev Locks : Type := List (ℤ × ℕ)

/-- No other transaction holds a lock. -/
def Locks.Free (locks : Locks) (key : ℤ) (x : ℕ) : Prop := ∀ lock ∈ locks, lock.1 = key → lock.2 = x

instance (locks : Locks) (key : ℤ) (x : ℕ) : Decidable (locks.Free key x) := inferInstanceAs (Decidable (∀ _ ∈ _, _))

/-- The locks when a transaction has ended. -/
def Locks.release (locks : Locks) (x : ℕ) : Locks := locks.filter fun lock => lock.2 ≠ x

variable {α : Type} {o : Outcomes} {x : ℕ} {rows : List (Row α)} {a : α}

/-- A value is visible when its row is. -/
theorem mem_visible : a ∈ visible o x rows ↔ ∃ row ∈ rows, row.VisibleTo o x ∧ row.value = a := by
  simp [visible, and_assoc]

/-- A value is live when its row is. -/
theorem mem_live : a ∈ live o rows ↔ ∃ row ∈ rows, row.Live o ∧ row.value = a := by
  simp [live, and_assoc]

/-- What a transaction that goes on sees is live. -/
theorem Row.VisibleTo.live {row : Row α} (h : row.VisibleTo o x) (hx : o x ≠ .aborted) : row.Live o := by
  rcases h with rfl | hcommitted
  · exact hx
  · rw [Row.Live, hcommitted]
    decide

/-- What a transaction that did not abort sees is there. -/
theorem mem_live_of_visible (hx : o x ≠ .aborted) (h : a ∈ visible o x rows) : a ∈ live o rows := by
  obtain ⟨row, hrow, hvisible, rfl⟩ := mem_visible.mp h
  exact mem_live.mpr ⟨row, hrow, hvisible.live hx, rfl⟩

/-- Rows that are added stay visible. -/
theorem visible_append {more : List (Row α)} (h : a ∈ visible o x rows) : a ∈ visible o x (rows ++ more) := by
  obtain ⟨row, hrow, hvisible, rfl⟩ := mem_visible.mp h
  exact mem_visible.mpr ⟨row, List.mem_append_left _ hrow, hvisible, rfl⟩

/-- What a transaction sees it still sees when an active one ends. -/
theorem Row.VisibleTo.update {row : Row α} {y : ℕ} {outcome : TransactionOutcome} (h : row.VisibleTo o x) (hy : o y = .active) :
    row.VisibleTo (Function.update o y outcome) x := by
  rcases h with hown | hcommitted
  · exact Or.inl hown
  · refine Or.inr ?_
    rw [Function.update_of_ne, hcommitted]
    rintro rfl
    rw [hy] at hcommitted
    cases hcommitted

/-- What is live when an active transaction has ended was live before. -/
theorem Row.Live.of_update {row : Row α} {y : ℕ} {outcome : TransactionOutcome} (hy : o y = .active)
    (h : row.Live (Function.update o y outcome)) : row.Live o := by
  unfold Row.Live at h ⊢
  by_cases hrow : row.writer = y
  · rw [hrow, hy]
    decide
  · rwa [Function.update_of_ne hrow] at h

/-- A lock is held after a release when another transaction holds it. -/
theorem Locks.mem_release {locks : Locks} {lock : ℤ × ℕ} : lock ∈ locks.release x ↔ lock ∈ locks ∧ lock.2 ≠ x := by
  simp [release]

end Relational
