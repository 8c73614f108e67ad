import Mathlib.Data.Set.Basic
import Mathlib.Order.Defs.Unbundled

/-!
# Growing views

A view tells what is known of each key. A view grows when nothing known of a key is lost or
changed. The keys that a growing view gains over several steps are the disjoint union of those it
gains at each step.
-/

namespace GrowingViews

universe u v

variable {κ : Type u} {μ : Type v}

/-- What is known of each key. -/
abbrev View (κ : Type u) (μ : Type v) : Type max u v := κ → Option μ

/-- What is known stays known and unchanged. -/
def Grows (v w : View κ μ) : Prop := ∀ key value, v key = some value → w key = some value

instance : IsPreorder (View κ μ) Grows where
  refl _ _ _ h := h
  trans _ _ _ hv hw key value h := hw key value (hv key value h)

/-- The keys that one view does not know and another knows, with what it knows of them. -/
def gained (v w : View κ μ) : Set (κ × μ) := {entry | v entry.1 = none ∧ w entry.1 = some entry.2}

variable {v w x : View κ μ}

/-- A key that is not known later was not known before. -/
theorem Grows.none (h : Grows v w) {key : κ} (hkey : w key = none) : v key = none := by
  cases hv : v key with
  | none => rfl
  | some value => cases (h key value hv).symm.trans hkey

/-- What is gained over two steps is what is gained at either of them. -/
theorem gained_union (hv : Grows v w) (hw : Grows w x) : gained v x = gained v w ∪ gained w x := by
  ext entry
  constructor
  · rintro ⟨hnone, hvalue⟩
    cases hkey : w entry.1 with
    | none => exact Or.inr ⟨hkey, hvalue⟩
    | some earlier =>
      have hsame : some earlier = some entry.2 := (hw _ _ hkey).symm.trans hvalue
      exact Or.inl ⟨hnone, hkey.trans hsame⟩
  · rintro (⟨hnone, hvalue⟩ | ⟨hnone, hvalue⟩)
    · exact ⟨hnone, hw _ _ hvalue⟩
    · exact ⟨hv.none hnone, hvalue⟩

/-- A key that is gained at a step is not gained at the next. -/
theorem gained_disjoint {earlier later : κ × μ} (h : earlier ∈ gained v w) (h' : later ∈ gained w x) :
    earlier.1 ≠ later.1 := by
  intro hkey
  have hknown : w later.1 = some earlier.2 := hkey ▸ h.2
  cases hknown.symm.trans h'.1

end GrowingViews
