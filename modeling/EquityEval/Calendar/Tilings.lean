import Mathlib.Data.List.Chain
import Mathlib.Order.Cover

/-!
# Intervals that tile a range

Intervals tile a range when the first one begins where it does, each further one begins right after
the one before it, and the last one ends where the range does. Every element of the range then lies
in exactly one of them, and no other element lies in any.
-/

variable {α : Type} [LinearOrder α]

/-- The intervals, each from its first to its last element, follow each other from a first element to a last one. -/
inductive Tiles : α → α → List (α × α) → Prop
  | single {first last : α} (h : first ≤ last) : Tiles first last [(first, last)]
  | cons {first stop next last : α} {rest : List (α × α)} (h : first ≤ stop) (hnext : stop ⋖ next)
      (hrest : Tiles next last rest) : Tiles first last ((first, stop) :: rest)

namespace Tiles

variable {first last x : α} {intervals : List (α × α)}

/-- The first interval begins where the range does. -/
theorem fst_head (h : Tiles first last intervals) : intervals.head?.map Prod.fst = some first := by
  cases h <;> rfl

/-- The last interval ends where the range does. -/
theorem snd_getLast (h : Tiles first last intervals) : intervals.getLast?.map Prod.snd = some last := by
  induction h with
  | single h => rfl
  | cons h hnext hrest ih =>
    cases hrest <;> exact ih

/-- Each interval begins right after the one before it. -/
theorem isChain (h : Tiles first last intervals) : intervals.IsChain fun i j => i.2 ⋖ j.1 := by
  induction h with
  | single h => exact List.isChain_singleton _
  | cons h hnext hrest ih =>
    cases hrest with
    | single h' => exact List.isChain_pair.mpr hnext
    | cons h' hnext' hrest' => exact List.isChain_cons_cons.mpr ⟨hnext, ih⟩

/-- No interval is empty. -/
theorem fst_le_snd (h : Tiles first last intervals) : ∀ i ∈ intervals, i.1 ≤ i.2 := by
  induction h with
  | single h => simpa using h
  | cons h hnext hrest ih => exact List.forall_mem_cons.mpr ⟨h, ih⟩

/-- The range is not empty. -/
theorem first_le_last (h : Tiles first last intervals) : first ≤ last := by
  induction h with
  | single h => exact h
  | cons h hnext hrest ih => exact h.trans (hnext.1.le.trans ih)

/-- Of the intervals that tile a range, one holds each element of it, and none any other element. -/
theorem countP_mem (h : Tiles first last intervals) :
    intervals.countP (fun i => i.1 ≤ x ∧ x ≤ i.2) = if first ≤ x ∧ x ≤ last then 1 else 0 := by
  induction h with
  | single h => simp [List.countP_cons]
  | @cons first stop next last rest h hnext hrest ih =>
    have hrange := hrest.first_le_last
    have hbelow := hnext.1
    rw [List.countP_cons, ih]
    by_cases hx : x ≤ stop
    · -- what comes later begins after the element
      have hbefore : ¬ next ≤ x := not_le.mpr (hx.trans_lt hbelow)
      have hlast : x ≤ last := hx.trans (hbelow.le.trans hrange)
      simp [hx, hbefore, hlast]
    · have hfrom : next ≤ x := not_lt.mp fun hlt => hnext.2 (not_le.mp hx) hlt
      have hfirst : first ≤ x := h.trans (not_le.mp hx).le
      simp [hx, hfrom, hfirst]

end Tiles
