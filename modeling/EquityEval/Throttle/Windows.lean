import Mathlib.Data.List.Dedup
import Mathlib.Data.List.Infix
import Mathlib.Data.List.Perm.Subperm

/-!
# Sliding windows

Items come one after the other, each with a time. If every item, when it comes, finds a measure of
the items of the time before it within a bound, then so does every window of that width: the last
item of a window has seen all others of it.
-/

namespace Throttle

universe u

variable {α : Type u}

/-- Each item came when the measure of the items of a width before it, and of it, was within the bound. -/
def Admitted (time : α → ℤ) (width : ℤ) (measure : List α → ℕ) (bound : ℕ) (items : List α) : Prop :=
  ∀ before x after, items = before ++ x :: after →
    measure (before.filter (fun y => time x - width ≤ time y) ++ [x]) ≤ bound

variable {time : α → ℤ} {width : ℤ} {measure : List α → ℕ} {bound : ℕ} {items : List α} {x : α}

/-- No items are admitted. -/
theorem Admitted.nil : Admitted time width measure bound [] := by
  intro before x after h
  exact absurd h.symm (List.append_ne_nil_of_right_ne_nil _ (List.cons_ne_nil _ _))

/-- One more item that finds the measure within the bound is admitted. -/
theorem Admitted.concat (h : Admitted time width measure bound items)
    (hx : measure (items.filter (fun y => time x - width ≤ time y) ++ [x]) ≤ bound) :
    Admitted time width measure bound (items ++ [x]) := by
  intro before y after hitems
  rcases List.eq_nil_or_concat after with rfl | ⟨after, last, rfl⟩
  · obtain ⟨rfl, hsame⟩ := List.append_inj' hitems rfl
    cases hsame
    exact hx
  · rw [List.concat_eq_append, ← List.cons_append, ← List.append_assoc] at hitems
    exact h before y after (List.append_inj' hitems rfl).1

/-- The first of some admitted items are admitted. -/
theorem Admitted.of_concat (h : Admitted time width measure bound (items ++ [x])) :
    Admitted time width measure bound items := by
  intro before y after hitems
  exact h before y (after ++ [x]) (by rw [hitems, List.append_assoc, List.cons_append])

/-- The measure of every window is within the bound. -/
theorem Admitted.window (h : Admitted time width measure bound items)
    (hmono : ∀ l l' : List α, l.Sublist l' → measure l ≤ measure l') (hnil : measure [] ≤ bound) (W : α → Prop) [DecidablePred W]
    (hW : ∀ x y, W x → W y → time x - width ≤ time y) : measure (items.filter fun y => W y) ≤ bound := by
  induction items using List.reverseRecOn with
  | nil => exact hnil
  | append_singleton items x ih =>
    by_cases hx : W x
    · -- the last item of the window has seen the others
      have hseen : (items.filter fun y => W y).Sublist (items.filter fun y => time x - width ≤ time y) :=
        List.monotone_filter_right items fun y hy => decide_eq_true (hW x y hx (of_decide_eq_true hy))
      rw [List.filter_append, List.filter_cons_of_pos (by simpa using hx), List.filter_nil]
      exact (hmono _ _ (hseen.append_right [x])).trans (h items x [] rfl)
    · rw [List.filter_append, List.filter_cons_of_neg (by simpa using hx), List.filter_nil, List.append_nil]
      exact ih h.of_concat

/-- The number of different keys of some items. -/
def distinctKeys {κ : Type u} [DecidableEq κ] (key : α → κ) (items : List α) : ℕ := (items.map key).dedup.length

/-- Fewer items have fewer different keys. -/
theorem distinctKeys_mono {κ : Type u} [DecidableEq κ] {key : α → κ} {l l' : List α} (h : l.Sublist l') :
    distinctKeys key l ≤ distinctKeys key l' := by
  have hsub : (l.map key).dedup ⊆ (l'.map key).dedup := by
    intro k hk
    rw [List.mem_dedup] at hk ⊢
    exact (h.map key).subset hk
  exact ((List.nodup_dedup _).subperm hsub).length_le

/-- An item adds a key when none of those before it has the key. -/
theorem distinctKeys_concat {κ : Type u} [DecidableEq κ] {key : α → κ} :
    distinctKeys key (items ++ [x]) = distinctKeys key items + if key x ∈ items.map key then 0 else 1 := by
  have hperm : ((items ++ [x]).map key).Perm (key x :: items.map key) := by
    rw [List.map_append, List.map_singleton]
    exact List.perm_append_singleton _ _
  rw [distinctKeys, distinctKeys, hperm.dedup.length_eq]
  split
  next hmem => rw [List.dedup_cons_of_mem hmem, Nat.add_zero]
  next hmem => rw [List.dedup_cons_of_notMem hmem, List.length_cons]

end Throttle
