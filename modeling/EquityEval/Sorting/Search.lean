import Mathlib.Data.List.Pairwise
import Mathlib.Algebra.Order.Group.Nat

/-!
# Binary search

A search halves a range of indices until it finds the first one at which a condition holds that holds
from there on. In an increasing list it finds how many items are not greater than another one.
-/

namespace Sorting

/-- Halve the range from `lo` to `hi`, at most as often as the fuel allows. -/
def search (p : ℕ → Bool) : ℕ → ℕ → ℕ → ℕ
  | 0, lo, _ => lo
  | fuel + 1, lo, hi =>
    if lo < hi then
      let mid := (lo + hi) / 2
      if p mid then search p fuel lo mid else search p fuel (mid + 1) hi
    else lo

/-- The search stays in its range, and finds where a condition that stays true first holds. -/
theorem search_spec {p : ℕ → Bool} (hmono : ∀ i j, i ≤ j → p i = true → p j = true) {fuel lo hi : ℕ} (hfuel : hi - lo ≤ fuel)
    (hle : lo ≤ hi) : lo ≤ search p fuel lo hi ∧ search p fuel lo hi ≤ hi ∧
      (∀ i, lo ≤ i → i < search p fuel lo hi → p i = false) ∧ ∀ i, search p fuel lo hi ≤ i → i < hi → p i = true := by
  induction fuel generalizing lo hi with
  | zero =>
    have heq : lo = hi := by omega
    subst heq
    exact ⟨le_rfl, hle, fun i hlo hi => absurd hi (not_lt.mpr hlo), fun i hlo hi => absurd hi (not_lt.mpr hlo)⟩
  | succ fuel ih =>
    rw [search]
    by_cases hlt : lo < hi
    · rw [if_pos hlt]
      have hmid : lo ≤ (lo + hi) / 2 ∧ (lo + hi) / 2 < hi := by omega
      cases hp : p ((lo + hi) / 2) with
      | true =>
        obtain ⟨hge, hle, hbefore, hafter⟩ := @ih lo ((lo + hi) / 2) (by omega) hmid.1
        simp only [hp, if_true]
        refine ⟨hge, hle.trans hmid.2.le, hbefore, fun i hge' _ => ?_⟩
        rcases lt_or_ge i ((lo + hi) / 2) with hsmall | hlarge
        · exact hafter i hge' hsmall
        · exact hmono _ i hlarge hp
      | false =>
        obtain ⟨hge, hle, hbefore, hafter⟩ := @ih ((lo + hi) / 2 + 1) hi (by omega) hmid.2
        simp only [hp, Bool.false_eq_true, if_false]
        refine ⟨by omega, hle, fun i _ hlt' => ?_, hafter⟩
        rcases le_or_gt i ((lo + hi) / 2) with hsmall | hlarge
        · by_contra htrue
          have := hmono i _ hsmall (by simpa using htrue)
          rw [hp] at this
          cases this
        · exact hbefore i hlarge hlt'
    · rw [if_neg hlt]
      exact ⟨le_rfl, hle, fun i hlo hi => absurd hi (not_lt.mpr hlo), fun i hlo hi => by omega⟩

/-- Where an item goes in an increasing list, after the ones that are not greater. -/
def bisectRight {α : Type} [LT α] [DecidableLT α] (l : List α) (a : α) : ℕ :=
  search (fun i => l[i]?.all fun b => decide (a < b)) l.length 0 l.length

variable {α : Type} [Preorder α] [DecidableLT α] {l : List α} {a : α}

/-- The items before the place are not greater, those after it are. -/
theorem bisectRight_spec (h : l.Pairwise (· < ·)) :
    bisectRight l a ≤ l.length ∧ ∀ (i : ℕ) (b : α), l[i]? = some b → (i < bisectRight l a ↔ ¬ a < b) := by
  have hmono : ∀ i j : ℕ, i ≤ j → (l[i]?.all fun b => decide (a < b)) = true → (l[j]?.all fun b => decide (a < b)) = true := by
    intro i j hij hi
    rcases hij.lt_or_eq with hlt | rfl
    · rcases lt_or_ge j l.length with hj | hj
      · rw [List.getElem?_eq_getElem (hlt.trans hj), Option.all_some, decide_eq_true_eq] at hi
        rw [List.getElem?_eq_getElem hj, Option.all_some, decide_eq_true_eq]
        exact hi.trans (List.pairwise_iff_getElem.mp h i j _ hj hlt)
      · rw [List.getElem?_eq_none hj]
        rfl
    · exact hi
  have hfuel : l.length - 0 ≤ l.length := Nat.sub_le _ _
  obtain ⟨-, hle, hbefore, hafter⟩ := search_spec hmono hfuel (Nat.zero_le _)
  refine ⟨hle, fun i b hb => ?_⟩
  have hi := (List.getElem?_eq_some_iff.mp hb).1
  constructor
  · intro hlt
    have := hbefore i (Nat.zero_le _) hlt
    rwa [hb, Option.all_some, decide_eq_false_iff_not] at this
  · intro hnot
    by_contra hge
    have := hafter i (not_lt.mp hge) hi
    rw [hb, Option.all_some, decide_eq_true_eq] at this
    exact hnot this

end Sorting
