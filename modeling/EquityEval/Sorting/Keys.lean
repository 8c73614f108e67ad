import Mathlib.Data.List.Pairwise
import Mathlib.Data.List.Sort

/-!
# Sorting by keys

Items are sorted by a key and told apart by one. Where no two items of a list share a key, both depend only on which items
the list has.
-/

namespace Sorting

variable {α β : Type} [LinearOrder β] (key : α → β) {l l' : List α} {a b : α}

/-- The items in the order of their keys. -/
def byKey (l : List α) : List α := l.insertionSort fun a b => key a ≤ key b

/-- The items of a dictionary that is filled by key: the last item of a key is kept. -/
def distinct (l : List α) : List α := l.pwFilter fun a b => key a ≠ key b

variable {key}

/-- Sorting rearranges the items. -/
theorem byKey_perm (l : List α) : (byKey key l).Perm l := List.perm_insertionSort _ l

@[simp] theorem mem_byKey : a ∈ byKey key l ↔ a ∈ l := (byKey_perm l).mem_iff

/-- Sorted items have increasing keys. -/
theorem byKey_pairwise (l : List α) : (byKey key l).Pairwise fun a b => key a ≤ key b :=
  haveI : Std.Total fun a b : α => key a ≤ key b := ⟨fun a b => le_total (key a) (key b)⟩
  haveI : IsTrans α fun a b => key a ≤ key b := ⟨fun _ _ _ => le_trans⟩
  List.pairwise_insertionSort _ l

/-- No two items of a list share a key. -/
def Keyed (key : α → β) (l : List α) : Prop := ∀ a ∈ l, ∀ b ∈ l, key a = key b → a = b

/-- Items that no longer share keys are sorted alike in every order. -/
theorem byKey_congr (hkeyed : Keyed key l) (h : l.Perm l') : byKey key l = byKey key l' := by
  refine List.Perm.eq_of_pairwise (fun a b ha hb hab hba => ?_) (byKey_pairwise l) (byKey_pairwise l')
    ((byKey_perm l).trans (h.trans (byKey_perm l').symm))
  exact hkeyed a (mem_byKey.mp ha) b (h.mem_iff.mpr (mem_byKey.mp hb)) (le_antisymm hab hba)

/-- The first of the sorted items has the least key. -/
theorem le_of_byKey_eq_cons {rest : List α} (h : byKey key l = a :: rest) (hb : b ∈ l) : key a ≤ key b := by
  have hmem : b ∈ a :: rest := h ▸ mem_byKey.mpr hb
  have hsorted : (byKey key l).Pairwise fun a b => key a ≤ key b := byKey_pairwise l
  rw [h, List.pairwise_cons] at hsorted
  rcases List.mem_cons.mp hmem with rfl | hrest
  · exact le_rfl
  · exact hsorted.1 b hrest

/-- The keys of a dictionary are distinct. -/
theorem distinct_nodup (l : List α) : (distinct key l).Nodup := by
  refine (List.pairwise_pwFilter l).imp fun {a b} hne heq => hne (congrArg key heq)

/-- A dictionary of items that share no keys has all of them. -/
theorem mem_distinct (hkeyed : Keyed key l) : a ∈ distinct key l ↔ a ∈ l := by
  refine ⟨fun h => List.pwFilter_subset l h, fun h => ?_⟩
  by_contra hnone
  have hdiffer : ∀ b ∈ distinct key l, key a ≠ key b := by
    intro b hb heq
    exact hnone (hkeyed a h b (List.pwFilter_subset l hb) heq ▸ hb)
  have hothers := (List.forall_mem_pwFilter (R := fun a b => key a ≠ key b) (fun {_ _ _} hxz =>
    or_iff_not_imp_left.mpr fun hxy hyz => hxz ((not_not.mp hxy).trans hyz)) a l).mp hdiffer
  exact hothers a h rfl

/-- Dictionaries of the same items are sorted alike. -/
theorem byKey_distinct (hkeyed : Keyed key l) (hkeyed' : Keyed key l') (h : ∀ a, a ∈ l ↔ a ∈ l') :
    byKey key (distinct key l) = byKey key (distinct key l') := by
  refine byKey_congr (fun a ha b hb => hkeyed a ((mem_distinct hkeyed).mp ha) b ((mem_distinct hkeyed).mp hb)) ?_
  refine (List.perm_ext_iff_of_nodup (distinct_nodup l) (distinct_nodup l')).mpr fun a => ?_
  rw [mem_distinct hkeyed, mem_distinct hkeyed', h a]

end Sorting
