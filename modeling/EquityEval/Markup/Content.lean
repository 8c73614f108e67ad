import Mathlib.Data.List.Basic
import Mathlib.Data.List.Infix
import Mathlib.Data.List.Nodup

/-!
# Mixed content

The content of an element is a sequence of texts, of elements and of other things. An element or a text is
told by its path, the indices of the items that lead to it; elements contain one another as their paths are
prefixes of one another.
-/

namespace Markup

/-- A sequence of items; an element has a label and content of its own. -/
inductive Content (α : Type) where
  | nil
  | text (characters : List Char) (rest : Content α)
  | other (rest : Content α)
  | element (label : α) (inner rest : Content α)
deriving DecidableEq

/-- The indices of the items that lead to a place. -/
abbrev Path : Type := List ℕ

/-- An element with its path and the labels of the elements around it. -/
structure Element (α : Type) where
  path : Path
  around : List α
  label : α
  inner : Content α
deriving DecidableEq

/-- A text with its path and the labels of the elements that it is inside of. -/
structure Leaf (α : Type) where
  path : Path
  inside : List α
  characters : List Char
deriving DecidableEq

/-- No element that the text is inside of is excluded. -/
def Leaf.kept {α : Type} (excluded : α → Bool) (l : Leaf α) : Bool := l.inside.all fun label => !excluded label

namespace Content

variable {α : Type}

/-- The elements of a content in the order in which they begin. -/
def elements (path : Path) (around : List α) (i : ℕ) : Content α → List (Element α)
  | nil => []
  | text _ rest => elements path around (i + 1) rest
  | other rest => elements path around (i + 1) rest
  | element label inner rest =>
    ⟨path ++ [i], around, label, inner⟩ ::
      (elements (path ++ [i]) (around ++ [label]) 0 inner ++ elements path around (i + 1) rest)

/-- The texts of a content in order. -/
def leaves (path : Path) (inside : List α) (i : ℕ) : Content α → List (Leaf α)
  | nil => []
  | text characters rest => ⟨path ++ [i], inside, characters⟩ :: leaves path inside (i + 1) rest
  | other rest => leaves path inside (i + 1) rest
  | element label inner rest => leaves (path ++ [i]) (inside ++ [label]) 0 inner ++ leaves path inside (i + 1) rest

/-- The texts of a content without those of excluded elements. -/
def included (excluded : α → Bool) : Content α → List Char
  | nil => []
  | text characters rest => characters ++ included excluded rest
  | other rest => included excluded rest
  | element label inner rest => (if excluded label then [] else included excluded inner) ++ included excluded rest

/-- The labels of the elements that are items of a content. -/
def children : Content α → List α
  | nil => []
  | text _ rest => children rest
  | other rest => children rest
  | element label _ rest => label :: children rest

variable {path : Path} {around inside : List α} {i : ℕ} {content : Content α}

/-- The paths of a content go on from its path with an index that is not too low. -/
theorem path_of_mem_elements {e : Element α} (h : e ∈ content.elements path around i) : ∃ j rest, i ≤ j ∧ e.path = path ++ j :: rest := by
  induction content generalizing path around i with
  | nil => cases h
  | text _ _ ih | other _ ih =>
    obtain ⟨j, rest, hle, hpath⟩ := ih h
    exact ⟨j, rest, by omega, hpath⟩
  | element label inner rest ihinner ih =>
    rcases List.mem_cons.mp h with rfl | h
    · exact ⟨i, [], le_refl i, rfl⟩
    · rcases List.mem_append.mp h with h | h
      · obtain ⟨j, more, -, hpath⟩ := ihinner h
        exact ⟨i, j :: more, le_refl i, by rw [hpath, List.append_assoc, List.singleton_append]⟩
      · obtain ⟨j, more, hle, hpath⟩ := ih h
        exact ⟨j, more, by omega, hpath⟩

/-- Elements of a content with one path are the same. -/
theorem elements_nodup : ((content.elements path around i).map (·.path)).Nodup := by
  induction content generalizing path around i with
  | nil => exact List.nodup_nil
  | text _ _ ih | other _ ih => exact ih
  | element label inner rest ihinner ih =>
    rw [elements, List.map_cons, List.map_append, List.nodup_cons, List.nodup_append]
    refine ⟨fun hmem => ?_, ihinner, ih, ?_⟩
    · rcases List.mem_append.mp hmem with hmem | hmem <;> obtain ⟨e, he, hpath⟩ := List.mem_map.mp hmem
      · obtain ⟨j, more, -, hlonger⟩ := path_of_mem_elements he
        have hlength : (path ++ [i] ++ j :: more).length = (path ++ [i]).length := congrArg List.length (hlonger.symm.trans hpath)
        rw [List.length_append, List.length_cons] at hlength
        omega
      · obtain ⟨j, more, hle, hlater⟩ := path_of_mem_elements he
        have hindex := List.append_cancel_left (hlater.symm.trans hpath)
        have hj : j = i := (List.cons.inj hindex).1
        omega
    · rintro _ hinner _ hrest rfl
      obtain ⟨e, he, hpath⟩ := List.mem_map.mp hinner
      obtain ⟨e', he', hpath'⟩ := List.mem_map.mp hrest
      obtain ⟨j, more, -, hlonger⟩ := path_of_mem_elements he
      obtain ⟨j', more', hle, hlater⟩ := path_of_mem_elements he'
      rw [List.append_assoc] at hlonger
      have hindex := List.append_cancel_left (hlonger.symm.trans (hpath.trans (hpath'.symm.trans hlater)))
      have hj : i = j' := (List.cons.inj hindex).1
      omega

/-- The paths of texts go on from the path of their content. -/
theorem path_of_mem_leaves {l : Leaf α} (h : l ∈ content.leaves path inside i) : ∃ j rest, i ≤ j ∧ l.path = path ++ j :: rest := by
  induction content generalizing path inside i with
  | nil => cases h
  | text _ _ ih =>
    rcases List.mem_cons.mp h with rfl | h
    · exact ⟨i, [], le_refl i, rfl⟩
    · obtain ⟨j, rest, hle, hpath⟩ := ih h
      exact ⟨j, rest, by omega, hpath⟩
  | other _ ih =>
    obtain ⟨j, rest, hle, hpath⟩ := ih h
    exact ⟨j, rest, by omega, hpath⟩
  | element label inner rest ihinner ih =>
    rcases List.mem_append.mp h with h | h
    · obtain ⟨j, more, -, hpath⟩ := ihinner h
      exact ⟨i, j :: more, le_refl i, by rw [hpath, List.append_assoc, List.singleton_append]⟩
    · obtain ⟨j, more, hle, hpath⟩ := ih h
      exact ⟨j, more, by omega, hpath⟩

/-- Texts of a content have paths of their own. -/
theorem leaves_nodup : ((content.leaves path inside i).map (·.path)).Nodup := by
  induction content generalizing path inside i with
  | nil => exact List.nodup_nil
  | text _ _ ih =>
    rw [leaves, List.map_cons, List.nodup_cons]
    refine ⟨fun hmem => ?_, ih⟩
    obtain ⟨l, hl, hpath⟩ := List.mem_map.mp hmem
    obtain ⟨j, more, hle, hlater⟩ := path_of_mem_leaves hl
    have hj : j = i := (List.cons.inj (List.append_cancel_left (hlater.symm.trans hpath))).1
    omega
  | other _ ih => exact ih
  | element label inner rest ihinner ih =>
    rw [leaves, List.map_append, List.nodup_append]
    refine ⟨ihinner, ih, ?_⟩
    rintro _ hinner _ hrest rfl
    obtain ⟨l, hl, hpath⟩ := List.mem_map.mp hinner
    obtain ⟨l', hl', hpath'⟩ := List.mem_map.mp hrest
    obtain ⟨j, more, -, hlonger⟩ := path_of_mem_leaves hl
    obtain ⟨j', more', hle, hlater⟩ := path_of_mem_leaves hl'
    rw [List.append_assoc] at hlonger
    have hindex := List.append_cancel_left (hlonger.symm.trans (hpath.trans (hpath'.symm.trans hlater)))
    have hj : i = j' := (List.cons.inj hindex).1
    omega

/-- The texts of a content are inside of what the content is inside of. -/
theorem inside_of_mem_leaves {l : Leaf α} (h : l ∈ content.leaves path inside i) : inside ⊆ l.inside := by
  induction content generalizing path inside i with
  | nil => cases h
  | text _ _ ih =>
    rcases List.mem_cons.mp h with rfl | h
    · exact List.Subset.refl inside
    · exact ih h
  | other _ ih => exact ih h
  | element label inner rest ihinner ih =>
    rcases List.mem_append.mp h with h | h
    · exact List.Subset.trans (List.subset_append_left inside [label]) (ihinner h)
    · exact ih h

/-- What is included are the texts that are not inside an excluded element. -/
theorem included_eq {excluded : α → Bool} (hinside : ∀ label ∈ inside, excluded label = false) :
    content.included excluded = ((content.leaves path inside i).filter (·.kept excluded)).flatMap (·.characters) := by
  induction content generalizing path i inside with
  | nil => rfl
  | text characters rest ih =>
    have hkept : Leaf.kept excluded ⟨path ++ [i], inside, characters⟩ = true :=
      List.all_eq_true.mpr fun label hlabel => by rw [hinside label hlabel]; rfl
    rw [leaves, List.filter_cons_of_pos hkept, List.flatMap_cons, included, ih hinside]
  | other rest ih => exact ih hinside
  | element label inner rest ihinner ih =>
    rw [leaves, List.filter_append, List.flatMap_append, included, ← ih hinside]
    cases hlabel : excluded label with
    | true =>
      have hnone : (inner.leaves (path ++ [i]) (inside ++ [label]) 0).filter (·.kept excluded) = [] := by
        rw [List.filter_eq_nil_iff]
        intro l hl hkept
        have hmem := inside_of_mem_leaves hl (List.mem_append_right inside (List.mem_singleton_self label))
        have hnot := List.all_eq_true.mp hkept label hmem
        rw [hlabel] at hnot
        cases hnot
      rw [hnone]
      rfl
    | false =>
      rw [if_neg Bool.false_ne_true]
      congr 1
      apply ihinner
      intro l hl
      rcases List.mem_append.mp hl with hl | hl
      · exact hinside l hl
      · rw [List.mem_singleton.mp hl, hlabel]

end Content

end Markup
