import Mathlib.Data.List.Dedup
import Mathlib.Logic.Relation
import Mathlib.Logic.Function.Iterate

/-!
# Reachability over a list of edges

A recursive query collects the nodes that edges lead to, level by level, until a level adds none. As
many levels as there are edges are enough, so the query finds exactly the nodes that a path leads to.
-/

namespace Relational

variable {α : Type*} [DecidableEq α]

/-- Some edge of the list leads from one node to another. -/
def Edge (edges : List (α × α)) (a b : α) : Prop := (a, b) ∈ edges

/-- The nodes reached so far, and those that edges lead to from them. -/
def level (edges : List (α × α)) (reached : List α) : List α :=
  (reached ++ (edges.filter fun edge => edge.1 ∈ reached).map (·.2)).dedup

/-- `WITH RECURSIVE reachable AS (SELECT start UNION SELECT target FROM edges JOIN reachable)`. -/
def reachableFrom (edges : List (α × α)) (start : α) : List α := (level edges)^[edges.length] [start]

variable {edges : List (α × α)} {reached : List α}

/-- A level has the nodes reached so far and those one edge further. -/
theorem mem_level {b : α} : b ∈ level edges reached ↔ b ∈ reached ∨ ∃ a ∈ reached, Edge edges a b := by
  simp only [level, List.mem_dedup, List.mem_append, List.mem_map, List.mem_filter, decide_eq_true_eq, Edge]
  refine or_congr_right ⟨?_, ?_⟩
  · rintro ⟨⟨a, _⟩, ⟨hedge, ha⟩, rfl⟩
    exact ⟨a, ha, hedge⟩
  · rintro ⟨a, ha, hedge⟩
    exact ⟨(a, b), ⟨hedge, ha⟩, rfl⟩

/-- No edge leads out of the nodes. -/
def Closed (edges : List (α × α)) (reached : List α) : Prop := ∀ a ∈ reached, ∀ b, Edge edges a b → b ∈ reached

/-- Closed nodes stay the same. -/
theorem Closed.level (h : Closed edges reached) : Closed edges (level edges reached) := by
  intro a ha b hedge
  rw [mem_level] at ha ⊢
  rcases ha with ha | ⟨a', ha', hedge'⟩
  · exact Or.inl (h a ha b hedge)
  · exact Or.inl (h a (h a' ha' a hedge') b hedge)

/-- Closed nodes stay closed. -/
theorem Closed.iterate (h : Closed edges reached) (n : ℕ) : Closed edges ((Relational.level edges)^[n] reached) := by
  induction n generalizing reached with
  | zero => exact h
  | succ n ih => exact ih h.level

/-- Levels that are as many as the edges to nodes not reached yet close the nodes: each level that does not reaches
the end of one of these edges. -/
theorem closed_iterate (n : ℕ) (h : edges.countP (fun edge => edge.2 ∉ reached) ≤ n) :
    Closed edges ((level edges)^[n] reached) := by
  induction n generalizing reached with
  | zero =>
    intro a ha b hedge
    have hnone := List.countP_eq_zero.mp (Nat.le_zero.mp h) (a, b) hedge
    simpa using hnone
  | succ n ih =>
    by_cases hclosed : Closed edges reached
    · exact hclosed.iterate (n + 1)
    · refine ih (Nat.lt_succ_iff.mp (Nat.lt_of_lt_of_le ?_ h))
      simp only [Closed, not_forall] at hclosed
      obtain ⟨a, ha, b, hedge, hb⟩ := hclosed
      have hsub : ∀ edge ∈ edges, decide (edge.2 ∉ level edges reached) = true → decide (edge.2 ∉ reached) = true := by
        intro edge _ hedge
        simp only [decide_eq_true_eq, mem_level, not_or] at hedge ⊢
        exact hedge.1
      have hreached : b ∈ level edges reached := mem_level.mpr (Or.inr ⟨a, ha, hedge⟩)
      obtain ⟨before, after, hsplit⟩ := List.append_of_mem hedge
      have hbefore : before.countP (fun edge => edge.2 ∉ level edges reached) ≤ before.countP (fun edge => edge.2 ∉ reached) :=
        List.countP_mono_left fun edge hedge => hsub edge (hsplit ▸ List.mem_append_left _ hedge)
      have hafter : after.countP (fun edge => edge.2 ∉ level edges reached) ≤ after.countP (fun edge => edge.2 ∉ reached) :=
        List.countP_mono_left fun edge hedge =>
          hsub edge (hsplit ▸ List.mem_append_right _ (List.mem_cons_of_mem _ hedge))
      have hcount : ∀ p : α × α → Bool, edges.countP p = before.countP p + ((if p (a, b) then 1 else 0) + after.countP p) := by
        intro p
        rw [congrArg (List.countP p) hsplit, List.countP_append, List.countP_cons, Nat.add_comm (after.countP p)]
      rw [hcount, hcount]
      simp only [hreached, hb, not_true_eq_false, not_false_eq_true, decide_false, decide_true, if_true,
        Bool.false_eq_true, if_false]
      omega

/-- The query finds exactly the nodes that a path leads to. -/
theorem mem_reachableFrom {start b : α} : b ∈ reachableFrom edges start ↔ Relation.ReflTransGen (Edge edges) start b := by
  constructor
  · have hiterate : ∀ n (reached : List α), (∀ a ∈ reached, Relation.ReflTransGen (Edge edges) start a) →
        ∀ b ∈ (level edges)^[n] reached, Relation.ReflTransGen (Edge edges) start b := by
      intro n
      induction n with
      | zero => exact fun reached h => h
      | succ n ih =>
        refine fun reached h => ih _ fun b hb => ?_
        rcases mem_level.mp hb with hb | ⟨a, ha, hedge⟩
        · exact h b hb
        · exact (h a ha).tail hedge
    refine hiterate _ [start] (fun a ha => ?_) b
    rw [List.mem_singleton.mp ha]
  · intro hpath
    have hclosed : Closed edges (reachableFrom edges start) := closed_iterate _ List.countP_le_length
    have hstart : ∀ n (reached : List α), start ∈ reached → start ∈ (level edges)^[n] reached := by
      intro n
      induction n with
      | zero => exact fun reached h => h
      | succ n ih => exact fun reached h => ih _ (mem_level.mpr (Or.inl h))
    induction hpath with
    | refl => exact hstart _ _ (List.mem_singleton_self _)
    | tail _ hedge ih => exact hclosed _ ih _ hedge

omit [DecidableEq α] in
/-- A path that may use one more edge does without it, or leads to its start and on from its end. -/
theorem transGen_of_added {r : α → α → Prop} {u v a b : α} (h : Relation.TransGen (fun a b => r a b ∨ a = u ∧ b = v) a b) :
    Relation.TransGen r a b ∨ Relation.ReflTransGen r a u ∧ Relation.ReflTransGen r v b := by
  induction h with
  | single hedge =>
    rcases hedge with hedge | ⟨rfl, rfl⟩
    · exact Or.inl (.single hedge)
    · exact Or.inr ⟨.refl, .refl⟩
  | tail _ hedge ih =>
    rcases hedge with hedge | ⟨rfl, rfl⟩
    · rcases ih with hpath | ⟨hbefore, hafter⟩
      · exact Or.inl (hpath.tail hedge)
      · exact Or.inr ⟨hbefore, hafter.tail hedge⟩
    · rcases ih with hpath | ⟨hbefore, _⟩
      · exact Or.inr ⟨hpath.to_reflTransGen, .refl⟩
      · exact Or.inr ⟨hbefore, .refl⟩

omit [DecidableEq α] in
/-- An edge whose end does not lead back to its start closes no cycle. -/
theorem acyclic_of_added {r : α → α → Prop} {u v : α} (hacyclic : ∀ a, ¬ Relation.TransGen r a a)
    (hback : ¬ Relation.ReflTransGen r v u) (a : α) : ¬ Relation.TransGen (fun a b => r a b ∨ a = u ∧ b = v) a a := by
  intro hcycle
  rcases transGen_of_added hcycle with hcycle | ⟨hbefore, hafter⟩
  · exact hacyclic a hcycle
  · exact hback (hafter.trans hbefore)

end Relational
