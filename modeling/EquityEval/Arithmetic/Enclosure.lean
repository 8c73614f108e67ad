import Mathlib.Analysis.Normed.Field.Basic
import Mathlib.Analysis.Normed.Group.AddTorsor
import Mathlib.LinearAlgebra.AffineSpace.Slope
import Mathlib.Topology.MetricSpace.Lipschitz
import Mathlib.Topology.Order.IntermediateValue
import Mathlib.Topology.Algebra.Order.Group
import Mathlib.Tactic.Positivity
import Mathlib.Tactic.FieldSimp
import Mathlib.Tactic.Linarith
import Mathlib.Tactic.Ring

/-!
# Enclosures of values and of slopes

Products over a box lie between the products of its corners. A set of slopes is a certificate that needs no derivative: it bounds the difference
quotients of a function on a set and so survives kinks. The rules compute slopes of
sums, products, quotients and positive parts from slopes and values of the parts. A set of
slopes of one sign gives strict monotonicity, a bounded one gives continuity.
-/

namespace IntervalCalculus

open Set

section Corners

variable {a b c d x y L : ℝ}

/-- A lower bound of the two end products bounds the product with any point between. -/
theorem le_mul_of_ends (hx : x ∈ Icc a b) (ha : L ≤ a * y) (hb : L ≤ b * y) : L ≤ x * y := by
  rcases le_total 0 y with hy | hy
  · exact ha.trans (mul_le_mul_of_nonneg_right hx.1 hy)
  · exact hb.trans (mul_le_mul_of_nonpos_right hx.2 hy)

/-- A lower bound of the four corner products bounds every product over the box. -/
theorem le_mul_of_corners (hx : x ∈ Icc a b) (hy : y ∈ Icc c d) (hac : L ≤ a * c) (had : L ≤ a * d)
    (hbc : L ≤ b * c) (hbd : L ≤ b * d) : L ≤ x * y := by
  refine le_mul_of_ends hx ?_ ?_
  · rw [mul_comm] at hac had ⊢
    exact le_mul_of_ends hy hac had
  · rw [mul_comm] at hbc hbd ⊢
    exact le_mul_of_ends hy hbc hbd

/-- An upper bound of the four corner products bounds every product over the box. -/
theorem mul_le_of_corners (hx : x ∈ Icc a b) (hy : y ∈ Icc c d) (hac : a * c ≤ L) (had : a * d ≤ L)
    (hbc : b * c ≤ L) (hbd : b * d ≤ L) : x * y ≤ L := by
  have hneg : -x ∈ Icc (-b) (-a) := ⟨neg_le_neg hx.2, neg_le_neg hx.1⟩
  have h := le_mul_of_corners (L := -L) hneg hy (by linarith) (by linarith) (by linarith) (by linarith)
  linarith

/-- Inversion reverses an interval that does not contain zero. -/
theorem inv_mem_Icc (hy : y ∈ Icc c d) (h : 0 < c ∨ d < 0) : y⁻¹ ∈ Icc d⁻¹ c⁻¹ := by
  rcases h with hpos | hneg
  · exact ⟨inv_anti₀ (hpos.trans_le hy.1) hy.2, inv_anti₀ hpos hy.1⟩
  · have hyneg : y < 0 := hy.2.trans_lt hneg
    exact ⟨(inv_le_inv_of_neg hneg hyneg).mpr hy.2, (inv_le_inv_of_neg hyneg (hy.1.trans_lt hyneg)).mpr hy.1⟩

end Corners

/-- Every difference quotient of `g` between two points of `s` lies in `D`. -/
def SlopesIn (s : Set ℝ) (g : ℝ → ℝ) (D : Set ℝ) : Prop :=
  ∀ x ∈ s, ∀ y ∈ s, x < y → slope g x y ∈ D

variable {s D E F V W : Set ℝ} {f g : ℝ → ℝ}

/-- Slopes restrict to subsets. -/
theorem SlopesIn.mono {t : Set ℝ} (h : SlopesIn s g D) (hts : t ⊆ s) : SlopesIn t g D :=
  fun x hx y hy hxy => h x (hts hx) y (hts hy) hxy

/-- A larger set of slopes is still a set of slopes. -/
theorem SlopesIn.weaken (h : SlopesIn s g D) (hD : D ⊆ E) : SlopesIn s g E :=
  fun x hx y hy hxy => hD (h x hx y hy hxy)

/-- Slopes depend only on the values on the set. -/
theorem SlopesIn.congr (h : SlopesIn s f D) (heq : EqOn f g s) : SlopesIn s g D := by
  intro x hx y hy hxy
  rw [slope_def_field, ← heq hx, ← heq hy, ← slope_def_field]
  exact h x hx y hy hxy

/-- A constant has slope zero. -/
theorem slopesIn_const (c : ℝ) (h : (0 : ℝ) ∈ D) : SlopesIn s (fun _ => c) D := by
  intro x _ y _ _
  rwa [slope_def_field, sub_self, zero_div]

/-- The identity has slope one. -/
theorem slopesIn_id (h : (1 : ℝ) ∈ D) : SlopesIn s (fun x => x) D := by
  intro x _ y _ hxy
  rwa [slope_def_field, div_self (sub_ne_zero.mpr hxy.ne')]

/-- Slopes of a sum. -/
theorem SlopesIn.add (hf : SlopesIn s f D) (hg : SlopesIn s g E)
    (h : ∀ d ∈ D, ∀ e ∈ E, d + e ∈ F) : SlopesIn s (fun x => f x + g x) F := by
  intro x hx y hy hxy
  have hslope : slope (fun x => f x + g x) x y = slope f x y + slope g x y := by
    simp only [slope_def_field]
    ring
  rw [hslope]
  exact h _ (hf x hx y hy hxy) _ (hg x hx y hy hxy)

/-- Slopes of a difference. -/
theorem SlopesIn.sub (hf : SlopesIn s f D) (hg : SlopesIn s g E)
    (h : ∀ d ∈ D, ∀ e ∈ E, d - e ∈ F) : SlopesIn s (fun x => f x - g x) F := by
  intro x hx y hy hxy
  have hslope : slope (fun x => f x - g x) x y = slope f x y - slope g x y := by
    simp only [slope_def_field]
    ring
  rw [hslope]
  exact h _ (hf x hx y hy hxy) _ (hg x hx y hy hxy)

/-- Slopes of a product use the values at both ends. -/
theorem SlopesIn.mul (hf : SlopesIn s f D) (hg : SlopesIn s g E) (hfv : MapsTo f s V)
    (hgv : MapsTo g s W) (h : ∀ d ∈ D, ∀ w ∈ W, ∀ v ∈ V, ∀ e ∈ E, d * w + v * e ∈ F) :
    SlopesIn s (fun x => f x * g x) F := by
  intro x hx y hy hxy
  have hslope : slope (fun x => f x * g x) x y = slope f x y * g y + f x * slope g x y := by
    simp only [slope_def_field]
    ring
  rw [hslope]
  exact h _ (hf x hx y hy hxy) _ (hgv hy) _ (hfv hx) _ (hg x hx y hy hxy)

/-- Slopes of a quotient whose denominator does not vanish. -/
theorem SlopesIn.div (hf : SlopesIn s f D) (hg : SlopesIn s g E) (hfv : MapsTo f s V)
    (hgv : MapsTo g s W) (hW : ∀ w ∈ W, w ≠ 0)
    (h : ∀ d ∈ D, ∀ w ∈ W, ∀ v ∈ V, ∀ e ∈ E, ∀ w' ∈ W, (d * w - v * e) / (w * w') ∈ F) :
    SlopesIn s (fun x => f x / g x) F := by
  intro x hx y hy hxy
  have hgx : g x ≠ 0 := hW _ (hgv hx)
  have hgy : g y ≠ 0 := hW _ (hgv hy)
  have hne : y - x ≠ 0 := sub_ne_zero.mpr hxy.ne'
  have hslope : slope (fun x => f x / g x) x y =
      (slope f x y * g x - f x * slope g x y) / (g x * g y) := by
    simp only [slope_def_field]
    field_simp
    ring
  rw [hslope]
  exact h _ (hf x hx y hy hxy) _ (hgv hx) _ (hfv hx) _ (hg x hx y hy hxy) _ (hgv hy)

/-- The positive part moves by a fraction of the movement of its argument. -/
theorem exists_fraction_positivePart (a b : ℝ) :
    ∃ t ∈ Icc (0 : ℝ) 1, max b 0 - max a 0 = t * (b - a) := by
  rcases eq_or_ne a b with rfl | hne
  · exact ⟨0, ⟨le_rfl, zero_le_one⟩, by simp⟩
  · have hne' : b - a ≠ 0 := sub_ne_zero.mpr hne.symm
    refine ⟨(max b 0 - max a 0) / (b - a), ?_, by field_simp⟩
    rcases lt_or_gt_of_ne hne with hlt | hgt
    · have hpos : 0 < b - a := sub_pos.mpr hlt
      rw [mem_Icc, le_div_iff₀ hpos, div_le_iff₀ hpos]
      constructor <;> rcases max_cases b 0 with ⟨h1, _⟩ | ⟨h1, _⟩ <;>
        rcases max_cases a 0 with ⟨h2, _⟩ | ⟨h2, _⟩ <;> linarith
    · have hneg : b - a < 0 := sub_neg.mpr hgt
      rw [mem_Icc, le_div_iff_of_neg hneg, div_le_iff_of_neg hneg]
      constructor <;> rcases max_cases b 0 with ⟨h1, _⟩ | ⟨h1, _⟩ <;>
        rcases max_cases a 0 with ⟨h2, _⟩ | ⟨h2, _⟩ <;> linarith

/-- Slopes of a positive part lie between zero and the slopes of its argument. -/
theorem SlopesIn.positivePart (hf : SlopesIn s f D) (h : ∀ d ∈ D, ∀ t ∈ Icc (0 : ℝ) 1, t * d ∈ F) :
    SlopesIn s (fun x => max (f x) 0) F := by
  intro x hx y hy hxy
  obtain ⟨t, ht, hmove⟩ := exists_fraction_positivePart (f x) (f y)
  have hslope : slope (fun x => max (f x) 0) x y = t * slope f x y := by
    simp only [slope_def_field]
    rw [hmove, mul_div_assoc]
  rw [hslope]
  exact h _ (hf x hx y hy hxy) t ht

/-- Positive slopes make a function strictly increasing. -/
theorem SlopesIn.strictMonoOn (h : SlopesIn s g D) (hD : ∀ d ∈ D, 0 < d) : StrictMonoOn g s := by
  intro x hx y hy hxy
  have hpos := hD _ (h x hx y hy hxy)
  rw [slope_def_field, div_pos_iff_of_pos_right (sub_pos.mpr hxy)] at hpos
  exact sub_pos.mp hpos

/-- Negative slopes make a function strictly decreasing. -/
theorem SlopesIn.strictAntiOn (h : SlopesIn s g D) (hD : ∀ d ∈ D, d < 0) : StrictAntiOn g s := by
  intro x hx y hy hxy
  have hneg := hD _ (h x hx y hy hxy)
  rw [slope_def_field, div_lt_iff₀ (sub_pos.mpr hxy), zero_mul] at hneg
  exact sub_neg.mp hneg

/-- Slopes of one sign make a function injective. -/
theorem SlopesIn.injOn (h : SlopesIn s g D) (hD : (∀ d ∈ D, 0 < d) ∨ ∀ d ∈ D, d < 0) : InjOn g s :=
  hD.elim (fun hpos => (h.strictMonoOn hpos).injOn) fun hneg => (h.strictAntiOn hneg).injOn

/-- Bounded slopes make a function continuous. -/
theorem SlopesIn.continuousOn {m M : ℝ} (h : SlopesIn s g (Icc m M)) : ContinuousOn g s := by
  have hlip : LipschitzOnWith (Real.toNNReal (max |m| |M|)) g s := by
    refine LipschitzOnWith.of_dist_le' fun x hx y hy => ?_
    rw [Real.dist_eq, Real.dist_eq]
    have hordered : ∀ a ∈ s, ∀ b ∈ s, a < b → |g a - g b| ≤ max |m| |M| * |a - b| := by
      intro a ha b hb hab
      obtain ⟨hlo, hhi⟩ := h a ha b hb hab
      have hd : b - a ≠ 0 := sub_ne_zero.mpr hab.ne'
      have hdiff : g a - g b = slope g a b * (a - b) := by
        rw [slope_def_field]
        field_simp
        ring
      rw [hdiff, abs_mul]
      refine mul_le_mul_of_nonneg_right (abs_le.mpr ⟨?_, hhi.trans ?_⟩) (abs_nonneg _)
      · exact (neg_le_neg (le_max_left _ _)).trans ((neg_abs_le m).trans hlo)
      · exact (le_abs_self M).trans (le_max_right _ _)
    rcases lt_trichotomy x y with hlt | rfl | hgt
    · exact hordered x hx y hy hlt
    · simp
    · rw [abs_sub_comm (g x), abs_sub_comm x]
      exact hordered y hy x hx hgt
  exact hlip.continuousOn

/-- A continuous function with values of opposite signs at the ends has a zero strictly between. -/
theorem exists_zero_of_opposite {a b : ℝ} (hab : a ≤ b) (hg : ContinuousOn g (Icc a b))
    (h : g a < 0 ∧ 0 < g b ∨ 0 < g a ∧ g b < 0) : ∃ x ∈ Ioo a b, g x = 0 := by
  have hzero : ∃ x ∈ Icc a b, g x = 0 := by
    rcases h with ⟨hlo, hhi⟩ | ⟨hlo, hhi⟩
    · exact intermediate_value_Icc hab hg ⟨hlo.le, hhi.le⟩
    · exact intermediate_value_Icc' hab hg ⟨hhi.le, hlo.le⟩
  obtain ⟨x, hx, hgx⟩ := hzero
  refine ⟨x, ⟨lt_of_le_of_ne hx.1 ?_, lt_of_le_of_ne hx.2 ?_⟩, hgx⟩
  · rintro rfl
    rcases h with ⟨h, _⟩ | ⟨h, _⟩ <;> linarith
  · rintro rfl
    rcases h with ⟨_, h⟩ | ⟨_, h⟩ <;> linarith

end IntervalCalculus
