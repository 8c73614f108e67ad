import EquityEval.Transition.System
import Mathlib.Order.Defs.LinearOrder
import Mathlib.Order.Lattice

/-!
# Fenced leases

One item of work is held by at most one holder at a time, under a lease that names the item's
epoch and its holder and expires unless it is renewed. A lease that is spent, because its epoch
ended, the item was closed or the lease expired, is never accepted again, whatever order the
steps come in.
-/

namespace Fencing

open TransitionSystem

universe u v

variable {τ : Type u} {θ : Type v}

/-- What happens to the item in its current epoch. -/
inductive Phase (τ : Type u) (θ : Type v) where
  | waiting
  | held (holder : τ) (expires : θ)
  | closed

/-- An item of work in its current epoch. -/
structure Item (τ : Type u) (θ : Type v) where
  epoch : ℕ
  phase : Phase τ θ

/-- A lease names the epoch in which it was granted and its holder. -/
structure Lease (τ : Type u) where
  epoch : ℕ
  holder : τ

/-- The clock and the item, once there is one. -/
structure State (τ : Type u) (θ : Type v) where
  now : θ
  item : Option (Item τ θ)

variable [LinearOrder θ]

/-- One step: time passes, or the item appears, is granted, renewed, superseded or closed. -/
inductive Step : State τ θ → Unit → State τ θ → Prop where
  | pass {now later : θ} {item : Option (Item τ θ)} (h : now ≤ later) : Step ⟨now, item⟩ () ⟨later, item⟩
  | appear {now : θ} (epoch : ℕ) : Step ⟨now, none⟩ () ⟨now, some ⟨epoch, .waiting⟩⟩
  | grant {now : θ} {epoch : ℕ} (holder : τ) (expires : θ) :
      Step ⟨now, some ⟨epoch, .waiting⟩⟩ () ⟨now, some ⟨epoch, .held holder expires⟩⟩
  | renew {now : θ} {epoch : ℕ} {holder : τ} {expires : θ} (later : θ) (h : now < expires) :
      Step ⟨now, some ⟨epoch, .held holder expires⟩⟩ () ⟨now, some ⟨epoch, .held holder later⟩⟩
  | supersede {now : θ} {epoch following : ℕ} {phase : Phase τ θ} (hphase : phase ≠ .closed)
      (h : epoch < following) : Step ⟨now, some ⟨epoch, phase⟩⟩ () ⟨now, some ⟨following, .waiting⟩⟩
  | close {now : θ} {epoch following : ℕ} {phase : Phase τ θ} (h : epoch ≤ following) :
      Step ⟨now, some ⟨epoch, phase⟩⟩ () ⟨now, some ⟨following, .closed⟩⟩

/-- The item appears at any time and is then held, superseded and closed in any order. -/
def system (τ : Type u) (θ : Type v) [LinearOrder θ] : System (State τ θ) Unit where
  initial s := s.item = none
  step := Step

/-- One step is a run. -/
theorem Step.run {s s' : State τ θ} (h : Step s () s') : (system τ θ).Run s s' := .single (a := ()) h

/-- The lease is the current holder's and has not expired. -/
def Accepts (s : State τ θ) (l : Lease τ) : Prop :=
  ∃ expires, s.item = some ⟨l.epoch, .held l.holder expires⟩ ∧ s.now < expires

/-- The epoch of the lease has ended, or the item is closed, or the lease has expired. -/
def Spent (l : Lease τ) (s : State τ θ) : Prop :=
  match s.item with
  | none => False
  | some ⟨epoch, .waiting⟩ => l.epoch < epoch
  | some ⟨epoch, .held holder expires⟩ =>
      l.epoch < epoch ∨ (l.epoch = epoch ∧ l.holder = holder ∧ expires ≤ s.now)
  | some ⟨_, .closed⟩ => True

/-- At most one lease is accepted. -/
theorem accepts_unique {s : State τ θ} {l l' : Lease τ} (h : Accepts s l) (h' : Accepts s l') : l = l' := by
  obtain ⟨expires, hitem, -⟩ := h
  obtain ⟨expires', hitem', -⟩ := h'
  rw [hitem] at hitem'
  cases l
  cases l'
  simp only [Option.some.injEq, Item.mk.injEq, Phase.held.injEq] at hitem'
  simp [hitem'.1, hitem'.2.1]

/-- A spent lease is not accepted. -/
theorem Spent.not_accepts {s : State τ θ} {l : Lease τ} (h : Spent l s) : ¬ Accepts s l := by
  intro haccepts
  obtain ⟨expires, hitem, hlive⟩ := haccepts
  unfold Spent at h
  rw [hitem] at h
  cases h with
  | inl hepoch => exact Nat.lt_irrefl _ hepoch
  | inr hexpired => exact absurd hlive (not_lt.mpr hexpired.2.2)

/-- A spent lease stays spent. -/
theorem Spent.step {s s' : State τ θ} {l : Lease τ} (h : Spent l s) (hstep : Step s () s') : Spent l s' := by
  cases hstep with
  | @pass now later item hlater =>
    match item, h with
    | some ⟨_, .waiting⟩, h => exact h
    | some ⟨_, .closed⟩, _ => trivial
    | some ⟨_, .held _ _⟩, h => exact h.imp_right fun hsame => ⟨hsame.1, hsame.2.1, le_trans hsame.2.2 hlater⟩
  | appear => exact absurd h id
  | grant holder expires => exact Or.inl h
  | renew later hlive =>
    cases h with
    | inl hepoch => exact Or.inl hepoch
    | inr hexpired => exact absurd hlive (not_lt.mpr hexpired.2.2)
  | @supersede now epoch following phase hphase hfollowing =>
    match phase, h, hphase with
    | .waiting, h, _ => exact Nat.lt_trans h hfollowing
    | .held _ _, h, _ =>
      cases h with
      | inl hepoch => exact Nat.lt_trans hepoch hfollowing
      | inr hsame => exact lt_of_eq_of_lt hsame.1 hfollowing
    | .closed, _, hphase => exact absurd rfl hphase
  | close => trivial

/-- A step leaves an accepted lease accepted or spends it. -/
theorem Accepts.step {s s' : State τ θ} {l : Lease τ} (h : Accepts s l) (hstep : Step s () s') :
    Accepts s' l ∨ Spent l s' := by
  obtain ⟨expires, hitem, hlive⟩ := h
  cases hstep with
  | @pass now later item hlater =>
    cases hitem
    by_cases hexpired : later < expires
    · exact Or.inl ⟨expires, rfl, hexpired⟩
    · exact Or.inr (Or.inr ⟨rfl, rfl, not_lt.mp hexpired⟩)
  | appear => cases hitem
  | grant holder expires => cases hitem
  | @renew now epoch holder expires later hlater =>
    cases hitem
    by_cases hexpired : now < later
    · exact Or.inl ⟨later, rfl, hexpired⟩
    · exact Or.inr (Or.inr ⟨rfl, rfl, not_lt.mp hexpired⟩)
  | supersede hphase hfollowing =>
    cases hitem
    exact Or.inr hfollowing
  | close hfollowing => exact Or.inr trivial

/-- Over a run, an accepted lease stays accepted or is spent. -/
theorem Accepts.run {s s' : State τ θ} {l : Lease τ} (h : Accepts s l) (hrun : (system τ θ).Run s s') :
    Accepts s' l ∨ Spent l s' := by
  refine hrun.keeps (P := fun t => Accepts t l ∨ Spent l t) ?_ (Or.inl h)
  intro t _ t' ht hstep
  cases ht with
  | inl hlive => exact hlive.step hstep
  | inr hspent => exact Or.inr (hspent.step hstep)

/-- Over a run, a spent lease stays spent. -/
theorem Spent.run {s s' : State τ θ} {l : Lease τ} (h : Spent l s) (hrun : (system τ θ).Run s s') : Spent l s' :=
  hrun.keeps (fun _ _ _ ht hstep => ht.step hstep) h

/-- A lease that was accepted and no longer is will never be accepted again. -/
theorem never_accepted_again {s s' s'' : State τ θ} {l : Lease τ} (h : Accepts s l) (hrun : (system τ θ).Run s s')
    (hlost : ¬ Accepts s' l) (hrun' : (system τ θ).Run s' s'') : ¬ Accepts s'' l := by
  have hspent : Spent l s' := (h.run hrun).resolve_left hlost
  exact (hspent.run hrun').not_accepts

end Fencing
