import Mathlib.Data.List.Basic
import Mathlib.Order.Defs.Unbundled

/-!
# Transition systems

A system has initial states and labelled steps. What holds initially and is kept by every step
holds in every reachable state, and a relation between states that every step respects is
respected by every run. A simulation relates the runs of one system to those of another.
-/

namespace TransitionSystem

universe u v u' v'

/-- Initial states and labelled steps. -/
structure System (σ : Type u) (α : Type v) where
  initial : σ → Prop
  step : σ → α → σ → Prop

namespace System

variable {σ : Type u} {α : Type v} (S : System σ α)

/-- The states that finitely many steps lead to from an initial state. -/
inductive Reachable : σ → Prop where
  | initial {s : σ} (h : S.initial s) : Reachable s
  | step {s s' : σ} {a : α} (h : Reachable s) (hstep : S.step s a s') : Reachable s'

/-- Finitely many steps from one state to another. -/
inductive Run : σ → σ → Prop where
  | refl (s : σ) : Run s s
  | step {s s' s'' : σ} {a : α} (h : Run s s') (hstep : S.step s' a s'') : Run s s''

/-- A property holds in every reachable state. -/
def Always (P : σ → Prop) : Prop := ∀ s, S.Reachable s → P s

/-- A property that holds initially and that every step keeps. -/
structure Invariant (P : σ → Prop) : Prop where
  initial : ∀ s, S.initial s → P s
  step : ∀ s a s', P s → S.step s a s' → P s'

variable {S}

/-- An invariant holds in every reachable state. -/
theorem Invariant.holds {P : σ → Prop} (h : S.Invariant P) {s : σ} (hs : S.Reachable s) : P s := by
  induction hs with
  | initial hs => exact h.initial _ hs
  | step _ hstep ih => exact h.step _ _ _ ih hstep

namespace Run

/-- One step is a run. -/
theorem single {s s' : σ} {a : α} (h : S.step s a s') : S.Run s s' := .step (.refl s) h

/-- Two runs in sequence are a run. -/
theorem trans {s s' s'' : σ} (h : S.Run s s') (h' : S.Run s' s'') : S.Run s s'' := by
  induction h' with
  | refl => exact h
  | step _ hstep ih => exact .step ih hstep

/-- A run from a reachable state ends in a reachable state. -/
theorem reachable {s s' : σ} (h : S.Run s s') (hs : S.Reachable s) : S.Reachable s' := by
  induction h with
  | refl => exact hs
  | step _ hstep ih => exact .step ih hstep

/-- What every step keeps, a run keeps. -/
theorem keeps {P : σ → Prop} (hP : ∀ s a s', P s → S.step s a s' → P s') {s s' : σ} (h : S.Run s s')
    (hs : P s) : P s' := by
  induction h with
  | refl => exact hs
  | step _ hstep ih => exact hP _ _ _ ih hstep

/-- A preorder that every step follows is followed by every run. -/
theorem follows {R : σ → σ → Prop} [IsPreorder σ R] (hR : ∀ s a s', S.step s a s' → R s s') {s s' : σ}
    (h : S.Run s s') : R s s' := by
  induction h with
  | refl => exact refl_of R _
  | step _ hstep ih => exact trans_of R ih (hR _ _ _ hstep)

end Run

variable {τ : Type u'} {β : Type v'} {T : System τ β}

/-- A relation between reachable states of one system and states of another, such that the
second can follow every step of the first by a run. -/
structure Simulation (S : System σ α) (T : System τ β) (R : σ → τ → Prop) : Prop where
  initial : ∀ s, S.initial s → ∃ t, T.initial t ∧ R s t
  step : ∀ s a s' t, S.Reachable s → R s t → S.step s a s' → ∃ t', T.Run t t' ∧ R s' t'

namespace Simulation

variable {R : σ → τ → Prop}

/-- A run is followed by a run. -/
theorem run (h : Simulation S T R) {s s' : σ} {t : τ} (hs : S.Reachable s) (ht : R s t) (hrun : S.Run s s') :
    ∃ t', T.Run t t' ∧ R s' t' := by
  induction hrun with
  | refl => exact ⟨t, .refl t, ht⟩
  | step hbefore hstep ih =>
    obtain ⟨t', hrun', ht'⟩ := ih
    obtain ⟨t'', hrun'', ht''⟩ := h.step _ _ _ _ (hbefore.reachable hs) ht' hstep
    exact ⟨t'', hrun'.trans hrun'', ht''⟩

/-- Every reachable state is related to a reachable state. -/
theorem reachable (h : Simulation S T R) {s : σ} (hs : S.Reachable s) : ∃ t, T.Reachable t ∧ R s t := by
  induction hs with
  | initial hs =>
    obtain ⟨t, ht, hR⟩ := h.initial _ hs
    exact ⟨t, .initial ht, hR⟩
  | step hs hstep ih =>
    obtain ⟨t, ht, hR⟩ := ih
    obtain ⟨t', hrun, hR'⟩ := h.step _ _ _ _ hs hR hstep
    exact ⟨t', hrun.reachable ht, hR'⟩

end Simulation

end System

end TransitionSystem
