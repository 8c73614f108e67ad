import EquityEval.Transport.Rules

/-!
# Attempts that are settled

An open attempt is settled by one call that finishes it, and stays so when something else happens. A fetch ends
with all of its attempts settled, unless the lease was lost; one that reuses its cached record attempts nothing.
-/

namespace EquityEval.Transport

open Interaction
open Workflow (Uuid)

variable {sequence : ℕ} {validator : Option RawRecord} {id : Uuid} {events : List Event} {l : Ledger}

/-- An attempt that was open is settled by one call. -/
theorem settled_of_open {arguments : Finish} (new : List Event) (hnew : finishes new = []) (hopen : finishes events = []) :
    Attempt.Settled ⟨sequence, validator, id, answered (.finish arguments) () :: (new ++ events)⟩ := by
  change (finishes (answered (.finish arguments) () :: (new ++ events))).length = 1
  rw [finishes_cons, finishes_append, hnew, hopen]
  rfl

/-- Attempts are settled when something else happens. -/
theorem settled_extend (event : Event) (hevent : finishOf event = none) (h : ∀ a ∈ l.attempts, a.Settled) : ∀ a ∈ (l.extend [event]).attempts, a.Settled := by
  obtain ⟨opening, attempts⟩ := l
  cases attempts with
  | nil => exact h
  | cons a past =>
    intro b hb
    rcases List.mem_cons.mp hb with rfl | hb
    · have ha := h a (.head _)
      unfold Attempt.Settled at ha ⊢
      simpa [hevent] using ha
    · exact h b (.tail _ hb)

/-- The number of attempts. -/
theorem length_extend (l : Ledger) (events : List Event) : (l.extend events).attempts.length = l.attempts.length := by
  obtain ⟨opening, attempts⟩ := l
  cases attempts <;> rfl

/-- The events of the attempts are events of the trace. -/
theorem events_after (raises : Ledger → Call → Fault → Prop) (regular : Ledger → Event → Prop) (trace : List Event) :
    ∀ a ∈ ((fetchMonitor raises regular).after .empty trace).attempts, a.events ⊆ trace := by
  induction trace using List.reverseRecOn with
  | nil => exact nofun
  | append_singleton trace event ih =>
    have hafter : (fetchMonitor raises regular).after .empty (trace ++ [event]) = ((fetchMonitor raises regular).after .empty trace).observe event :=
      List.foldl_append
    rw [hafter]
    generalize (fetchMonitor raises regular).after .empty trace = l at ih
    have hextend : ∀ a ∈ (l.extend [event]).attempts, a.events ⊆ trace ++ [event] := by
      obtain ⟨opening, attempts⟩ := l
      cases attempts with
      | nil => exact nofun
      | cons b past =>
        intro a ha
        rcases List.mem_cons.mp ha with rfl | ha
        · intro x hx
          rcases List.mem_cons.mp hx with rfl | hx
          · exact List.mem_append_right _ (.head _)
          · exact List.mem_append_left _ (ih b (.head _) hx)
        · exact fun x hx => List.mem_append_left _ (ih a (.tail _ ha) hx)
    unfold Ledger.observe
    split
    · intro a ha
      rcases List.mem_cons.mp ha with rfl | ha
      · exact List.nil_subset _
      · exact fun x hx => List.mem_append_left _ (ih a ha hx)
    · exact hextend

/-- The fetch ends because the lease was lost. -/
def EndsLost (r : Except Fault FetchResult) : Prop := r = .error .leaseLost ∨ ∃ result, r = .ok result ∧ result.gaps = [.leaseLost]

/-- A usable result of a fetch that reuses its cached record: the record was verified, and nothing was attempted. -/
structure Reused (cacheMode : CacheMode) (cachedRecord : Option RawRecord) (l : Ledger) (r : FetchResult) : Prop where
  mode : cacheMode = .reuse
  unattempted : l.attempts = []
  cached : ∃ record, cachedRecord = some record ∧ r.records = [record] ∧ (verification record).Sublist l.opening

/-- What a fetch knows of its cached record: it is the one of the request, and it was verified. -/
def Checked (cachedRecord : Option RawRecord) (l : Ledger) (cached : Option RawRecord) : Prop :=
  ∀ record, cached = some record → cachedRecord = some record ∧ (verification record).Sublist l.opening

end EquityEval.Transport
