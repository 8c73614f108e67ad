import EquityEval.Transport.Ledger

/-!
# Rules for the calls of a fetch

The monitor of a fetch keeps the ledger and allows the calls that the ledger allows. It counts on exceptions
being those that a call raises, and on whatever else a theorem assumes of the answers. One rule for each kind
of step says what the step ensures.
-/

namespace EquityEval.Transport

open Interaction
open Workflow (Uuid Instant)
open Interaction.Action (Ensures)

/-- The monitor of a fetch whose calls raise some exceptions, and whose answers are otherwise regular. -/
def fetchMonitor (raises : Ledger → Call → Fault → Prop) (regular : Ledger → Event → Prop) : Monitor (Answered Fault Value) Ledger where
  observe := Ledger.observe
  admits l event := (∀ e, event.answer = .error e → raises l event.call e) ∧ regular l event
  permits := Ledger.permits

variable {raises : Ledger → Call → Fault → Prop} {regular : Ledger → Event → Prop} {v : Locals} {l : Ledger} {α β : Type}

/-- A call at the end. -/
theorem ensures_ask {c : Call} {post : Except Fault (Value c) → Locals → Ledger → Prop} (hpermits : l.permits c)
    (hvalue : ∀ value, regular l (answered c value) → post (.ok value) v (l.observe (answered c value)))
    (herror : ∀ e, raises l c e → regular l ⟨c, .error e⟩ → post (.error e) v (l.observe ⟨c, .error e⟩)) :
    Ensures (fetchMonitor raises regular) (ask c) post v l := by
  refine ⟨hpermits, fun answer hadmitted => ?_⟩
  cases answer with
  | ok value => exact hvalue value hadmitted.2
  | error e => exact herror e (hadmitted.1 e rfl) hadmitted.2

/-- One action after another. -/
theorem ensures_seq {x : Fetching α} {f : α → Fetching β} {post : Except Fault β → Locals → Ledger → Prop} {m : Monitor (Answered Fault Value) Ledger}
    {mid : Except Fault α → Locals → Ledger → Prop} (hx : Ensures m x mid v l) (hvalue : ∀ a v l, mid (.ok a) v l → Ensures m (f a) post v l)
    (herror : ∀ e v l, mid (.error e) v l → post (.error e) v l) : Ensures m (x >>= f) post v l := by
  rw [Action.ensures_bind]
  refine hx.mono fun r v l h => ?_
  cases r with
  | ok a => exact hvalue a v l h
  | error e => exact herror e v l h

/-- A call before something else. -/
theorem ensures_ask_bind {c : Call} {f : Value c → Fetching β} {post : Except Fault β → Locals → Ledger → Prop} (hpermits : l.permits c)
    (hvalue : ∀ value, regular l (answered c value) → Ensures (fetchMonitor raises regular) (f value) post v (l.observe (answered c value)))
    (herror : ∀ e, raises l c e → regular l ⟨c, .error e⟩ → post (.error e) v (l.observe ⟨c, .error e⟩)) :
    Ensures (fetchMonitor raises regular) (ask c >>= f) post v l :=
  Action.ensures_bind.mpr (ensures_ask hpermits hvalue herror)

/-- A `with` block closes the response after whatever its body did; the response may fail to close unless its attempt was finished. -/
theorem ensures_closing {body : Fetching α} {post : Except Fault α → Locals → Ledger → Prop}
    (hbody : Ensures (fetchMonitor raises regular) body
      (fun r v l => post r v (l.observe (answered .close ())) ∧
        ∀ e, raises l .close e → regular l ⟨.close, .error e⟩ → post (.error e) v (l.observe ⟨.close, .error e⟩)) v l) :
    Ensures (fetchMonitor raises regular) (closing body) post v l := by
  unfold closing
  rw [Action.ensures_bind, Action.ensures_outcome]
  refine hbody.mono fun r v l h => ensures_ask_bind trivial (fun _ _ => ?_) h.2
  exact Action.ensures_ofExcept.mpr h.1

/-- Clocks, pauses and sources of randomness raise nothing. -/
def silent : Call → Bool
  | .now | .monotonic | .sleep _ | .jitter | .uuid4 => true
  | _ => false

/-- A call that raises nothing, before something else. -/
theorem ensures_silent_bind {c : Call} (hc : silent c) (hraises : ∀ e, ¬ raises l c e) {f : Value c → Fetching β} {post : Except Fault β → Locals → Ledger → Prop}
    (h : ∀ value, regular l (answered c value) → Ensures (fetchMonitor raises regular) (f value) post v (l.extend [answered c value])) :
    Ensures (fetchMonitor raises regular) (ask c >>= f) post v l := by
  cases c with
  | now | monotonic | sleep _ | jitter | uuid4 => exact ensures_ask_bind trivial h fun e he => absurd he (hraises e)
  | _ => cases hc

/-- One of two computations in sequence failed. -/
theorem bind_eq_error {γ δ : Type} {x : Except Fault γ} {f : γ → Except Fault δ} {e : Fault} :
    (x >>= f) = .error e ↔ x = .error e ∨ ∃ a, x = .ok a ∧ f a = .error e := by
  cases x with
  | error e' =>
    constructor
    · intro h
      cases h
      exact .inl rfl
    · intro h
      rcases h with h | ⟨_, h, _⟩ <;> cases h
      rfl
  | ok a => exact ⟨fun h => .inr ⟨a, rfl, h⟩, fun h => h.elim nofun fun ⟨_, ha, h⟩ => Except.ok.inj ha ▸ h⟩

end EquityEval.Transport
