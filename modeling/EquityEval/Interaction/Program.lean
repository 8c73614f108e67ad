import Mathlib.Data.List.Basic

/-!
# Programs that call their environment

A program ends with a result, or makes a call and goes on with the answer. A run is the list of its calls
with the answers that they got. A monitor follows a run: it says which answers it counts on and which calls
it allows. That a program makes allowed calls only, and what holds when it ends, is computed from the program
itself, for all answers that the monitor counts on.
-/

namespace Interaction

universe u v

variable {Call : Type} {Answer : Call → Type}

/-- A program: its result, or a call and what follows each answer. -/
inductive Program (Answer : Call → Type) (α : Type u) : Type u
  | done (result : α)
  | ask (call : Call) (next : Answer call → Program Answer α)

/-- A call and its answer. -/
structure Event (Answer : Call → Type) where
  call : Call
  answer : Answer call

namespace Program

variable {α : Type u} {β : Type v}

/-- One program after another. -/
def bind : Program Answer α → (α → Program Answer β) → Program Answer β
  | done result, f => f result
  | ask call next, f => ask call fun answer => (next answer).bind f

/-- The program makes the calls of a trace, gets its answers and ends with a result. -/
inductive Runs : Program Answer α → List (Event Answer) → α → Prop
  | done (result : α) : Runs (done result) [] result
  | ask {call : Call} {next : Answer call → Program Answer α} {trace : List (Event Answer)} {result : α} (answer : Answer call)
      (h : Runs (next answer) trace result) : Runs (ask call next) (⟨call, answer⟩ :: trace) result

/-- The run in an environment that answers by the trace so far. -/
def play (environment : List (Event Answer) → (call : Call) → Answer call) :
    Program Answer α → List (Event Answer) → List (Event Answer) × α
  | done result, _ => ([], result)
  | ask call next, past =>
    let event := ⟨call, environment past call⟩
    let (trace, result) := (next event.answer).play environment (past ++ [event])
    (event :: trace, result)

/-- An environment answers a run of the program. -/
theorem runs_play (environment : List (Event Answer) → (call : Call) → Answer call) (p : Program Answer α)
    (past : List (Event Answer)) : p.Runs (p.play environment past).1 (p.play environment past).2 := by
  induction p generalizing past with
  | done result => exact .done result
  | ask call next ih => exact .ask _ (ih _ _)

end Program

/-- A monitor: how it follows a run, which answers it counts on and which calls it allows. -/
structure Monitor (Answer : Call → Type) (σ : Type v) where
  observe : σ → Event Answer → σ
  admits : σ → Event Answer → Prop
  permits : σ → Call → Prop

namespace Monitor

variable {σ : Type v} (m : Monitor Answer σ)

/-- The state of the monitor after a trace. -/
def after (s : σ) (trace : List (Event Answer)) : σ := trace.foldl m.observe s

/-- All answers of a trace are counted on. -/
def Admitted (s : σ) (trace : List (Event Answer)) : Prop :=
  ∀ past event rest, trace = past ++ event :: rest → m.admits (m.after s past) event

/-- All calls of a trace are allowed. -/
def Permitted (s : σ) (trace : List (Event Answer)) : Prop :=
  ∀ past event rest, trace = past ++ event :: rest → m.permits (m.after s past) event.call

variable {m} {s : σ} {event : Event Answer} {trace : List (Event Answer)}

/-- The answers of a longer trace. -/
theorem Admitted.head (h : m.Admitted s (event :: trace)) : m.admits s event := h [] event trace rfl

/-- The answers after the first one. -/
theorem Admitted.tail (h : m.Admitted s (event :: trace)) : m.Admitted (m.observe s event) trace := by
  intro past event' rest htrace
  exact h (event :: past) event' rest (by rw [htrace, List.cons_append])

/-- No calls are allowed ones. -/
theorem Permitted.nil : m.Permitted s [] := by
  intro past event rest h
  exact absurd h (by simp)

/-- A first call and the others. -/
theorem Permitted.cons (hhead : m.permits s event.call) (htail : m.Permitted (m.observe s event) trace) :
    m.Permitted s (event :: trace) := by
  intro past event' rest h
  cases past with
  | nil =>
    obtain ⟨rfl, -⟩ := List.cons.inj h
    exact hhead
  | cons first past =>
    obtain ⟨rfl, hrest⟩ := List.cons.inj h
    exact htail past event' rest hrest

end Monitor

/-- A program makes allowed calls only and ends as asked, whatever answers it gets of those counted on. -/
def Program.Ensures {α : Type u} {σ : Type v} (m : Monitor Answer σ) : Program Answer α → (α → σ → Prop) → σ → Prop
  | .done result, post, s => post result s
  | .ask call next, post, s =>
    m.permits s call ∧ ∀ answer, m.admits s ⟨call, answer⟩ → (next answer).Ensures m post (m.observe s ⟨call, answer⟩)

namespace Program

variable {α : Type u} {β : Type v} {σ : Type v} {m : Monitor Answer σ} {s : σ}

/-- What a program ensures holds of its runs. -/
theorem Ensures.runs {p : Program Answer α} {post : α → σ → Prop} (h : p.Ensures m post s) {trace : List (Event Answer)} {result : α}
    (hrun : p.Runs trace result) (hadmitted : m.Admitted s trace) : m.Permitted s trace ∧ post result (m.after s trace) := by
  induction hrun generalizing s with
  | done result => exact ⟨.nil, h⟩
  | ask answer _ ih =>
    have hnext := ih (h.2 answer hadmitted.head) hadmitted.tail
    exact ⟨.cons h.1 hnext.1, hnext.2⟩

/-- A weaker end is ensured as well. -/
theorem Ensures.mono {p : Program Answer α} {post post' : α → σ → Prop} (h : p.Ensures m post s)
    (hpost : ∀ result s, post result s → post' result s) : p.Ensures m post' s := by
  induction p generalizing s with
  | done result => exact hpost _ _ h
  | ask call next ih => exact ⟨h.1, fun answer hanswer => ih answer (h.2 answer hanswer)⟩

/-- What two programs ensure, one after the other. -/
theorem ensures_bind {p : Program Answer α} {f : α → Program Answer β} {post : β → σ → Prop} :
    (p.bind f).Ensures m post s ↔ p.Ensures m (fun result => (f result).Ensures m post) s := by
  induction p generalizing s with
  | done result => exact Iff.rfl
  | ask call next ih => exact and_congr_right fun _ => forall_congr' fun answer => imp_congr_right fun _ => ih answer

end Program

end Interaction
