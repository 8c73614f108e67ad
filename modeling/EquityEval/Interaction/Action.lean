import EquityEval.Interaction.Program

/-!
# Actions with variables and exceptions

An action is a program that also reads and writes variables, and that returns or raises. The variables keep
their values when an exception is raised. One rule for each form of action says what it ensures.
-/

namespace Interaction

variable {Call : Type} {Value : Call → Type} {ε ς : Type}

/-- A call is answered by a value or by an exception. -/
abbrev Answered (ε : Type) (Value : Call → Type) : Call → Type := fun call => Except ε (Value call)

/-- An action on variables `ς`: a program that returns a value or raises an exception. -/
def Action (Value : Call → Type) (ε ς α : Type) : Type := ς → Program (Answered ε Value) (Except ε α × ς)

namespace Action

variable {α β : Type}

/-- Return a value. -/
def ret (a : α) : Action Value ε ς α := fun v => .done (.ok a, v)

/-- Raise an exception. -/
def raise (e : ε) : Action Value ε ς α := fun v => .done (.error e, v)

/-- The outcome of an action, which raises nothing itself. -/
def outcome (x : Action Value ε ς α) : Action Value ε ς (Except ε α) := fun v =>
  (x v).bind fun r => .done (.ok r.1, r.2)

/-- Go on with the value of an action; an exception ends both. -/
def andThen (x : Action Value ε ς α) (f : α → Action Value ε ς β) : Action Value ε ς β := fun v =>
  (x v).bind fun r => match r.1 with
    | .ok a => f a r.2
    | .error e => .done (.error e, r.2)

instance : Monad (Action Value ε ς) where
  pure := ret
  bind := andThen

/-- Make a call; the exception that answers it is raised. -/
def call (c : Call) : Action Value ε ς (Value c) := fun v => .ask c fun answer => .done (answer, v)

/-- Read the variables. -/
def read : Action Value ε ς ς := fun v => .done (.ok v, v)

/-- Change the variables. -/
def assign (f : ς → ς) : Action Value ε ς Unit := fun v => .done (.ok (), f v)

/-- A value, or an exception that is raised. -/
def ofExcept : Except ε α → Action Value ε ς α
  | .ok a => ret a
  | .error e => raise e

/-- A program that makes allowed calls only, and what holds of its value or exception, its variables and the monitor. -/
def Ensures {σ : Type} (m : Monitor (Answered ε Value) σ) (x : Action Value ε ς α) (post : Except ε α → ς → σ → Prop) (v : ς) (s : σ) : Prop :=
  (x v).Ensures m (fun r => post r.1 r.2) s

section Rules

variable {σ : Type} {m : Monitor (Answered ε Value) σ} {v : ς} {s : σ}

@[simp] theorem ensures_pure {a : α} {post : Except ε α → ς → σ → Prop} :
    Ensures m (pure a : Action Value ε ς α) post v s ↔ post (.ok a) v s := Iff.rfl

@[simp] theorem ensures_raise {e : ε} {post : Except ε α → ς → σ → Prop} :
    Ensures m (raise e : Action Value ε ς α) post v s ↔ post (.error e) v s := Iff.rfl

@[simp] theorem ensures_read {post : Except ε ς → ς → σ → Prop} :
    Ensures m (read : Action Value ε ς ς) post v s ↔ post (.ok v) v s := Iff.rfl

@[simp] theorem ensures_assign {f : ς → ς} {post : Except ε Unit → ς → σ → Prop} :
    Ensures m (assign f : Action Value ε ς Unit) post v s ↔ post (.ok ()) (f v) s := Iff.rfl

@[simp] theorem ensures_ofExcept {r : Except ε α} {post : Except ε α → ς → σ → Prop} :
    Ensures m (ofExcept r : Action Value ε ς α) post v s ↔ post r v s := by
  cases r <;> rfl

@[simp] theorem ensures_outcome {x : Action Value ε ς α} {post : Except ε (Except ε α) → ς → σ → Prop} :
    Ensures m x.outcome post v s ↔ Ensures m x (fun r => post (.ok r)) v s := Program.ensures_bind

/-- What follows an action: after its value, or at once after its exception. -/
@[simp] theorem ensures_bind {x : Action Value ε ς α} {f : α → Action Value ε ς β} {post : Except ε β → ς → σ → Prop} :
    Ensures m (x >>= f) post v s ↔
      Ensures m x (fun | .ok a => Ensures m (f a) post | .error e => post (.error e)) v s := by
  refine Program.ensures_bind.trans (iff_of_eq ?_)
  unfold Ensures
  congr 1
  funext r s
  obtain ⟨r, v⟩ := r
  cases r <;> rfl

@[simp] theorem ensures_ite {c : Prop} [Decidable c] {x y : Action Value ε ς α} {post : Except ε α → ς → σ → Prop} :
    Ensures m (if c then x else y) post v s ↔ (c → Ensures m x post v s) ∧ (¬c → Ensures m y post v s) := by
  split <;> simp_all

/-- A call is allowed, and each answer that is counted on leads on. -/
@[simp] theorem ensures_call {c : Call} {post : Except ε (Value c) → ς → σ → Prop} :
    Ensures m (call c : Action Value ε ς (Value c)) post v s ↔
      m.permits s c ∧ ∀ answer, m.admits s ⟨c, answer⟩ → post answer v (m.observe s ⟨c, answer⟩) := Iff.rfl

/-- The variables are read before something else. -/
theorem ensures_read_bind {f : ς → Action Value ε ς β} {post : Except ε β → ς → σ → Prop} :
    Ensures m (read >>= f) post v s ↔ Ensures m (f v) post v s := Iff.rfl

/-- The variables are changed before something else. -/
theorem ensures_assign_bind {g : ς → ς} {f : Unit → Action Value ε ς β} {post : Except ε β → ς → σ → Prop} :
    Ensures m (assign g >>= f) post v s ↔ Ensures m (f ()) post (g v) s := Iff.rfl

/-- What follows the outcome of an action follows its value and its exception. -/
theorem ensures_outcome_bind {x : Action Value ε ς α} {f : Except ε α → Action Value ε ς β} {post : Except ε β → ς → σ → Prop} :
    Ensures m (x.outcome >>= f) post v s ↔ Ensures m x (fun r => Ensures m (f r) post) v s :=
  ensures_bind.trans ensures_outcome

/-- A weaker end is ensured as well. -/
theorem Ensures.mono {x : Action Value ε ς α} {post post' : Except ε α → ς → σ → Prop} (h : Ensures m x post v s)
    (hpost : ∀ r v s, post r v s → post' r v s) : Ensures m x post' v s :=
  Program.Ensures.mono h fun r s => hpost r.1 r.2 s

end Rules

end Action

end Interaction
