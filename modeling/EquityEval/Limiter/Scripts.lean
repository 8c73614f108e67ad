import EquityEval.Arithmetic.Binary64
import EquityEval.Transition.System

/-!
# The scripts of the shared rate limiter

The limiter keeps one hash and one sorted set in Redis. Three scripts run on them, each at one
reading of the Redis clock: a reservation grants a token, a confirmation consumes it just before
the dispatch, a cooldown blocks dispatches until a target. Numbers in the scripts are doubles. The
clock counts microseconds.
-/

namespace EquityEval.Limiter

open FloatArithmetic TransitionSystem

/-- The token of a grant. -/
abbrev Token : Type := String

/-- A reading of the Redis clock, in microseconds. -/
abbrev Clock : Type := ℕ

/-- The fields `pending` and `expires`, which are set and deleted together. -/
structure Pending where
  token : Token
  expires : ℚ
deriving DecidableEq

/-- The hash under the first key. -/
structure Coordinator where
  rate : ℕ
  blocked : ℚ
  last : ℚ
  pending : Option Pending
deriving DecidableEq

/-- A member of the sorted set under the second key. -/
structure Start where
  score : ℚ
  token : Token
deriving DecidableEq

/-- The two keys of the limiter. -/
structure Keys where
  coordinator : Option Coordinator
  starts : List Start
deriving DecidableEq

/-- Both keys are missing. -/
def Keys.empty : Keys := ⟨none, []⟩

/-- `tonumber(t[1])+tonumber(t[2])/1000000`. -/
def reading (t : Clock) : ℚ := binary64 ((t / 1000000 : ℕ) + binary64 ((t % 1000000 : ℕ) / 1000000))

/-- `1/rate`. -/
def interval (rate : ℕ) : ℚ := binary64 (1 / rate)

/-- `0.05`. -/
def lifetime : ℚ := binary64 (1 / 20)

/-- The hash that a reservation works on; a missing one starts with a quiet second. -/
def Keys.opened (keys : Keys) (t : Clock) (rate : ℕ) : Coordinator :=
  keys.coordinator.getD { rate, blocked := binary64 (reading t + 1), last := 0, pending := none }

/-- What a reservation returns. -/
inductive Reservation where
  | disagreed
  | wait (delay ready : ℚ)
  | granted (now : ℚ)
deriving DecidableEq

/-- The script `RESERVE`. -/
def reserve (keys : Keys) (t : Clock) (rate : ℕ) (token : Token) : Keys × Reservation :=
  let now := reading t
  let c := keys.opened t rate
  let keys := { keys with coordinator := some c }
  if c.rate ≠ rate then
    (keys, .disagreed)
  else
    let ready := max (max c.blocked (binary64 (c.last + interval rate))) (c.pending.elim 0 (·.expires))
    if now < ready then
      (keys, .wait (binary64 (ready - now)) ready)
    else
      ({ keys with coordinator := some { c with pending := some ⟨token, binary64 (now + lifetime)⟩ } }, .granted now)

/-- The script `CONFIRM`; it returns whether the token was consumed. -/
def confirm (keys : Keys) (t : Clock) (token : Token) : Keys × Bool :=
  let now := reading t
  match keys.coordinator with
  | none => (keys, false)
  | some c =>
    match c.pending with
    | none => (keys, false)
    | some p =>
      if p.token ≠ token then
        (keys, false)
      else if p.expires < now then
        ({ keys with coordinator := some { c with pending := none } }, false)
      else if now < c.blocked then
        (keys, false)
      else
        let starts := keys.starts.filter fun s => decide (binary64 (now - 1) < s.score)
        if 10 ≤ starts.length then
          ({ keys with starts }, false)
        else
          ({ coordinator := some { c with last := now, pending := none },
             starts := starts.filter (fun s => decide (s.token ≠ token)) ++ [⟨now, token⟩] }, true)

/-- The argument of a cooldown: a number of seconds, or a review by an operator. -/
inductive Cooldown where
  | seconds (n : ℚ) (h : 0 ≤ n)
  | review

/-- The target of a cooldown. -/
def Cooldown.target (cooldown : Cooldown) (t : Clock) : ℚ :=
  match cooldown with
  | .seconds n _ => binary64 (reading t + n)
  | .review => 253370764800

/-- The script `COOLDOWN`; it returns until when dispatches are blocked. -/
def cool (keys : Keys) (t : Clock) (cooldown : Cooldown) (rate : ℕ) : Keys × ℚ :=
  let untilAt := max (cooldown.target t) (keys.coordinator.elim 0 (·.blocked))
  let c := keys.coordinator.getD { rate, blocked := untilAt, last := 0, pending := none }
  ({ keys with coordinator := some { c with blocked := untilAt, pending := none } }, untilAt)

/-! ### Runs -/

/-- What happened, with the reading of the clock at which it did. -/
inductive Event where
  | granted (token : Token) (t : Clock)
  | confirmed (token : Token) (t : Clock)
  | cooled (target : ℚ)
  | lost
deriving DecidableEq

/-- The clock, the keys, and what happened so far, in order. -/
structure State where
  now : Clock
  keys : Keys
  history : List Event

/-- What a worker or the coordinator does. -/
inductive Action where
  | advance (later : Clock)
  | reserve (token : Token)
  | confirm (token : Token)
  | cool (cooldown : Cooldown)
  | lose

/-- The token was granted before. -/
def Used (history : List Event) (token : Token) : Prop := ∃ t, .granted token t ∈ history

/-- The token of an event that grants one. -/
def Event.grant? : Event → Option Token
  | .granted token _ => some token
  | _ => none

instance (history : List Event) (token : Token) : Decidable (Used history token) :=
  decidable_of_iff (∃ e ∈ history, e.grant? = some token) <| by
    constructor
    · intro h
      obtain ⟨e, he, htoken⟩ := h
      cases e with
      | granted _ t =>
        cases htoken
        exact ⟨t, he⟩
      | _ => cases htoken
    · intro h
      obtain ⟨t, ht⟩ := h
      exact ⟨_, ht, rfl⟩

/-- The state after a reservation. -/
def State.reserve (s : State) (rate : ℕ) (token : Token) : State :=
  let (keys, answer) := Limiter.reserve s.keys s.now rate token
  { s with
    keys, history := s.history ++ match answer with
      | .granted _ => [.granted token s.now]
      | _ => [] }

/-- The state after a confirmation. -/
def State.confirm (s : State) (token : Token) : State :=
  let (keys, confirmed) := Limiter.confirm s.keys s.now token
  { s with keys, history := s.history ++ if confirmed then [.confirmed token s.now] else [] }

/-- The state after a cooldown. -/
def State.cool (s : State) (cooldown : Cooldown) (rate : ℕ) : State :=
  { s with
    keys := (Limiter.cool s.keys s.now cooldown rate).1, history := s.history ++ [.cooled (cooldown.target s.now)] }

/-- The state after the keys were lost. -/
def State.lose (s : State) : State := { s with keys := .empty, history := s.history ++ [.lost] }

/-- The state after an action. -/
def State.act (rate : ℕ) (s : State) : Action → State
  | .advance later => { s with now := later }
  | .reserve token => s.reserve rate token
  | .confirm token => s.confirm token
  | .cool cooldown => s.cool cooldown rate
  | .lose => s.lose

/-- The clock does not go back, and each reservation brings a new token. -/
def Enabled (s : State) : Action → Prop
  | .advance later => s.now ≤ later
  | .reserve token => ¬ Used s.history token
  | _ => True

instance (s : State) (action : Action) : Decidable (Enabled s action) := by
  cases action <;> unfold Enabled <;> infer_instance

/-- Workers with one rate run the scripts in any order, as far as the actions are allowed. -/
def system (rate : ℕ) (allowed : State → Action → Prop) : System State Action where
  initial s := s.keys = .empty ∧ s.history = []
  step s action s' := Enabled s action ∧ allowed s action ∧ s' = s.act rate action

/-- The keys are kept. -/
def Keeps (_ : State) (action : Action) : Prop :=
  match action with
  | .lose => False
  | _ => True

instance (s : State) (action : Action) : Decidable (Keeps s action) := by
  cases action <;> unfold Keeps <;> infer_instance

/-- The keys may vanish. -/
def Loses (_ : State) (_ : Action) : Prop := True

instance (s : State) (action : Action) : Decidable (Loses s action) := by
  unfold Loses
  infer_instance

/-- Actions that follow one another are enabled and allowed. -/
def Permitted (rate : ℕ) (allowed : State → Action → Prop) (s : State) : List Action → Prop
  | [] => True
  | action :: rest => Enabled s action ∧ allowed s action ∧ Permitted rate allowed (s.act rate action) rest

instance decidablePermitted (rate : ℕ) (allowed : State → Action → Prop) [∀ s action, Decidable (allowed s action)]
    (s : State) : (actions : List Action) → Decidable (Permitted rate allowed s actions)
  | [] => .isTrue trivial
  | action :: rest =>
    have := decidablePermitted rate allowed (s.act rate action) rest
    inferInstanceAs (Decidable (Enabled s action ∧ allowed s action ∧ _))

/-- Permitted actions lead to a reachable state. -/
theorem reachable_of_permitted {rate : ℕ} {allowed : State → Action → Prop} {s : State} {actions : List Action}
    (hs : (system rate allowed).Reachable s) (h : Permitted rate allowed s actions) :
    (system rate allowed).Reachable (actions.foldl (State.act rate) s) := by
  induction actions generalizing s with
  | nil => exact hs
  | cons action rest ih =>
    obtain ⟨henabled, hallowed, hrest⟩ := h
    exact ih (hs.step (a := action) ⟨henabled, hallowed, rfl⟩) hrest

/-! ### What each script does -/

section Cases

variable (s : State) (rate : ℕ) (token : Token)

/-- A reservation creates a missing hash, and grants its token only when nothing blocks it and the
last dispatch is an interval ago. -/
theorem State.reserve_cases :
    s.reserve rate token = { s with keys := { s.keys with coordinator := some (s.keys.opened s.now rate) } } ∨
    ((s.keys.opened s.now rate).blocked ≤ reading s.now ∧
      binary64 ((s.keys.opened s.now rate).last + interval rate) ≤ reading s.now ∧
      s.reserve rate token =
        { s with
          keys := { s.keys with
            coordinator := some { s.keys.opened s.now rate with
              pending := some ⟨token, binary64 (reading s.now + lifetime)⟩ } },
          history := s.history ++ [.granted token s.now] }) := by
  unfold State.reserve Limiter.reserve
  by_cases hrate : (s.keys.opened s.now rate).rate = rate
  · by_cases hready : reading s.now < max (max (s.keys.opened s.now rate).blocked
        (binary64 ((s.keys.opened s.now rate).last + interval rate)))
        ((s.keys.opened s.now rate).pending.elim 0 (·.expires))
    · left
      simp only [hrate, ne_eq, not_true_eq_false, if_false, hready, if_true, List.append_nil]
    · right
      rw [not_lt, max_le_iff, max_le_iff] at hready
      refine ⟨hready.1.1, hready.1.2, ?_⟩
      have hnot : ¬ reading s.now < max (max (s.keys.opened s.now rate).blocked
          (binary64 ((s.keys.opened s.now rate).last + interval rate)))
          ((s.keys.opened s.now rate).pending.elim 0 (·.expires)) := by
        rw [not_lt, max_le_iff, max_le_iff]
        exact hready
      simp only [hrate, ne_eq, not_true_eq_false, if_false, hnot]
  · left
    simp only [ne_eq, hrate, not_false_eq_true, if_true, List.append_nil]

/-- A confirmation that is refused leaves the hash, or deletes a pending grant that expired. -/
def Refused (s s' : State) : Prop :=
  s'.now = s.now ∧ s'.history = s.history ∧
    (s'.keys.coordinator = s.keys.coordinator ∨
      ∃ c, s.keys.coordinator = some c ∧ s'.keys.coordinator = some { c with pending := none })

/-- A confirmation is refused, or it consumes the pending grant before its expiry when nothing
blocks it. -/
theorem State.confirm_cases :
    Refused s (s.confirm token) ∨
    ∃ c p, s.keys.coordinator = some c ∧ c.pending = some p ∧ p.token = token ∧ reading s.now ≤ p.expires ∧
      c.blocked ≤ reading s.now ∧ (s.confirm token).now = s.now ∧
      (s.confirm token).keys.coordinator = some { c with last := reading s.now, pending := none } ∧
      (s.confirm token).history = s.history ++ [.confirmed token s.now] := by
  unfold State.confirm Limiter.confirm Refused
  cases hc : s.keys.coordinator with
  | none => exact Or.inl ⟨rfl, by simp, Or.inl hc⟩
  | some c =>
    cases hp : c.pending with
    | none =>
      left
      simp [hp, hc]
    | some p =>
      by_cases htoken : p.token = token
      · by_cases hexpired : p.expires < reading s.now
        · left
          simp [hp, htoken, hexpired]
        · by_cases hblocked : reading s.now < c.blocked
          · left
            simp [hp, htoken, hexpired, hblocked, hc]
          · by_cases hfull : 10 ≤ (s.keys.starts.filter fun s' =>
                decide (binary64 (reading s.now - 1) < s'.score)).length
            · left
              simp [hp, htoken, hexpired, hblocked, hfull]
            · right
              refine ⟨c, p, rfl, hp, htoken, not_lt.mp hexpired, not_lt.mp hblocked, ?_⟩
              simp [hp, htoken, hexpired, hblocked, hfull]
      · left
        simp [hp, htoken, hc]

end Cases

end EquityEval.Limiter
