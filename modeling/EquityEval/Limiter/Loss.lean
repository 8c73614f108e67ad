import EquityEval.Limiter.Windows

/-!
# Loss of the limiter's state

After the keys vanish, a reservation recreates the hash with a quiet second, but a cooldown
recreates it with its own target. So the quiet second after the last dispatch before a loss is kept
in the runs in which no cooldown that finds the hash missing aims before the end of that second.
-/

namespace EquityEval.Limiter

open FloatArithmetic TransitionSystem

/-- A confirmation after a loss comes a second after every confirmation before it. -/
def QuietAfterLoss (history : List Event) : Prop :=
  ∀ before after token token' a b, history = before ++ .lost :: after → .confirmed token a ∈ before →
    .confirmed token' b ∈ after → a ≤ b ∧ binary64 (reading a + 1) ≤ reading b

/-- A cooldown that finds the hash missing aims at the end of the second after each confirmation. -/
def Careful (s : State) (action : Action) : Prop :=
  match action with
  | .cool cooldown => s.keys.coordinator = none →
      ∀ a ∈ confirmedTimes s.history, binary64 (reading a + 1) ≤ cooldown.target s.now
  | _ => True

instance (s : State) : (action : Action) → Decidable (Careful s action)
  | .cool cooldown =>
    inferInstanceAs (Decidable (s.keys.coordinator = none →
      ∀ a ∈ confirmedTimes s.history, binary64 (reading a + 1) ≤ cooldown.target s.now))
  | .advance _ | .reserve _ | .confirm _ | .lose => .isTrue trivial

/-- Once there is a hash after a loss, it blocks dispatches for the second after each earlier one. -/
structure Recovered (s : State) : Prop where
  times : ∀ token a, .confirmed token a ∈ s.history → a ≤ s.now
  blocked : ∀ before after token a, s.history = before ++ .lost :: after → .confirmed token a ∈ before →
    ∀ c ∈ s.keys.coordinator, binary64 (reading a + 1) ≤ c.blocked
  quiet : QuietAfterLoss s.history

/-- Where a loss stands in a history that was extended. -/
theorem loss_of_append {history before after : List Event} {e : Event}
    (h : history ++ [e] = before ++ .lost :: after) :
    (∃ after', after = after' ++ [e] ∧ history = before ++ .lost :: after') ∨ (e = .lost ∧ history = before) := by
  rcases after.eq_nil_or_concat with rfl | ⟨rest, x, rfl⟩
  · obtain ⟨hhistory, hlast⟩ := List.append_inj' h rfl
    exact Or.inr ⟨List.singleton_inj.mp hlast, hhistory⟩
  · rw [List.concat_eq_append, ← List.cons_append, ← List.append_assoc] at h
    obtain ⟨hhistory, hlast⟩ := List.append_inj' h rfl
    exact Or.inl ⟨rest, by rw [List.concat_eq_append, List.singleton_inj.mp hlast], hhistory⟩

/-- A quiet event other than a loss keeps the quiet second. -/
theorem QuietAfterLoss.append {history : List Event} {e : Event} (h : QuietAfterLoss history)
    (he : ∀ before after token a token' b, history = before ++ .lost :: after → .confirmed token a ∈ before →
      e = .confirmed token' b → a ≤ b ∧ binary64 (reading a + 1) ≤ reading b) : QuietAfterLoss (history ++ [e]) := by
  intro before after token token' a b hsplit ha hb
  rcases loss_of_append hsplit with ⟨after', rfl, hhistory⟩ | ⟨rfl, hhistory⟩
  · rcases List.mem_append.mp hb with hb | hb
    · exact h before after' token token' a b hhistory ha hb
    · exact he before after' token a token' b hhistory ha (List.mem_singleton.mp hb).symm
  · have hnil : after = [] := by
      rw [hhistory] at hsplit
      have hlength := congrArg List.length hsplit
      simpa using hlength
    rw [hnil] at hb
    cases hb

namespace Recovered

variable {rate : ℕ} {s : State}

/-- The hash that a reservation works on blocks dispatches for the second after each earlier one. -/
theorem opened (h : Recovered s) {before after : List Event} {token : Token} {a : Clock}
    (hsplit : s.history = before ++ .lost :: after) (ha : .confirmed token a ∈ before) :
    binary64 (reading a + 1) ≤ (s.keys.opened s.now rate).blocked := by
  cases hc : s.keys.coordinator with
  | some c =>
    rw [opened_of_mem hc]
    exact h.blocked before after token a hsplit ha c hc
  | none =>
    have hmem : .confirmed token a ∈ s.history := hsplit ▸ List.mem_append.mpr (Or.inl ha)
    have hlater := reading_mono (h.times token a hmem)
    unfold Keys.opened
    rw [hc]
    exact binary64_mono (add_nonneg (reading_nonneg a) zero_le_one) (by linarith)

/-- A reservation. -/
theorem reserve {token : Token} (h : Recovered s) : Recovered (s.reserve rate token) := by
  rcases s.reserve_cases rate token with hrefused | ⟨-, -, hgranted⟩
  · rw [hrefused]
    refine ⟨h.times, ?_, h.quiet⟩
    intro before after token a hsplit ha c hc
    cases hc
    exact h.opened hsplit ha
  · rw [hgranted]
    refine ⟨?_, ?_, h.quiet.append (fun _ _ _ _ _ _ _ _ he => by cases he)⟩
    · intro token' a ha
      exact h.times token' a (by simpa using ha)
    · intro before after token' a hsplit ha c hc
      cases hc
      rcases loss_of_append hsplit with ⟨after', -, hhistory⟩ | ⟨hlost, -⟩
      · exact h.opened hhistory ha
      · cases hlost

/-- A confirmation. -/
theorem confirm {token : Token} (h : Recovered s) : Recovered (s.confirm token) := by
  rcases s.confirm_cases token with ⟨hnow, hhistory, hrefused⟩ |
    ⟨c, p, hc, hp, -, -, hblocked, hnow, hnew, hhistory⟩
  · refine ⟨by rw [hnow, hhistory]; exact h.times, ?_, by rw [hhistory]; exact h.quiet⟩
    intro before after token' a hsplit ha c hc
    rw [hhistory] at hsplit
    rcases hrefused with hsame | ⟨c', hc', hdeleted⟩
    · exact h.blocked before after token' a hsplit ha c (hsame ▸ hc)
    · cases hdeleted.symm.trans hc
      exact h.blocked before after token' a hsplit ha c' hc'
  · constructor
    · rw [hnow, hhistory]
      intro token' a ha
      rcases List.mem_append.mp ha with ha | ha
      · exact h.times token' a ha
      · cases List.mem_singleton.mp ha
        exact le_rfl
    · intro before after token' a hsplit ha c' hc'
      cases hnew.symm.trans hc'
      rw [hhistory] at hsplit
      rcases loss_of_append hsplit with ⟨after', -, hold⟩ | ⟨hlost, -⟩
      · exact h.blocked before after' token' a hold ha c hc
      · cases hlost
    · rw [hhistory]
      apply h.quiet.append
      intro before after token' a token'' b hsplit ha he
      cases he
      have hmem : .confirmed token' a ∈ s.history := hsplit ▸ List.mem_append.mpr (Or.inl ha)
      exact ⟨h.times token' a hmem, (h.blocked before after token' a hsplit ha c hc).trans hblocked⟩

/-- A careful cooldown. -/
theorem cool {cooldown : Cooldown} (h : Recovered s) (hcareful : Careful s (.cool cooldown)) :
    Recovered (s.cool cooldown rate) := by
  refine ⟨?_, ?_, h.quiet.append (fun _ _ _ _ _ _ _ _ he => by cases he)⟩
  · intro token a ha
    have hmem : .confirmed token a ∈ s.history := by simpa [State.cool] using ha
    exact h.times token a hmem
  · intro before after token a hsplit ha c' hc'
    cases hc'
    rcases loss_of_append hsplit with ⟨after', -, hhistory⟩ | ⟨hlost, -⟩
    · cases hc : s.keys.coordinator with
      | some c => exact (h.blocked before after' token a hhistory ha c hc).trans (le_max_right _ _)
      | none =>
        have hmem : .confirmed token a ∈ s.history := hhistory ▸ List.mem_append.mpr (Or.inl ha)
        exact (hcareful hc a (mem_confirmedTimes.mpr ⟨token, hmem⟩)).trans (le_max_left _ _)
    · cases hlost

/-- A loss. -/
theorem lose (h : Recovered s) : Recovered s.lose := by
  refine ⟨?_, ?_, h.quiet.append (fun _ _ _ _ _ _ _ _ he => by cases he)⟩
  · intro token a ha
    have hmem : .confirmed token a ∈ s.history := by simpa [State.lose] using ha
    exact h.times token a hmem
  · intro _ _ _ _ _ _ c hc
    cases hc

end Recovered

/-- In careful runs the state is recovered after every loss. -/
theorem recovered_invariant (rate : ℕ) : (system rate Careful).Invariant Recovered where
  initial s hs := by
    obtain ⟨hkeys, hhistory⟩ := hs
    constructor
    · simp [hhistory]
    · simp [hhistory]
    · intro before after token token' a b hsplit
      simp [hhistory] at hsplit
  step s action s' h hstep := by
    obtain ⟨henabled, hcareful, rfl⟩ := hstep
    cases action with
    | advance later => exact ⟨fun token a ha => (h.times token a ha).trans henabled, h.blocked, h.quiet⟩
    | reserve token => exact h.reserve
    | confirm token => exact h.confirm
    | cool cooldown => exact h.cool hcareful
    | lose => exact h.lose

/-- In careful runs a confirmation after a loss comes a second, as the scripts compute it, after every
confirmation before the loss, and until 2106 a second in whole microseconds. -/
theorem quiet_after_loss {rate : ℕ} {s : State} (hs : (system rate Careful).Reachable s) :
    QuietAfterLoss s.history ∧
      ∀ before after token token' a b, s.history = before ++ .lost :: after → .confirmed token a ∈ before →
        .confirmed token' b ∈ after → b < horizon → a + 1000000 ≤ b := by
  have h := (recovered_invariant rate).holds hs
  refine ⟨h.quiet, ?_⟩
  intro before after token token' a b hsplit ha hb hhorizon
  obtain ⟨hle, hquiet⟩ := h.quiet before after token token' a b hsplit ha hb
  have hone : binary64 1 = 1 := by decide +kernel
  rw [← hone] at hquiet
  have hlt := lt_of_sum_le (hle.trans_lt hhorizon) hhorizon zero_le_one one_lt_two hquiet
  have hcast : ((a + 1000000 : ℕ) : ℚ) < (b + 1 : ℕ) := by
    push_cast
    linarith
  have hnat : a + 1000000 < b + 1 := by exact_mod_cast hcast
  exact Nat.lt_succ_iff.mp hnat

/-! ### A sample at two requests in a second -/

/-- A token is confirmed, the keys vanish, a cooldown of a length in quarters of a second recreates the
hash, and another token is confirmed when it is over. -/
def lossActions (quarters : ℕ) : List Action :=
  [.reserve "first", .advance 1735689600000000, .reserve "second", .confirm "second", .lose,
    .cool (.seconds (quarters / 4) (by positivity)), .advance (1735689600000000 + quarters * 250000), .reserve "third",
    .confirm "third"]

/-- The state after those actions. -/
def sampleLoss (quarters : ℕ) : State := (lossActions quarters).foldl (State.act 2) sampleStart

/-- A cooldown of a quarter of a second after a loss lets two dispatches come that close, which is less
than the second of quiet and than the half second of the rate. -/
theorem loss_breaks_quiet :
    (system 2 Loses).Reachable (sampleLoss 1) ∧
      (sampleLoss 1).history =
        [.granted "second" 1735689600000000, .confirmed "second" 1735689600000000, .lost,
          .cooled (reading 1735689600250000), .granted "third" 1735689600250000,
          .confirmed "third" 1735689600250000] ∧
      ¬ QuietAfterLoss (sampleLoss 1).history := by
  have hhistory : (sampleLoss 1).history =
      [.granted "second" 1735689600000000, .confirmed "second" 1735689600000000, .lost,
        .cooled (reading 1735689600250000), .granted "third" 1735689600250000,
        .confirmed "third" 1735689600250000] := by decide +kernel
  refine ⟨reachable_of_permitted (.initial ⟨rfl, rfl⟩) (by decide +kernel), hhistory, ?_⟩
  intro h
  rw [hhistory] at h
  have hquiet := (h [.granted "second" 1735689600000000, .confirmed "second" 1735689600000000] _ "second" "third"
    1735689600000000 1735689600250000 rfl (by simp) (by simp)).2
  exact absurd hquiet (by decide +kernel)

/-- With a cooldown of a second the run is careful, and the dispatches are a second apart. -/
theorem quiet_after_loss_sample :
    (system 2 Careful).Reachable (sampleLoss 4) ∧
      confirmedTimes (sampleLoss 4).history = [1735689600000000, 1735689601000000] ∧
      QuietAfterLoss (sampleLoss 4).history := by
  have hreachable : (system 2 Careful).Reachable (sampleLoss 4) :=
    reachable_of_permitted (.initial ⟨rfl, rfl⟩) (by decide +kernel)
  exact ⟨hreachable, by decide +kernel, (quiet_after_loss hreachable).1⟩

end EquityEval.Limiter
