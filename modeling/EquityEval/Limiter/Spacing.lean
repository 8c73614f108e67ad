import EquityEval.Limiter.Scripts
import Mathlib.Data.List.Chain

/-!
# Spacing of dispatches

While the keys are kept, a confirmation comes an interval after the one before it, as the scripts
compute intervals, after every cooldown target that was set before it, and within the lifetime of
its own grant. The rounding of the readings costs less than a microsecond.
-/

namespace EquityEval.Limiter

open FloatArithmetic TransitionSystem

/-! ### Confirmations -/

/-- The readings of the clock at which tokens were confirmed, in order. -/
def confirmedTimes (history : List Event) : List Clock :=
  history.filterMap fun | .confirmed _ t => some t | _ => none

/-- The tokens that were confirmed, in order. -/
def confirmedTokens (history : List Event) : List Token :=
  history.filterMap fun | .confirmed token _ => some token | _ => none

/-- The second reading is an interval after the first one, as the scripts compute it. -/
def Apart (rate : ℕ) (a b : Clock) : Prop := binary64 (reading a + interval rate) ≤ reading b

/-- A confirmation does not come before a cooldown target that was set before it. -/
def Heeds (e e' : Event) : Prop :=
  match e, e' with
  | .cooled target, .confirmed _ b => target ≤ reading b
  | _, _ => True

/-- What a confirmation adds to the confirmed readings. -/
@[simp] theorem confirmedTimes_append_confirmed (history : List Event) (token : Token) (t : Clock) :
    confirmedTimes (history ++ [.confirmed token t]) = confirmedTimes history ++ [t] := by
  simp [confirmedTimes]

/-- What a confirmation adds to the confirmed tokens. -/
@[simp] theorem confirmedTokens_append_confirmed (history : List Event) (token : Token) (t : Clock) :
    confirmedTokens (history ++ [.confirmed token t]) = confirmedTokens history ++ [token] := by
  simp [confirmedTokens]

/-- The event is not a confirmation. -/
def Event.Quiet : Event → Prop
  | .confirmed _ _ => False
  | _ => True

/-- Other events add nothing to the confirmed readings and tokens. -/
theorem confirmed_append_quiet {history : List Event} {e : Event} (h : e.Quiet) :
    confirmedTimes (history ++ [e]) = confirmedTimes history ∧
      confirmedTokens (history ++ [e]) = confirmedTokens history := by
  cases e with
  | confirmed => exact h.elim
  | _ => simp [confirmedTimes, confirmedTokens]

/-- A confirmed token is in the history. -/
theorem mem_confirmedTokens {history : List Event} {token : Token} :
    token ∈ confirmedTokens history ↔ ∃ t, .confirmed token t ∈ history := by
  constructor
  · intro h
    obtain ⟨e, he, htoken⟩ := List.mem_filterMap.mp h
    cases e with
    | confirmed token' t =>
      cases htoken
      exact ⟨t, he⟩
    | _ => cases htoken
  · intro h
    obtain ⟨t, ht⟩ := h
    exact List.mem_filterMap.mpr ⟨_, ht, rfl⟩

/-- A confirmed reading is in the history. -/
theorem mem_confirmedTimes {history : List Event} {t : Clock} :
    t ∈ confirmedTimes history ↔ ∃ token, .confirmed token t ∈ history := by
  constructor
  · intro h
    obtain ⟨e, he, htime⟩ := List.mem_filterMap.mp h
    cases e with
    | confirmed token t' =>
      cases htime
      exact ⟨token, he⟩
    | _ => cases htime
  · intro h
    obtain ⟨token, ht⟩ := h
    exact List.mem_filterMap.mpr ⟨_, ht, rfl⟩

/-! ### The invariant -/

/-- The pending grant was made at some reading, an interval after the last confirmation. -/
structure Granted (rate : ℕ) (s : State) (c : Coordinator) (p : Pending) : Prop where
  apart : ∃ g ≤ s.now, .granted p.token g ∈ s.history ∧ p.expires = binary64 (reading g + lifetime) ∧
    binary64 (c.last + interval rate) ≤ reading g
  fresh : p.token ∉ confirmedTokens s.history

/-- What holds between two scripts while the keys are kept. -/
structure Kept (rate : ℕ) (s : State) : Prop where
  times : ∀ t ∈ confirmedTimes s.history, t ≤ s.now
  last : ∀ t ∈ (confirmedTimes s.history).getLast?, ∃ c ∈ s.keys.coordinator, c.last = reading t
  pending : ∀ c ∈ s.keys.coordinator, ∀ p ∈ c.pending, Granted rate s c p
  blocked : ∀ target, .cooled target ∈ s.history → ∃ c ∈ s.keys.coordinator, target ≤ c.blocked
  chain : (confirmedTimes s.history).IsChain (fun a b => a ≤ b ∧ Apart rate a b)
  heeds : s.history.Pairwise Heeds
  used : ∀ token ∈ confirmedTokens s.history, Used s.history token
  once : (confirmedTokens s.history).Nodup
  inTime : ∀ token t, .confirmed token t ∈ s.history →
    ∃ g ≤ t, .granted token g ∈ s.history ∧ reading t ≤ binary64 (reading g + lifetime)

/-- The readings of a clock are not negative. -/
theorem reading_nonneg (t : Clock) : 0 ≤ reading t := by
  have hfraction : (0 : ℚ) ≤ binary64 ((t % 1000000 : ℕ) / 1000000) := by
    rw [← binary64_zero]
    exact binary64_mono le_rfl (by positivity)
  rw [← binary64_zero]
  exact binary64_mono le_rfl (by positivity)

/-- A later reading is not smaller. -/
theorem reading_mono {t t' : ℕ} (h : t ≤ t') : reading t ≤ reading t' := by
  have hfraction : ∀ n : ℕ, (0 : ℚ) ≤ binary64 ((n % 1000000 : ℕ) / 1000000) := by
    intro n
    rw [← binary64_zero]
    exact binary64_mono le_rfl (by positivity)
  have hone : binary64 ((t % 1000000 : ℕ) / 1000000) ≤ 1 := by
    have hexact : binary64 1 = 1 := by decide +kernel
    have hlt : ((t % 1000000 : ℕ) : ℚ) ≤ 1000000 := by exact_mod_cast (Nat.mod_lt t (by norm_num)).le
    rw [← hexact]
    apply binary64_mono (by positivity)
    linarith
  apply binary64_mono (add_nonneg (Nat.cast_nonneg _) (hfraction t))
  rcases (Nat.div_le_div_right h : t / 1000000 ≤ t' / 1000000).eq_or_lt with hsecond | hsecond
  · rw [hsecond]
    have hrest : t % 1000000 ≤ t' % 1000000 := by omega
    apply add_le_add_right
    apply binary64_mono (by positivity)
    have : ((t % 1000000 : ℕ) : ℚ) ≤ (t' % 1000000 : ℕ) := by exact_mod_cast hrest
    linarith
  · have hnext : ((t / 1000000 : ℕ) : ℚ) + 1 ≤ (t' / 1000000 : ℕ) := by exact_mod_cast hsecond
    linarith [hfraction t']

section Steps

variable {rate : ℕ} {s : State}

/-- A grant stays as time passes and quiet events happen. -/
theorem Granted.later {s' : State} {c c' : Coordinator} {p : Pending} (h : Granted rate s c p) (hnow : s.now ≤ s'.now)
    (hhistory : ∀ e ∈ s.history, e ∈ s'.history) (hlast : c'.last = c.last)
    (htokens : confirmedTokens s'.history = confirmedTokens s.history) : Granted rate s' c' p := by
  obtain ⟨g, hg, hgranted, hexpires, hapart⟩ := h.apart
  constructor
  · exact ⟨g, hg.trans hnow, hhistory _ hgranted, hexpires, by rw [hlast]; exact hapart⟩
  · rw [htokens]
    exact h.fresh

/-- Time passes. -/
theorem Kept.advance {later : Clock} (h : Kept rate s) (hlater : s.now ≤ later) : Kept rate { s with now := later } where
  times t ht := (h.times t ht).trans hlater
  last := h.last
  pending c hc p hp := (h.pending c hc p hp).later hlater (fun _ he => he) rfl rfl
  blocked := h.blocked
  chain := h.chain
  heeds := h.heeds
  used := h.used
  once := h.once
  inTime := h.inTime

/-- What holds depends on the clock, the hash and the history. -/
theorem Kept.congr {s' : State} (h : Kept rate s) (hnow : s'.now = s.now) (hhistory : s'.history = s.history)
    (hsame : s'.keys.coordinator = s.keys.coordinator) : Kept rate s' := by
  obtain ⟨now, ⟨coordinator, starts⟩, history⟩ := s'
  obtain rfl : now = s.now := hnow
  obtain rfl : history = s.history := hhistory
  obtain rfl : coordinator = s.keys.coordinator := hsame
  exact ⟨h.times, h.last, fun c hc p hp => (h.pending c hc p hp).later le_rfl (fun _ he => he) rfl rfl, h.blocked,
    h.chain, h.heeds, h.used, h.once, h.inTime⟩

/-- The hash changes while nothing is recorded: what was blocked and confirmed stays. -/
theorem Kept.rewrite {s' : State} {c' : Coordinator} (h : Kept rate s) (hnow : s'.now = s.now)
    (hhistory : s'.history = s.history) (hnew : s'.keys.coordinator = some c')
    (hlast : ∀ c ∈ s.keys.coordinator, c'.last = c.last ∧ c.blocked ≤ c'.blocked)
    (hpending : ∀ p ∈ c'.pending, ∃ c ∈ s.keys.coordinator, p ∈ c.pending ∧ c'.last = c.last) : Kept rate s' where
  times t ht := by
    rw [hhistory] at ht
    rw [hnow]
    exact h.times t ht
  last t ht := by
    rw [hhistory] at ht
    obtain ⟨c, hc, hct⟩ := h.last t ht
    exact ⟨c', hnew, (hlast c hc).1.trans hct⟩
  pending c hc p hp := by
    cases hnew.symm.trans hc
    obtain ⟨c, hc, hp, hcl⟩ := hpending p hp
    exact (h.pending c hc p hp).later hnow.ge (fun e he => by rw [hhistory]; exact he) hcl (by rw [hhistory])
  blocked target ht := by
    rw [hhistory] at ht
    obtain ⟨c, hc, hle⟩ := h.blocked target ht
    exact ⟨c', hnew, hle.trans (hlast c hc).2⟩
  chain := by rw [hhistory]; exact h.chain
  heeds := by rw [hhistory]; exact h.heeds
  used token ht := by
    rw [hhistory] at ht ⊢
    exact h.used token ht
  once := by rw [hhistory]; exact h.once
  inTime token t ht := by
    rw [hhistory] at ht ⊢
    exact h.inTime token t ht

/-- What a quiet event at the end of the history leaves as it was. -/
theorem Kept.record {s' : State} {c' : Coordinator} {e : Event} (h : Kept rate s) (hquiet : e.Quiet)
    (hnow : s'.now = s.now) (hhistory : s'.history = s.history ++ [e]) (hnew : s'.keys.coordinator = some c')
    (hlast : ∀ c ∈ s.keys.coordinator, c'.last = c.last ∧ c.blocked ≤ c'.blocked)
    (hpending : ∀ p ∈ c'.pending, Granted rate s' c' p) (hcooled : ∀ target, e = .cooled target → target ≤ c'.blocked) :
    Kept rate s' := by
  obtain ⟨htimes, htokens⟩ := @confirmed_append_quiet s.history _ hquiet
  have hold : ∀ e' ∈ s.history, e' ∈ s'.history := by
    intro e' he'
    rw [hhistory]
    exact List.mem_append.mpr (Or.inl he')
  constructor
  case times =>
    rw [hhistory, htimes, hnow]
    exact h.times
  case last =>
    rw [hhistory, htimes]
    intro t ht
    obtain ⟨c, hc, hct⟩ := h.last t ht
    exact ⟨c', hnew, (hlast c hc).1.trans hct⟩
  case pending =>
    intro c hc p hp
    cases hnew.symm.trans hc
    exact hpending p hp
  case blocked =>
    intro target ht
    rw [hhistory] at ht
    rcases List.mem_append.mp ht with ht | ht
    · obtain ⟨c, hc, hle⟩ := h.blocked target ht
      exact ⟨c', hnew, hle.trans (hlast c hc).2⟩
    · exact ⟨c', hnew, hcooled target (List.mem_singleton.mp ht).symm⟩
  case chain =>
    rw [hhistory, htimes]
    exact h.chain
  case heeds =>
    rw [hhistory]
    apply List.pairwise_append.mpr
    refine ⟨h.heeds, List.pairwise_singleton _ _, ?_⟩
    intro e₁ _ e₂ he₂
    rw [List.mem_singleton.mp he₂]
    unfold Heeds
    cases e with
    | confirmed => exact hquiet.elim
    | _ => cases e₁ <;> trivial
  case used =>
    rw [hhistory, htokens]
    intro token ht
    obtain ⟨t, hmem⟩ := h.used token ht
    exact ⟨t, List.mem_append.mpr (Or.inl hmem)⟩
  case once =>
    rw [hhistory, htokens]
    exact h.once
  case inTime =>
    intro token t ht
    rw [hhistory] at ht
    rcases List.mem_append.mp ht with ht | ht
    · obtain ⟨g, hg, hgranted, hexpires⟩ := h.inTime token t ht
      exact ⟨g, hg, hold _ hgranted, hexpires⟩
    · rw [← List.mem_singleton.mp ht] at hquiet
      exact hquiet.elim

/-- The hash that a reservation works on is the one that is there. -/
theorem opened_of_mem {c : Coordinator} (hc : c ∈ s.keys.coordinator) : s.keys.opened s.now rate = c := by
  unfold Keys.opened
  rw [Option.mem_def.mp hc]
  rfl

/-- A missing hash starts without a pending grant. -/
theorem pending_of_opened {p : Pending} (hp : p ∈ (s.keys.opened s.now rate).pending) :
    s.keys.opened s.now rate ∈ s.keys.coordinator := by
  unfold Keys.opened at hp ⊢
  cases hc : s.keys.coordinator with
  | none =>
    rw [hc] at hp
    cases hp
  | some c => rfl

/-- A reservation with a new token. -/
theorem Kept.reserve {token : Token} (h : Kept rate s) (hfresh : ¬ Used s.history token) :
    Kept rate (s.reserve rate token) := by
  have hsame : ∀ c ∈ s.keys.coordinator, (s.keys.opened s.now rate).last = c.last ∧
      c.blocked ≤ (s.keys.opened s.now rate).blocked := by
    intro c hc
    rw [opened_of_mem hc]
    exact ⟨rfl, le_rfl⟩
  rcases s.reserve_cases rate token with hrefused | ⟨hblocked, hapart, hgranted⟩
  · rw [hrefused]
    refine h.rewrite rfl rfl rfl hsame ?_
    intro p hp
    exact ⟨_, pending_of_opened hp, hp, rfl⟩
  · rw [hgranted]
    refine h.record (e := .granted token s.now) trivial rfl rfl rfl hsame ?_ (fun _ he => by cases he)
    intro p hp
    cases hp
    constructor
    · exact ⟨s.now, le_rfl, by simp, rfl, hapart⟩
    · rw [(confirmed_append_quiet (e := .granted token s.now) trivial).2]
      exact fun hmem => hfresh (h.used token hmem)

/-- A cooldown. -/
theorem Kept.cool {cooldown : Cooldown} (h : Kept rate s) : Kept rate (s.cool cooldown rate) := by
  refine h.record (e := .cooled (cooldown.target s.now)) trivial rfl rfl rfl ?_ ?_ ?_
  · intro c hc
    simp [Option.mem_def.mp hc]
  · intro p hp
    cases hp
  · intro target ht
    cases ht
    exact le_max_left _ _

/-- A confirmation comes an interval after the last one. -/
theorem Kept.apart {c : Coordinator} {p : Pending} {l : Clock} (h : Kept rate s) (hc : s.keys.coordinator = some c)
    (hp : c.pending = some p) (hl : l ∈ (confirmedTimes s.history).getLast?) : l ≤ s.now ∧ Apart rate l s.now := by
  obtain ⟨g, hg, -, -, hapart⟩ := (h.pending c hc p hp).apart
  obtain ⟨c', hc', hlast⟩ := h.last l hl
  cases hc.symm.trans hc'
  rw [hlast] at hapart
  exact ⟨h.times l (List.mem_of_getLast? hl), hapart.trans (reading_mono hg)⟩

/-- A confirmation. -/
theorem Kept.confirm {token : Token} (h : Kept rate s) : Kept rate (s.confirm token) := by
  rcases s.confirm_cases token with ⟨hnow, hhistory, hrefused⟩ |
    ⟨c, p, hc, hp, htoken, hexpires, hblocked, hnow, hnew, hhistory⟩
  · rcases hrefused with hsame | ⟨c, hc, hdeleted⟩
    · exact h.congr hnow hhistory hsame
    · refine h.rewrite hnow hhistory hdeleted ?_ (fun p hp => by cases hp)
      intro c₁ hc₁
      cases hc.symm.trans hc₁
      exact ⟨rfl, le_rfl⟩
  · have hgranted := h.pending c hc p hp
    obtain ⟨g, hg, hmem, hlifetime, -⟩ := hgranted.apart
    rw [htoken] at hmem
    have hfresh := hgranted.fresh
    rw [htoken] at hfresh
    constructor
    case times =>
      rw [hhistory, hnow, confirmedTimes_append_confirmed]
      intro t ht
      rcases List.mem_append.mp ht with ht | ht
      · exact h.times t ht
      · exact (List.mem_singleton.mp ht).le
    case last =>
      rw [hhistory, confirmedTimes_append_confirmed, List.getLast?_append_of_ne_nil _ (by simp)]
      intro t ht
      cases ht
      exact ⟨_, hnew, rfl⟩
    case pending =>
      intro c₁ hc₁ p₁ hp₁
      cases hnew.symm.trans hc₁
      cases hp₁
    case blocked =>
      rw [hhistory]
      intro target ht
      rcases List.mem_append.mp ht with ht | ht
      · obtain ⟨c₁, hc₁, hle⟩ := h.blocked target ht
        cases hc.symm.trans hc₁
        exact ⟨_, hnew, hle⟩
      · cases List.mem_singleton.mp ht
    case chain =>
      rw [hhistory, confirmedTimes_append_confirmed]
      apply List.isChain_append.mpr
      refine ⟨h.chain, List.isChain_singleton _, ?_⟩
      intro l hl t ht
      cases ht
      exact h.apart hc hp hl
    case heeds =>
      rw [hhistory]
      apply List.pairwise_append.mpr
      refine ⟨h.heeds, List.pairwise_singleton _ _, ?_⟩
      intro e he e' he'
      rw [List.mem_singleton.mp he']
      cases e with
      | cooled target =>
        obtain ⟨c₁, hc₁, hle⟩ := h.blocked target he
        cases hc.symm.trans hc₁
        exact hle.trans hblocked
      | _ => trivial
    case used =>
      rw [hhistory, confirmedTokens_append_confirmed]
      intro token' ht
      rcases List.mem_append.mp ht with ht | ht
      · obtain ⟨t, hused⟩ := h.used token' ht
        exact ⟨t, List.mem_append.mpr (Or.inl hused)⟩
      · rw [List.mem_singleton.mp ht]
        exact ⟨g, List.mem_append.mpr (Or.inl hmem)⟩
    case once =>
      rw [hhistory, confirmedTokens_append_confirmed]
      exact h.once.append (List.nodup_singleton _) (by simpa using hfresh)
    case inTime =>
      rw [hhistory]
      intro token' t ht
      rcases List.mem_append.mp ht with ht | ht
      · obtain ⟨g', hg', hmem', hexpires'⟩ := h.inTime token' t ht
        exact ⟨g', hg', List.mem_append.mpr (Or.inl hmem'), hexpires'⟩
      · cases List.mem_singleton.mp ht
        exact ⟨g, hg, List.mem_append.mpr (Or.inl hmem), hlifetime ▸ hexpires⟩

end Steps

/-- While the keys are kept, the invariant holds. -/
theorem kept_invariant (rate : ℕ) : (system rate Keeps).Invariant (Kept rate) where
  initial s hs := by
    obtain ⟨hkeys, hhistory⟩ := hs
    constructor
    case pending =>
      intro c hc
      rw [hkeys] at hc
      cases hc
    all_goals simp [hhistory, confirmedTimes, confirmedTokens]
  step s action s' h hstep := by
    obtain ⟨henabled, hkeeps, rfl⟩ := hstep
    cases action with
    | advance later => exact h.advance henabled
    | reserve token => exact h.reserve henabled
    | confirm token => exact h.confirm
    | cool cooldown => exact h.cool
    | lose => exact hkeeps.elim

end EquityEval.Limiter
