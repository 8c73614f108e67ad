import EquityEval.Limiter.Spacing
import Mathlib.Data.Nat.Cast.Order.Field
import Mathlib.Tactic.IntervalCases
import Mathlib.Tactic.NormNum

/-!
# Windows of dispatches

A reading of the clock differs from the time that it stands for by less than a quarter of a
microsecond until 2106. So the spacing of confirmations, counted in whole microseconds, is the
interval of the rate, and from 2004 to 2038 no second holds more confirmations than the rate.
-/

namespace EquityEval.Limiter

open FloatArithmetic TransitionSystem

/-! ### Rounding of readings -/

/-- The first microsecond that the clock does not reach before 2106. -/
def horizon : ℕ := 2 ^ 32 * 1000000

/-- A number below two is rounded by a negligible amount. -/
theorem binary64_small {d : ℚ} (hd : 0 ≤ d) (hlt : d < 2) : |binary64 d - d| ≤ 2 ^ (-53 : ℤ) := by
  have h := binary64_error_le (n := 0) hd (by simpa using hlt)
  simpa using h

/-- The fraction of a second of a reading. -/
theorem fraction_bounds (t : ℕ) : (0 : ℚ) ≤ ((t % 1000000 : ℕ) : ℚ) / 1000000 ∧
    ((t % 1000000 : ℕ) : ℚ) / 1000000 ≤ 999999 / 1000000 := by
  have hmod : t % 1000000 ≤ 999999 := by omega
  have hcast : ((t % 1000000 : ℕ) : ℚ) ≤ 999999 := by exact_mod_cast hmod
  exact ⟨by positivity, by linarith⟩

/-- The seconds and the fraction of a reading. -/
theorem clock_split (t : ℕ) : (t : ℚ) / 1000000 = ((t / 1000000 : ℕ) : ℚ) + ((t % 1000000 : ℕ) : ℚ) / 1000000 := by
  have hsplit : 1000000 * (t / 1000000) + t % 1000000 = t := Nat.div_add_mod t 1000000
  have hcast : (1000000 : ℚ) * (t / 1000000 : ℕ) + (t % 1000000 : ℕ) = t := by exact_mod_cast hsplit
  linarith

/-- Until 2106 a reading differs from its time by less than a quarter of a microsecond. -/
theorem reading_error {t : ℕ} (ht : t < horizon) : |reading t - (t : ℚ) / 1000000| ≤ 2 ^ (-22 : ℤ) + 2 ^ (-53 : ℤ) := by
  obtain ⟨hlow, hhigh⟩ := fraction_bounds t
  have hsmall := abs_le.mp (binary64_small hlow (by linarith))
  have hseconds : t / 1000000 ≤ 4294967295 := by
    unfold horizon at ht
    omega
  have hcast : ((t / 1000000 : ℕ) : ℚ) ≤ 4294967295 := by exact_mod_cast hseconds
  have hpositive : (0 : ℚ) ≤ binary64 (((t % 1000000 : ℕ) : ℚ) / 1000000) := by
    rw [← binary64_zero]
    exact binary64_mono le_rfl hlow
  have hsum := binary64_error_le (q := (t / 1000000 : ℕ) + binary64 (((t % 1000000 : ℕ) : ℚ) / 1000000)) (n := 31)
    (by positivity) (by norm_num at hsmall ⊢; linarith)
  have hsum := abs_le.mp hsum
  rw [clock_split]
  unfold reading
  norm_num at hsum hsmall ⊢
  rw [abs_le]
  constructor <;> linarith

/-- A sum of a reading and a small number differs from the exact one by less than half a microsecond. -/
theorem sum_error {t : ℕ} {d : ℚ} (ht : t < horizon) (hd : 0 ≤ d) (hlt : d < 2) :
    |binary64 (reading t + binary64 d) - ((t : ℚ) / 1000000 + d)| ≤ 2 ^ (-21 : ℤ) + 2 ^ (-22 : ℤ) + 2 ^ (-52 : ℤ) := by
  have hreading := abs_le.mp (reading_error ht)
  have hsmall := abs_le.mp (binary64_small hd hlt)
  have hpositive : (0 : ℚ) ≤ binary64 d := by
    rw [← binary64_zero]
    exact binary64_mono le_rfl hd
  have hbound : (t : ℚ) / 1000000 < 2 ^ 32 := by
    have hcast : (t : ℚ) < (2 ^ 32 * 1000000 : ℕ) := by exact_mod_cast ht
    push_cast at hcast
    linarith
  have hsum := binary64_error_le (q := reading t + binary64 d) (n := 32) (add_nonneg (reading_nonneg t) hpositive)
    (by norm_num at hreading hsmall hbound ⊢; linarith)
  have hsum := abs_le.mp hsum
  norm_num at hsum hsmall hreading ⊢
  rw [abs_le]
  constructor <;> linarith

/-- A reading that reaches a sum is less than a microsecond early. -/
theorem lt_of_sum_le {a b : ℕ} {d : ℚ} (ha : a < horizon) (hb : b < horizon) (hd : 0 ≤ d) (hlt : d < 2)
    (h : binary64 (reading a + binary64 d) ≤ reading b) : (a : ℚ) + 1000000 * d < b + 1 := by
  have hsum := abs_le.mp (sum_error ha hd hlt)
  have hreading := abs_le.mp (reading_error hb)
  norm_num at hsum hreading
  linarith

/-- A reading that a sum reaches is less than a microsecond late. -/
theorem lt_of_le_sum {a b : ℕ} {d : ℚ} (ha : a < horizon) (hb : b < horizon) (hd : 0 ≤ d) (hlt : d < 2)
    (h : reading b ≤ binary64 (reading a + binary64 d)) : (b : ℚ) < a + 1000000 * d + 1 := by
  have hsum := abs_le.mp (sum_error ha hd hlt)
  have hreading := abs_le.mp (reading_error hb)
  norm_num at hsum hreading
  linarith

/-- Until 2106 readings that are an interval apart are so in whole microseconds. -/
theorem Apart.microseconds {rate : ℕ} (hrate : 1 ≤ rate) {a b : ℕ} (hab : a ≤ b) (hb : b < horizon)
    (h : Apart rate a b) : a + 1000000 / rate ≤ b := by
  have hone : (1 : ℚ) ≤ rate := by exact_mod_cast hrate
  have hunit : (1 : ℚ) / rate ≤ 1 := by rw [div_le_one (by linarith)]; exact hone
  have hlt := lt_of_sum_le (hab.trans_lt hb) hb (by positivity) (by linarith) h
  have hfloor : ((1000000 / rate : ℕ) : ℚ) ≤ 1000000 * (1 / rate) := by
    rw [mul_one_div]
    exact Nat.cast_div_le
  have hcast : ((a + 1000000 / rate : ℕ) : ℚ) < (b + 1 : ℕ) := by
    push_cast
    linarith
  have hnat : a + 1000000 / rate < b + 1 := by exact_mod_cast hcast
  omega

/-! ### Windows -/

/-- The first microsecond from which readings are multiples of a quarter of a microsecond. -/
def gridStart : ℕ := 2 ^ 30 * 1000000

/-- A microsecond before they stop being so. -/
def gridEnd : ℕ := (2 ^ 31 - 1) * 1000000

/-- The interval of a rate in units of a reading, to the nearest. -/
def gridStep (rate : ℕ) : ℕ := (2 ^ 23 + rate) / (2 * rate)

/-- The unit of a number between two powers of two. -/
theorem ulp_grid {q : ℚ} (hlow : 2 ^ 30 ≤ q) (hhigh : q < 2 ^ 31) : ulp q = 2 ^ (-22 : ℤ) := by
  have hpos : 0 < q := lt_of_lt_of_le (by norm_num) hlow
  have hlog : Int.log 2 q = 30 := by
    apply le_antisymm
    · have hlt : Int.log 2 q < 31 := by
        rw [← Int.lt_zpow_iff_log_lt one_lt_two hpos]
        exact_mod_cast hhigh
      omega
    · rw [← Int.zpow_le_iff_le_log one_lt_two hpos]
      exact_mod_cast hlow
  rw [ulp, abs_of_pos hpos, hlog]
  norm_num

/-- From 2004 to 2038 a reading is a number of units, close to its time. -/
theorem reading_grid {t : ℕ} (hlow : gridStart ≤ t) (hhigh : t < gridEnd) :
    (∃ n : ℤ, reading t = n * 2 ^ (-22 : ℤ)) ∧ |reading t - (t : ℚ) / 1000000| ≤ 2 ^ (-23 : ℤ) + 2 ^ (-53 : ℤ) := by
  obtain ⟨hzero, hone⟩ := fraction_bounds t
  have hsmall := abs_le.mp (binary64_small hzero (by linarith))
  have hseconds : 2 ^ 30 ≤ t / 1000000 ∧ t / 1000000 ≤ 2147483646 := by
    unfold gridStart at hlow
    unfold gridEnd at hhigh
    omega
  have hleast : ((2 : ℚ) ^ 30) ≤ (t / 1000000 : ℕ) := by exact_mod_cast hseconds.1
  have hmost : ((t / 1000000 : ℕ) : ℚ) ≤ 2147483646 := by exact_mod_cast hseconds.2
  have hpositive : (0 : ℚ) ≤ binary64 (((t % 1000000 : ℕ) : ℚ) / 1000000) := by
    rw [← binary64_zero]
    exact binary64_mono le_rfl hzero
  have hulp : ulp ((t / 1000000 : ℕ) + binary64 (((t % 1000000 : ℕ) : ℚ) / 1000000)) = 2 ^ (-22 : ℤ) := by
    apply ulp_grid
    · linarith
    · norm_num at hsmall ⊢
      linarith
  have hsum := binary64_error ((t / 1000000 : ℕ) + binary64 (((t % 1000000 : ℕ) : ℚ) / 1000000))
  constructor
  · exact ⟨_, by rw [reading, binary64, hulp]⟩
  · rw [hulp] at hsum
    have hsum := abs_le.mp hsum
    rw [clock_split]
    unfold reading
    norm_num at hsum hsmall ⊢
    rw [abs_le]
    constructor <;> linarith

/-- Two multiples of a unit that are nearly a number of units apart are so. -/
theorem units_apart {m n k : ℤ} {x : ℚ} (hx : (k : ℚ) - 1 < x) (h : (m : ℚ) + x ≤ n) : m + k ≤ n := by
  have hcast : ((m + k - 1 : ℤ) : ℚ) < n := by
    push_cast
    linarith
  have hint : m + k - 1 < n := by exact_mod_cast hcast
  omega

/-- From 2004 to 2038 a reading that reaches a sum does so up to half a unit. -/
theorem units_of_sum_le {a b : ℕ} {d : ℚ} (hd : 0 ≤ d) (hone : d ≤ 1) (hab : a ≤ b) (ha : gridStart ≤ a)
    (hb : b < gridEnd) (h : binary64 (reading a + binary64 d) ≤ reading b) :
    ∃ m n : ℤ, reading a = m * 2 ^ (-22 : ℤ) ∧ reading b = n * 2 ^ (-22 : ℤ) ∧
      (m : ℚ) + (4194304 * d - 1 / 2 - 1 / 1000) ≤ n := by
  obtain ⟨⟨m, hm⟩, herror⟩ := reading_grid ha (hab.trans_lt hb)
  obtain ⟨⟨n, hn⟩, -⟩ := reading_grid (ha.trans hab) hb
  refine ⟨m, n, hm, hn, ?_⟩
  have herror := abs_le.mp herror
  have hhigh : ((a + 1 : ℕ) : ℚ) ≤ (2147483647000000 : ℕ) := by exact_mod_cast (hab.trans_lt hb)
  have hsmall := abs_le.mp (binary64_small hd (by linarith))
  have hnonneg : 0 ≤ binary64 d := by
    rw [← binary64_zero]
    exact binary64_mono le_rfl hd
  have hunit : binary64 d ≤ 1 := by
    have hexact : binary64 1 = 1 := by decide +kernel
    rw [← hexact]
    exact binary64_mono hd hone
  have hstart : (2 : ℚ) ^ 30 ≤ reading a := by
    have hexact : reading gridStart = 2 ^ 30 := by decide +kernel
    rw [← hexact]
    exact reading_mono ha
  have hulp : ulp (reading a + binary64 d) = 2 ^ (-22 : ℤ) := by
    apply ulp_grid
    · linarith
    · push_cast at hhigh
      norm_num at herror ⊢
      linarith
  have hsum := abs_le.mp (binary64_error (reading a + binary64 d))
  rw [hulp] at hsum
  norm_num at hsum hsmall hm hn
  linarith

/-- From 2004 to 2038 readings that are an interval apart are a number of units apart. -/
theorem Apart.units {rate : ℕ} (hrate : 1 ≤ rate) (hmax : rate ≤ 10) {a b : ℕ} (hab : a ≤ b) (ha : gridStart ≤ a)
    (hb : b < gridEnd) (h : Apart rate a b) : reading a + gridStep rate * 2 ^ (-22 : ℤ) ≤ reading b := by
  have hone : (1 : ℚ) ≤ rate := by exact_mod_cast hrate
  have hunit : (1 : ℚ) / rate ≤ 1 := by rw [div_le_one (by linarith)]; exact hone
  obtain ⟨m, n, hm, hn, hgap⟩ := units_of_sum_le (d := 1 / rate) (by positivity) hunit hab ha hb h
  have hstep : m + (gridStep rate : ℤ) ≤ n := by
    apply units_apart _ hgap
    interval_cases rate <;> norm_num [gridStep]
  have hcast : (m : ℚ) + gridStep rate ≤ n := by exact_mod_cast hstep
  rw [hm, hn, ← add_mul]
  exact mul_le_mul_of_nonneg_right hcast (by positivity)

/-- Values that rise by a step from each element of a list to every later one rise by as many steps
as there are elements after the first. -/
theorem rise_of_pairwise {f : ℕ → ℚ} {k : ℚ} {L : List ℕ} (h : L.Pairwise fun a b => f a + k ≤ f b) {a b : ℕ}
    (ha : a ∈ L.head?) (hb : b ∈ L.getLast?) : f a + (L.length - 1) * k ≤ f b := by
  induction L generalizing a with
  | nil => cases ha
  | cons x rest ih =>
    cases ha
    cases rest with
    | nil =>
      cases hb
      simp
    | cons y rest =>
      have hnext := ih h.of_cons (a := y) rfl (by simpa using hb)
      have hstep := List.rel_of_pairwise_cons h (List.mem_cons_self (a := y))
      have hlength : (((x :: y :: rest).length : ℚ) - 1) * k = (((y :: rest).length : ℚ) - 1) * k + k := by
        simp only [List.length_cons]
        push_cast
        ring
      linarith

/-- Confirmed readings that lie in one second from 2004 to 2038 are no more than the rate. -/
theorem window_length {rate : ℕ} (hrate : 1 ≤ rate) (hmax : rate ≤ 10) {L : List ℕ} {x : ℕ} (hstart : gridStart ≤ x)
    (hend : x + 1000000 ≤ gridEnd) (hwindow : ∀ t ∈ L, x ≤ t ∧ t < x + 1000000)
    (h : L.Pairwise fun a b => reading a + gridStep rate * 2 ^ (-22 : ℤ) ≤ reading b)
    (hmicro : L.Pairwise fun a b => a + 1000000 / rate ≤ b) : L.length ≤ rate := by
  by_contra hmany
  rw [not_le] at hmany
  have hne : L ≠ [] := List.ne_nil_of_length_pos (Nat.zero_lt_of_lt hmany)
  obtain ⟨a, ha⟩ : ∃ a, L.head? = some a := ⟨_, List.head?_eq_some_head hne⟩
  obtain ⟨b, hb⟩ : ∃ b, L.getLast? = some b := ⟨_, List.getLast?_eq_some_getLast hne⟩
  have hwa := hwindow a (List.mem_of_head? ha)
  have hwb := hwindow b (List.mem_of_getLast? hb)
  have hlength : (rate : ℚ) ≤ L.length - 1 := by
    have hcast : ((rate + 1 : ℕ) : ℚ) ≤ L.length := by exact_mod_cast hmany
    push_cast at hcast
    linarith
  by_cases hten : rate = 10
  · -- a tenth of a second is a whole number of microseconds
    subst hten
    have hcast : L.Pairwise fun a b : ℕ => (a : ℚ) + 100000 ≤ (b : ℚ) :=
      hmicro.imp fun h => by exact_mod_cast h
    have hrise := rise_of_pairwise (f := fun t => (t : ℚ)) hcast ha hb
    have hspan : ((a + 1000000 : ℕ) : ℚ) ≤ b := by
      push_cast at hlength ⊢
      linarith
    have hnat : a + 1000000 ≤ b := by exact_mod_cast hspan
    omega
  · have hrise := rise_of_pairwise h ha hb
    have hsteps : (rate : ℚ) * (gridStep rate * 2 ^ (-22 : ℤ)) ≤ (L.length - 1) * (gridStep rate * 2 ^ (-22 : ℤ)) :=
      mul_le_mul_of_nonneg_right hlength (by positivity)
    have hsecond : 1 - 2 * 2 ^ (-22 : ℤ) ≤ (rate : ℚ) * (gridStep rate * 2 ^ (-22 : ℤ)) := by
      interval_cases rate <;> first | exact absurd rfl hten | norm_num [gridStep]
    have hea := abs_le.mp (reading_grid (hstart.trans hwa.1) (by omega)).2
    have heb := abs_le.mp (reading_grid (hstart.trans hwb.1) (by omega)).2
    have hshort : ((b + 1 : ℕ) : ℚ) ≤ (a + 1000000 : ℕ) := by exact_mod_cast (by omega : b + 1 ≤ a + 1000000)
    have htotal : reading a + (1 - 2 * 2 ^ (-22 : ℤ)) ≤ reading b := by linarith
    push_cast at hshort
    norm_num at hea heb htotal
    linarith

/-! ### The whole run -/

/-- The readings are in order, and until 2106 an interval apart in whole microseconds; from 2004 to
2038 they are as many units apart. -/
def Spaced (rate a b : ℕ) : Prop :=
  a ≤ b ∧ (b < horizon → a + 1000000 / rate ≤ b) ∧
    (gridStart ≤ a → b < gridEnd → reading a + gridStep rate * 2 ^ (-22 : ℤ) ≤ reading b)

instance (rate : ℕ) : Trans (Spaced rate) (Spaced rate) (Spaced rate) where
  trans := by
    intro a b c h h'
    obtain ⟨hab, hmicro, hunits⟩ := h
    obtain ⟨hbc, hmicro', hunits'⟩ := h'
    refine ⟨hab.trans hbc, ?_, ?_⟩
    · intro hc
      have := hmicro (hbc.trans_lt hc)
      have := hmicro' hc
      omega
    · intro ha hc
      have hstep := hunits ha (hbc.trans_lt hc)
      have hstep' := hunits' (ha.trans hab) hc
      have hpositive : (0 : ℚ) ≤ gridStep rate * 2 ^ (-22 : ℤ) := by positivity
      linarith

/-- Readings that are an interval apart are spaced. -/
theorem Apart.spaced {rate : ℕ} (hrate : 1 ≤ rate) (hmax : rate ≤ 10) {a b : ℕ} (hab : a ≤ b) (h : Apart rate a b) :
    Spaced rate a b := ⟨hab, h.microseconds hrate hab, fun ha hb => h.units hrate hmax hab ha hb⟩

/-- The hash blocks dispatches no shorter than before. -/
def BlockedLe (s s' : State) : Prop := ∀ c ∈ s.keys.coordinator, ∃ c' ∈ s'.keys.coordinator, c.blocked ≤ c'.blocked

instance : IsPreorder State BlockedLe where
  refl _ c hc := ⟨c, hc, le_rfl⟩
  trans s s' s'' h h' := by
    intro c hc
    obtain ⟨c', hc', hle⟩ := h c hc
    obtain ⟨c'', hc'', hle'⟩ := h' c' hc'
    exact ⟨c'', hc'', hle.trans hle'⟩

/-- No step blocks dispatches shorter while the keys are kept. -/
theorem blockedLe_step {rate : ℕ} {s s' : State} {action : Action} (h : (system rate Keeps).step s action s') :
    BlockedLe s s' := by
  obtain ⟨-, hkeeps, rfl⟩ := h
  intro c hc
  cases action with
  | advance later => exact ⟨c, hc, le_rfl⟩
  | reserve token =>
    rcases s.reserve_cases rate token with hrefused | ⟨-, -, hgranted⟩
    · change ∃ c' ∈ (s.reserve rate token).keys.coordinator, c.blocked ≤ c'.blocked
      rw [hrefused]
      exact ⟨_, rfl, by rw [opened_of_mem hc]⟩
    · change ∃ c' ∈ (s.reserve rate token).keys.coordinator, c.blocked ≤ c'.blocked
      rw [hgranted]
      exact ⟨_, rfl, by rw [opened_of_mem hc]⟩
  | confirm token =>
    rcases s.confirm_cases token with ⟨-, -, hsame | ⟨c', hc', hdeleted⟩⟩ | ⟨c', p, hc', -, -, -, -, -, hnew, -⟩
    · exact ⟨c, hsame.trans hc, le_rfl⟩
    · cases hc'.symm.trans hc
      exact ⟨_, hdeleted, le_rfl⟩
    · cases hc'.symm.trans hc
      exact ⟨_, hnew, le_rfl⟩
  | cool cooldown =>
    refine ⟨_, rfl, ?_⟩
    rw [Option.mem_def.mp hc]
    exact le_max_right _ _
  | lose => exact hkeeps.elim

/-- While the keys are kept: successive confirmations are an interval apart as the scripts compute
it, until 2106 an interval in whole microseconds, and from 2004 to 2038 no second holds more of them
than the rate; none comes before a cooldown target set before it; each token is confirmed at most
once, and no later than its grant's lifetime; and the time until which dispatches are blocked never
decreases. -/
theorem dispatch_spacing {rate : ℕ} (hrate : 1 ≤ rate) (hmax : rate ≤ 10) {s : State}
    (hs : (system rate Keeps).Reachable s) :
    (confirmedTimes s.history).IsChain (fun a b => a ≤ b ∧ Apart rate a b) ∧
    (confirmedTimes s.history).Pairwise (fun a b => b < horizon → a + 1000000 / rate ≤ b) ∧
    (∀ x, gridStart ≤ x → x + 1000000 ≤ gridEnd →
      ((confirmedTimes s.history).filter fun t => decide (x ≤ t ∧ t < x + 1000000)).length ≤ rate) ∧
    s.history.Pairwise Heeds ∧
    (confirmedTokens s.history).Nodup ∧
    (∀ token t, .confirmed token t ∈ s.history → ∃ g ≤ t, .granted token g ∈ s.history ∧
      reading t ≤ binary64 (reading g + lifetime) ∧ (t < horizon → t ≤ g + 50000)) ∧
    ∀ s', (system rate Keeps).Run s s' → BlockedLe s s' := by
  have hkept := (kept_invariant rate).holds hs
  have hspaced : (confirmedTimes s.history).Pairwise (Spaced rate) :=
    List.isChain_iff_pairwise.mp (hkept.chain.imp fun _ _ h => h.2.spaced hrate hmax h.1)
  refine ⟨hkept.chain, hspaced.imp fun h => h.2.1, ?_, hkept.heeds, hkept.once, ?_, ?_⟩
  · intro x hstart hend
    have hwindow : ∀ t ∈ (confirmedTimes s.history).filter fun t => decide (x ≤ t ∧ t < x + 1000000),
        x ≤ t ∧ t < x + 1000000 := fun t ht => of_decide_eq_true (List.mem_filter.mp ht).2
    have hinside := (hspaced.sublist List.filter_sublist).imp_of_mem (S := fun a b =>
      reading a + gridStep rate * 2 ^ (-22 : ℤ) ≤ reading b ∧ a + 1000000 / rate ≤ b) fun ha hb h => by
        have hb' := hwindow _ hb
        refine ⟨h.2.2 (hstart.trans (hwindow _ ha).1) (by omega), h.2.1 ?_⟩
        unfold gridEnd at hend
        unfold horizon
        omega
    exact window_length hrate hmax hstart hend hwindow (hinside.imp fun h => h.1) (hinside.imp fun h => h.2)
  · intro token t ht
    obtain ⟨g, hg, hgranted, hexpires⟩ := hkept.inTime token t ht
    refine ⟨g, hg, hgranted, hexpires, ?_⟩
    intro hhorizon
    have hlate := lt_of_le_sum (a := g) (b := t) (d := 1 / 20) (hg.trans_lt hhorizon) hhorizon (by norm_num)
      (by norm_num) hexpires
    have hcast : ((t : ℕ) : ℚ) < (g + 50001 : ℕ) := by
      push_cast
      linarith
    have hnat : t < g + 50001 := by exact_mod_cast hcast
    exact Nat.lt_succ_iff.mp hnat
  · intro s' hrun
    exact hrun.follows (R := BlockedLe) fun _ _ _ h => blockedLe_step h

/-! ### A sample at seven requests in a second -/

/-- The first reservation creates the hash and waits; two tokens are then granted and confirmed, as
many whole microseconds apart as fit in a seventh of a second. -/
def closeActions : List Action :=
  [.reserve "first", .advance 1735689600000000, .reserve "second", .confirm "second", .advance 1735689600142857,
    .reserve "third", .confirm "third"]

/-- The keys are missing before the first action. -/
def sampleStart : State := ⟨1735689598000000, .empty, []⟩

/-- The state after those actions. -/
def sampleClose : State := closeActions.foldl (State.act 7) sampleStart

/-- The sample is reachable. -/
theorem sampleClose_reachable : (system 7 Keeps).Reachable sampleClose :=
  reachable_of_permitted (.initial ⟨rfl, rfl⟩) (by decide +kernel)

/-- Two confirmations can be less than a seventh of a second apart, on the clock and in the readings
of the scripts. -/
theorem confirmations_too_close :
    (system 7 Keeps).Reachable sampleClose ∧
      confirmedTimes sampleClose.history = [1735689600000000, 1735689600142857] ∧
      ((1735689600142857 : ℚ) - 1735689600000000) / 1000000 < 1 / 7 ∧
      reading 1735689600142857 - reading 1735689600000000 < 1 / 7 :=
  ⟨sampleClose_reachable, by decide +kernel, by norm_num, by decide +kernel⟩

/-- The confirmations of the sample are spaced by whole microseconds, and its seconds hold seven. -/
theorem dispatch_spacing_sample :
    (confirmedTimes sampleClose.history).Pairwise (fun a b => b < horizon → a + 142857 ≤ b) ∧
      ((confirmedTimes sampleClose.history).filter fun t =>
        decide (1735689600000000 ≤ t ∧ t < 1735689600000000 + 1000000)).length ≤ 7 := by
  obtain ⟨-, hpairwise, hwindow, -⟩ := dispatch_spacing (by norm_num) (by norm_num) sampleClose_reachable
  exact ⟨hpairwise, hwindow 1735689600000000 (by decide) (by decide)⟩

end EquityEval.Limiter
