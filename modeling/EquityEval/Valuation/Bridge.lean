import EquityEval.Valuation.Coverage

/-!
# From the market price to the target and back

`bridge` checks the dated evidence of a manifest and turns price, shares and claims into the
value that the operations must have. `calculateScenario` solves a scenario for that value and
reprices it at the representative. Dates are day numbers and instants are microseconds, both
counted from the same midnight in UTC.
-/

namespace EquityEval.Valuation

open DecimalArithmetic

/-- The calendar day of an instant. -/
def dayOf (instant : ℤ) : ℤ := instant / 86400000000

/-- The components of the bridge. -/
inductive ClaimKind where
  | cash
  | nonoperatingAssets
  | debt
  | leases
  | preferred
  | nci
  | other
deriving DecidableEq, Repr

namespace ClaimKind

/-- The component as the reasons spell it. -/
def name : ClaimKind → String
  | cash => "cash"
  | nonoperatingAssets => "nonoperating_assets"
  | debt => "debt"
  | leases => "leases"
  | preferred => "preferred"
  | nci => "nci"
  | other => "other"

/-- Every component of the bridge. -/
def all : List ClaimKind := [cash, nonoperatingAssets, debt, leases, preferred, nci, other]

/-- The components that add to the value of the common shares. -/
def adds (kind : ClaimKind) : Bool := kind == cash || kind == nonoperatingAssets

end ClaimKind

/-- How far a covered component is part of a claim. -/
inductive CoverageDisposition where
  | included
  | excluded
  | unknown
deriving DecidableEq, Repr

/-- A row of a claim's coverage. -/
structure ClaimCoverage where
  component : ClaimKind
  disposition : CoverageDisposition
  evidenceHash : Option String
deriving DecidableEq, Repr

/-- What is known about the amount of a claim. -/
inductive ClaimState where
  | eligibleAmount
  | evidencedAbsence
  | unavailable
deriving DecidableEq, Repr

/-- How the moment of publication is known. -/
inductive KnownBasis where
  | ownerReviewedInstant
  | dateOnly
  | unproven
deriving DecidableEq, Repr

/-- What the amount of a claim stands for. -/
inductive ClaimBasis where
  | economicValue
  | absence
  | unreviewed
deriving DecidableEq, Repr

/-- The slots of a claim. -/
structure ClaimFields where
  kind : ClaimKind
  coverage : Option (List ClaimCoverage)
  economicClaimIds : List String
  state : ClaimState
  amount : Option Decimal
  currency : String
  asOf : ℤ
  knownAt : ℤ
  capturedAt : ℤ
  knownBasis : KnownBasis
  basis : ClaimBasis
  reasons : List String
deriving DecidableEq, Repr

/-- The field check and the amount check of a claim. -/
def ClaimFields.amountState (c : ClaimFields) : Except String Unit := do
  boundedDecimals c.amount.toList
  refuseIf (c.state = .eligibleAmount ∧
      (c.amount = none ∨ (∃ a ∈ c.amount, a < .ofInt 0) ∨ c.basis ≠ .economicValue ∨ c.economicClaimIds = []))
    "Eligible economic claim requires amount, basis and scope IDs"
  refuseIf (c.state = .evidencedAbsence ∧
      (¬ (∃ a ∈ c.amount, a.NumEq (.ofInt 0)) ∨ c.basis ≠ .absence ∨ c.economicClaimIds = []))
    "Absence requires explicit zero and scoped evidence"
  refuseIf (c.state = .unavailable ∧ (c.amount ≠ none ∨ c.reasons = []))
    "Unavailable claim requires null and reasons"
  refuseIf (¬ c.economicClaimIds.Nodup) "Duplicate economic claims"

/-- A claim that passed its checks. -/
structure Claim extends ClaimFields where
  accepted : toClaimFields.amountState = .ok ()
deriving DecidableEq, Repr

/-- The unit of the published share counts. -/
inductive ShareUnit where
  | shares
  | thousandShares
  | millionShares
deriving DecidableEq, Repr

/-- The number of shares in a unit. -/
def ShareUnit.multiplier : ShareUnit → Decimal
  | shares => .ofInt 1
  | thousandShares => .ofInt 1000
  | millionShares => .ofInt 1000000

/-- The evidence of the common share pool. -/
structure SharePool where
  sourceBasic : Option Decimal
  sourceDiluted : Option Decimal
  sourceUnit : Option ShareUnit
  sourceMultiplier : Option Decimal
  currentBasic : Option Decimal
  currentDiluted : Option Decimal
  currency : String
  asOf : ℤ
  knownAt : ℤ
  capturedAt : ℤ
  knownBasis : KnownBasis
  actionBasis : String
  completeHomogeneousPool : Bool
  noDilutiveClaims : Bool
  completeActionCoverage : Bool
  operatingLeaseBasisMatches : Bool
  unrestrictedNonoperatingCash : Bool
  noCrossholdingEarningsOverlap : Bool
deriving DecidableEq, Repr

/-- The retained quote. -/
structure PriceEvidence where
  quoteIdentifierId : String
  securityId : String
  batchId : Option String
  observationId : Option String
  referenceDate : ℤ
  sourceKnownAt : ℤ
  value : Option Decimal
  currency : Option String
  usable : Bool
  adjustmentBasis : Option String
  sessionBasis : Option String
  actionBasis : String
deriving DecidableEq, Repr

/-- The review policy of a valuation. -/
structure ValuationPolicy where
  effectiveAt : ℤ
  knownAt : ℤ
  reviewedOperatingFcff : Bool
  maxFinancialAgeDays : ℕ
  maxQuoteAgeDays : ℕ
  maxClaimAgeDays : ℕ
deriving DecidableEq, Repr

/-- The slots of a manifest that the bridge reads. -/
structure ManifestFields where
  valuationAt : ℤ
  issuerCurrency : String
  periodEnd : ℤ
  filedCutoff : Option ℤ
  securityId : String
  quoteIdentifierId : String
  policy : ValuationPolicy
  price : PriceEvidence
  shares : SharePool
  claims : List Claim
  bridgeCapturedBefore : ℤ
  sourceEligibilityReasons : List String
deriving DecidableEq, Repr

/-- The field checks and the identity check of a manifest. -/
def ManifestFields.identities (m : ManifestFields) : Except String Unit := do
  let s := m.shares
  boundedDecimals (m.price.value.toList ++ s.sourceBasic.toList ++ s.sourceDiluted.toList ++
    s.sourceMultiplier.toList ++ s.currentBasic.toList ++ s.currentDiluted.toList)
  refuseIf ((m.claims.map (·.kind)).toFinset ≠ ClaimKind.all.toFinset ∨ m.claims.length ≠ 7)
    "Complete seven-component bridge roster required"
  refuseIf (¬ (m.claims.flatMap (·.economicClaimIds)).Nodup)
    "Economic claim overlaps/double counting are forbidden"
  refuseIf (m.price.securityId ≠ m.securityId ∨ m.price.quoteIdentifierId ≠ m.quoteIdentifierId)
    "Price identity differs from exact source identity"

/-- A manifest that passed its checks. -/
structure ValuationManifest extends ManifestFields where
  accepted : toManifestFields.identities = .ok ()
deriving DecidableEq, Repr

/-- A reason when a condition holds. -/
def reasonIf (holds : Prop) [Decidable holds] (reason : String) : List String := if holds then [reason] else []

/-- A published instant that is not proven to precede the valuation day. -/
def unprovenBefore (basis : KnownBasis) (knownAt day : ℤ) : Prop :=
  basis = .unproven ∨ basis = .dateOnly ∧ day ≤ dayOf knownAt

instance (basis : KnownBasis) (knownAt day : ℤ) : Decidable (unprovenBefore basis knownAt day) := by
  unfold unprovenBefore
  infer_instance

/-- The age in days is negative or above the limit. -/
def outsideAge (day asOf : ℤ) (limit : ℕ) : Prop := ¬ (0 ≤ day - asOf ∧ day - asOf ≤ limit)

instance (day asOf : ℤ) (limit : ℕ) : Decidable (outsideAge day asOf limit) := by
  unfold outsideAge
  infer_instance

-- what the decisions of this module find of given texts, found once
local instance lawfulBEq_text : LawfulBEq (Option String) := inferInstance

namespace ManifestFields

/-- The valuation day. -/
def day (m : ManifestFields) : ℤ := dayOf m.valuationAt

/-- Why the quote is not eligible. -/
def priceReasons (m : ManifestFields) : List String :=
  let p := m.price
  reasonIf (p.usable = false ∨ p.value = none ∨ (∃ v ∈ p.value, v ≤ .ofInt 0) ∨ p.observationId = none ∨
      p.batchId = none ∨ p.currency ≠ some m.issuerCurrency ∨
      p.adjustmentBasis ∉ ["unadjusted", "split_only", "split_and_dividend", "unknown"].map some ∨
      p.sessionBasis.getD "" = "") "ineligible_quote" ++
    reasonIf (m.valuationAt < p.sourceKnownAt ∨ outsideAge m.day p.referenceDate m.policy.maxQuoteAgeDays)
      "quote_time_or_freshness"

/-- Why the share pool is not eligible, before its units are checked. -/
def poolReasons (m : ManifestFields) : List String :=
  let s := m.shares
  reasonIf (s.currentBasic = none ∨ (∃ v ∈ s.currentBasic, v ≤ .ofInt 0) ∨
      ¬ (∃ v ∈ s.currentBasic, ∃ w ∈ s.currentDiluted, v.NumEq w) ∨ s.currency ≠ m.issuerCurrency ∨
      ¬ (s.completeHomogeneousPool ∧ s.noDilutiveClaims ∧ s.completeActionCoverage ∧
        s.operatingLeaseBasisMatches ∧ s.unrestrictedNonoperatingCash ∧ s.noCrossholdingEarningsOverlap))
      "ineligible_common_pool_or_operating_basis" ++
    reasonIf (m.bridgeCapturedBefore < s.capturedAt ∨ unprovenBefore s.knownBasis s.knownAt m.day)
      "share_capture_or_publication_unproven" ++
    reasonIf (s.actionBasis ≠ m.price.actionBasis) "price_share_action_mismatch" ++
    reasonIf (m.valuationAt < s.knownAt ∨ outsideAge m.day s.asOf m.policy.maxClaimAgeDays)
      "share_time_or_freshness"

/-- Why the published share counts do not give the current ones. -/
def unitReasons (m : ManifestFields) : Except NumericError (List String) :=
  let s := m.shares
  match s.sourceUnit.map ShareUnit.multiplier, s.sourceMultiplier, s.sourceBasic, s.sourceDiluted with
  | some multiplier, some sourceMultiplier, some basic, some diluted =>
    if sourceMultiplier.NumEq multiplier then do
      let basic ← raising (context.mul basic multiplier)
      let diluted ← raising (context.mul diluted multiplier)
      pure (reasonIf (¬ (∃ v ∈ s.currentBasic, basic.NumEq v) ∨ ¬ (∃ v ∈ s.currentDiluted, diluted.NumEq v))
        "share_normalization_mismatch")
    else pure ["share_source_unit_unproven"]
  | _, _, _, _ => pure ["share_source_unit_unproven"]

/-- Why a claim is not eligible. -/
def claimReasons (m : ManifestFields) (claim : Claim) : List String :=
  let coverage := claim.coverage.getD []
  reasonIf (coverage.length ≠ 7 ∨
      (coverage.map (·.component)).toFinset ≠ (m.claims.map (·.kind)).toFinset ∨
      ∃ row ∈ coverage, row.evidenceHash = none ∨
        row.disposition ≠ if row.component = claim.kind ∧ claim.state = .eligibleAmount then .included else .excluded)
      ("claim_scope_unproven_or_overlapping:" ++ claim.kind.name) ++
    reasonIf (claim.state = .unavailable ∨ m.bridgeCapturedBefore < claim.capturedAt ∨
        unprovenBefore claim.knownBasis claim.knownAt m.day ∨ claim.currency ≠ m.issuerCurrency ∨
        m.valuationAt < claim.knownAt ∨ outsideAge m.day claim.asOf m.policy.maxClaimAgeDays)
      ("ineligible_claim:" ++ claim.kind.name)

/-- Every reason against the bridge, in the order of the checks. -/
def reasons (m : ManifestFields) : Except NumericError (List String) := do
  let units ← m.unitReasons
  pure (m.sourceEligibilityReasons ++
    reasonIf (m.policy.reviewedOperatingFcff = false) "unsupported_operating_model" ++
    reasonIf (m.valuationAt < m.policy.knownAt ∨ m.valuationAt < m.policy.effectiveAt)
      "policy_not_known_or_effective" ++
    reasonIf (outsideAge m.day m.periodEnd m.policy.maxFinancialAgeDays) "ineligible_financial_age" ++
    reasonIf (m.filedCutoff = none ∨ ∃ cutoff ∈ m.filedCutoff, m.day < cutoff) "financial_known_cutoff" ++
    m.priceReasons ++ m.poolReasons ++ units ++ m.claims.flatMap m.claimReasons)

/-- The signed amount of a claim as the bridge adds it. -/
def signedAmount (kind : ClaimKind) (amount : Decimal) : Except DecimalException Decimal :=
  if kind.adds then pure amount else context.sub ⟨false, 0, amount.exponent⟩ amount

/-- The rounded sum of the signed claims. -/
def adjustment (m : ManifestFields) : Except DecimalException Decimal :=
  m.claims.foldlM
    (fun total claim =>
      match claim.amount with
      | some amount => do context.add total (← signedAmount claim.kind amount)
      | none => pure total)
    (.ofInt 0)

/-- The exact signed amount of a claim. -/
def exactAmount (claim : Claim) : ℚ :=
  (if claim.kind.adds then 1 else -1) * (claim.amount.elim 0 Decimal.value)

/-- The exact sum of the signed claims. -/
def exactAdjustment (m : ManifestFields) : ℚ := (m.claims.map exactAmount).sum

end ManifestFields

/-- The outcome of the bridge; only an eligible one carries values. -/
inductive BridgeResult where
  | ineligible (reasons : List String)
  | eligible (marketCommonValue adjustment marketEvTarget shares : Decimal)
deriving DecidableEq, Repr

/-- The dated eligibility check and the value that the operations must have. -/
def bridge (inputs : ValuationManifest) : Except NumericError BridgeResult := do
  let reasons ← inputs.reasons
  if reasons ≠ [] then pure (.ineligible reasons)
  else
    match inputs.price.value, inputs.shares.currentBasic with
    | some price, some shares => do
      let adjustment ← raising inputs.adjustment
      let market ← raising (context.mul price shares)
      let target ← raising (context.sub market adjustment)
      pure (.eligible market adjustment target shares)
    | _, _ => pure (.ineligible reasons)

/-- No reason means that the condition does not hold. -/
@[simp] theorem reasonIf_eq_nil (holds : Prop) [Decidable holds] (reason : String) :
    reasonIf holds reason = [] ↔ ¬ holds := by
  unfold reasonIf
  split <;> simp_all

/-- The product of two bounded inputs has at most eighty digits. -/
theorem representable_mul_of_bounded {a b : Decimal} (ha : Bounded a) (hb : Bounded b) :
    context.Representable (a.value * b.value) := by
  have hdigits : ∀ {d : Decimal}, Bounded d → |d.signed| < 10 ^ 40 := fun {d} hd => by
    rw [d.abs_signed]
    exact_mod_cast d.coefficient_lt.trans_le (Nat.pow_le_pow_right (by norm_num) hd.1)
  refine ⟨a.signed * b.signed, a.exponent + b.exponent, ?_, ?_, ?_⟩
  · rw [abs_mul]
    calc |a.signed| * |b.signed| < 10 ^ 40 * 10 ^ 40 :=
          mul_lt_mul'' (hdigits ha) (hdigits hb) (abs_nonneg _) (abs_nonneg _)
      _ = 10 ^ context.prec := by norm_num [context]
  · have hlimit : context.etiny = -10078 := rfl
    have h1 := neg_le_of_abs_le ha.2.2
    have h2 := neg_le_of_abs_le hb.2.2
    omega
  · unfold Decimal.value
    rw [zpow_add₀ (by norm_num)]
    push_cast
    ring

/-- The amount of a claim is a bounded input. -/
theorem Claim.bounded (c : Claim) {amount : Decimal} (h : c.amount = some amount) : Bounded amount := by
  have haccepted := c.accepted
  simp only [ClaimFields.amountState, boundedDecimals, refuseIf_bind_eq_ok, not_not] at haccepted
  exact haccepted.1 amount (by simp [h])

namespace ValuationManifest

variable {m : ValuationManifest}

/-- The price of a manifest is a bounded input. -/
theorem bounded_price {price : Decimal} (h : m.price.value = some price) : Bounded price := by
  have haccepted := m.accepted
  simp only [ManifestFields.identities, boundedDecimals, refuseIf_bind_eq_ok, not_not] at haccepted
  exact haccepted.1 price (by simp [h])

/-- The share count of a manifest is a bounded input. -/
theorem bounded_shares {shares : Decimal} (h : m.shares.currentBasic = some shares) : Bounded shares := by
  have haccepted := m.accepted
  simp only [ManifestFields.identities, boundedDecimals, refuseIf_bind_eq_ok, not_not] at haccepted
  exact haccepted.1 shares (by simp [h])

/-- A manifest without reasons has a positive price and a positive share count. -/
theorem positive_of_no_reasons (h : m.reasons = .ok []) :
    (∀ price, m.price.value = some price → .ofInt 0 < price) ∧
      ∀ shares, m.shares.currentBasic = some shares → .ofInt 0 < shares := by
  unfold ManifestFields.reasons at h
  obtain ⟨units, _, h⟩ := exists_of_bind_eq_ok h
  have hnil := Except.ok.inj h
  simp only [List.append_eq_nil_iff, ManifestFields.priceReasons, ManifestFields.poolReasons, reasonIf_eq_nil,
    not_or, not_exists, not_and] at hnil
  obtain ⟨⟨⟨⟨_, hprice⟩, hpool⟩, _⟩, _⟩ := hnil
  exact ⟨fun price hp => lt_of_not_decimal_le (hprice.1.2.2.1 price hp),
    fun shares hs => lt_of_not_decimal_le (hpool.1.1.1.2.1 shares hs)⟩

/-- What an eligible bridge has computed from its manifest. -/
structure Linked (m : ValuationManifest) (market adjustment target shares price : Decimal) : Prop where
  quoted : m.price.value = some price
  pooled : m.shares.currentBasic = some shares
  summed : m.adjustment = .ok adjustment
  market_exact : market.value = price.value * shares.value
  target_rounded : context.sub market adjustment = .ok target
  price_pos : 0 < price.value
  shares_pos : 0 < shares.value

/-- An eligible bridge multiplies price and shares exactly and subtracts the rounded claims. -/
theorem linked_of_bridge {market adjustment target shares : Decimal}
    (h : bridge m = .ok (.eligible market adjustment target shares)) :
    ∃ price, m.Linked market adjustment target shares price := by
  unfold bridge at h
  obtain ⟨reasons, hreasons, h⟩ := exists_of_bind_eq_ok h
  split at h
  · cases h
  rename_i hnil
  rw [not_not.mp hnil] at hreasons
  obtain ⟨hpricePos, hsharesPos⟩ := positive_of_no_reasons hreasons
  split at h
  · rename_i price pool hprice hshares
    obtain ⟨sum, hsum, h⟩ := exists_of_bind_eq_ok h
    obtain ⟨product, hproduct, h⟩ := exists_of_bind_eq_ok h
    obtain ⟨difference, hdifference, h⟩ := exists_of_bind_eq_ok h
    cases h
    have hexact := (Context.mul_rounds (by decide) (raising_eq_ok.mp hproduct)).exact
      (representable_mul_of_bounded (bounded_price hprice) (bounded_shares hshares))
    exact ⟨price,
      { quoted := hprice
        pooled := hshares
        summed := raising_eq_ok.mp hsum
        market_exact := hexact
        target_rounded := raising_eq_ok.mp hdifference
        price_pos := by simpa using Decimal.lt_iff_value.mp (hpricePos price hprice)
        shares_pos := by simpa using Decimal.lt_iff_value.mp (hsharesPos shares hshares) }⟩
  · cases h

/-- The signed amount of a claim is exact. -/
theorem signedAmount_exact {claim : Claim} {amount signed : Decimal} (hamount : claim.amount = some amount)
    (h : ManifestFields.signedAmount claim.kind amount = .ok signed) :
    signed.value = ManifestFields.exactAmount claim := by
  have hrepresentable : context.Representable (-amount.value) := by
    simpa using representable_of_bounded (claim.bounded hamount) (-1) (by norm_num)
  unfold ManifestFields.signedAmount at h
  unfold ManifestFields.exactAmount
  rw [hamount, Option.elim_some]
  split at h
  · rename_i hadds
    cases h
    rw [if_pos hadds, one_mul]
  · rename_i hadds
    have hrounds := Context.sub_rounds (by decide) h
    have hzero : (Decimal.mk false 0 amount.exponent).value = 0 := by simp [Decimal.value, Decimal.signed]
    rw [hzero, zero_sub] at hrounds
    rw [if_neg hadds, neg_one_mul]
    exact hrounds.exact hrepresentable

/-- The claims are summed exactly when every partial sum fits in eighty digits. -/
theorem adjustment_exact {adjustment : Decimal} (h : m.adjustment = .ok adjustment)
    (hfit : ∀ k, context.Representable ((m.claims.map ManifestFields.exactAmount).take k).sum) :
    adjustment.value = m.exactAdjustment := by
  have hfold : ∀ (claims : List Claim) (total : Decimal),
      (∀ k, context.Representable (total.value + ((claims.map ManifestFields.exactAmount).take k).sum)) →
      claims.foldlM (m := Except DecimalException)
        (fun total claim =>
          match claim.amount with
          | some amount => do context.add total (← ManifestFields.signedAmount claim.kind amount)
          | none => pure total) total = .ok adjustment →
      adjustment.value = total.value + (claims.map ManifestFields.exactAmount).sum := by
    intro claims
    induction claims with
    | nil =>
      intro total _ h
      cases h
      simp
    | cons claim rest ih =>
      intro total hfit h
      rw [List.foldlM_cons] at h
      obtain ⟨next, hnext, h⟩ := exists_of_bind_eq_ok h
      have hvalue : next.value = total.value + ManifestFields.exactAmount claim := by
        split at hnext
        · rename_i amount hamount
          obtain ⟨signed, hsigned, hadd⟩ := exists_of_bind_eq_ok hnext
          rw [← signedAmount_exact hamount hsigned]
          apply (Context.add_rounds (by decide) hadd).exact
          rw [signedAmount_exact hamount hsigned]
          simpa using hfit 1
        · rename_i hamount
          cases hnext
          simp [ManifestFields.exactAmount, hamount]
      have hrest := ih next (fun k => by
        rw [hvalue, add_assoc]
        simpa using hfit (k + 1)) h
      rw [hrest, hvalue, List.map_cons, List.sum_cons, add_assoc]
  have := hfold m.claims (.ofInt 0) (fun k => by simpa using hfit k) h
  simpa [ManifestFields.exactAdjustment] using this

end ValuationManifest

end EquityEval.Valuation
