import EquityEval.Arithmetic.Operations
import Mathlib.Data.Nat.Cast.Field

/-!
# Contexts that trap lost digits

A context may also raise when a result loses digits, or when it falls below the smallest exponent.
An operation that returns under such a trap returns its exact result. The special numbers are here
for the checks that refuse them.
-/

namespace DecimalArithmetic

/-- A number as a program meets it: finite, infinite or not a number. -/
inductive Number where
  | finite (d : Decimal)
  | infinite (negative : Bool)
  | nan (negative signaling : Bool) (payload : ℕ)
deriving DecidableEq, Repr

/-- The decimal of a finite number. -/
def Number.decimal? : Number → Option Decimal
  | finite d => some d
  | _ => none

/-- `value.is_finite()`. -/
def Number.isFinite (n : Number) : Bool := n.decimal?.isSome

@[simp] theorem Number.decimal?_finite (d : Decimal) : (finite d).decimal? = some d := rfl

/-- A number has a decimal exactly when it is finite. -/
@[simp] theorem Number.decimal?_eq_some {n : Number} {d : Decimal} : n.decimal? = some d ↔ n = .finite d := by
  cases n <;> simp [decimal?]

/-- The signals that a context raises besides those that every one does. -/
structure Traps where
  inexact : Bool := false
  subnormal : Bool := false
deriving DecidableEq, Repr

namespace Context

/-- The exact result has digits that the context cannot keep. -/
def Inexact (ctx : Context) (num den : ℕ) (exponent : ℤ) : Prop :=
  let e := ctx.roundingExponent num den exponent
  num * 10 ^ (exponent - e).toNat % (den * 10 ^ (e - exponent).toNat) ≠ 0

/-- The exact result lies below the smallest exponent. -/
def Subnormal (ctx : Context) (num den : ℕ) (exponent : ℤ) : Prop :=
  num ≠ 0 ∧ magnitude num den + exponent < ctx.Emin

instance (ctx : Context) (num den : ℕ) (exponent : ℤ) : Decidable (ctx.Inexact num den exponent) :=
  inferInstanceAs (Decidable (_ ≠ _))

instance (ctx : Context) (num den : ℕ) (exponent : ℤ) : Decidable (ctx.Subnormal num den exponent) :=
  inferInstanceAs (Decidable (_ ∧ _))

/-- Fit an exact result into a context, unless a signal is raised. -/
def settle (ctx : Context) (traps : Traps) (negative : Bool) (num den : ℕ) (exponent : ℤ) : Option Decimal :=
  if (traps.inexact = true ∧ ctx.Inexact num den exponent) ∨ (traps.subnormal = true ∧ ctx.Subnormal num den exponent) then
    none
  else
    (ctx.finish negative num den exponent).toOption

/-- The sum, unless a signal is raised. -/
def add? (ctx : Context) (traps : Traps) (a b : Decimal) : Option Decimal :=
  let e := min a.exponent b.exponent
  let sum := a.scaled e + b.scaled e
  ctx.settle traps (if sum = 0 then ctx.zeroSign a b else sum < 0) sum.natAbs 1 e

/-- The difference, unless a signal is raised. -/
def sub? (ctx : Context) (traps : Traps) (a b : Decimal) : Option Decimal := ctx.add? traps a b.copyNegate

/-- The product, unless a signal is raised. -/
def mul? (ctx : Context) (traps : Traps) (a b : Decimal) : Option Decimal :=
  ctx.settle traps (a.negative != b.negative) (a.coefficient * b.coefficient) 1 (a.exponent + b.exponent)

/-- The quotient, unless a signal is raised. -/
def div? (ctx : Context) (traps : Traps) (a b : Decimal) : Option Decimal :=
  if b.coefficient = 0 then none
  else ctx.settle traps (a.negative != b.negative) a.coefficient b.coefficient (a.exponent - b.exponent)

variable {ctx : Context} {traps : Traps} {a b r : Decimal} {num den : ℕ} {exponent : ℤ} {negative : Bool}

/-- A result that was settled fits its context, and is exact where lost digits are trapped. -/
theorem settle_eq_some (h : ctx.settle traps negative num den exponent = some r) :
    ctx.finish negative num den exponent = .ok r ∧ (traps.inexact = true → ¬ ctx.Inexact num den exponent) := by
  unfold settle at h
  split at h
  · cases h
  next hsignal =>
    refine ⟨?_, fun htrap hinexact => hsignal (Or.inl ⟨htrap, hinexact⟩)⟩
    cases hfinish : ctx.finish negative num den exponent <;> rw [hfinish] at h <;> cases h
    rfl

/-- A result that loses no digits has the exact value. -/
theorem value_finish_of_exact (hprec : 0 < ctx.prec) (hden : 0 < den) (hexact : ¬ ctx.Inexact num den exponent)
    (h : ctx.finish negative num den exponent = .ok r) :
    r.value = signFactor negative * (num / den * (10 : ℚ) ^ exponent) := by
  by_cases hnum : num = 0
  · subst hnum
    have hrounds := finish_rounds negative hprec hden h
    rw [hrounds.exact]
    simpa using ctx.representable_zero
  rw [value_finish negative hprec hnum h]
  have hzero := not_not.mp hexact
  have hden' : (den * 10 ^ (ctx.roundingExponent num den exponent - exponent).toNat : ℕ) ≠ 0 :=
    (aligned_pos hden _).ne'
  rw [roundedCoefficient, Rounding.quotient_exact _ _ hzero,
    Nat.cast_div (Nat.dvd_of_mod_eq_zero hzero) (by exact_mod_cast hden'), aligned_fraction]

/-- A sum that loses no digits is the sum of the values. -/
theorem add?_exact (hprec : 0 < ctx.prec) (htrap : traps.inexact = true) (h : ctx.add? traps a b = some r) :
    r.value = a.value + b.value := by
  obtain ⟨hfinish, hexact⟩ := settle_eq_some h
  rw [value_finish_of_exact hprec one_pos (hexact htrap) hfinish, Nat.cast_one, div_one, ← mul_assoc,
    signFactor_mul_natAbs (fun hne => by rw [if_neg hne])]
  push_cast
  rw [add_mul, a.scaled_mul_zpow (min_le_left _ _), b.scaled_mul_zpow (min_le_right _ _)]

/-- A running sum that loses no digits is the sum of the values. -/
theorem foldlM_add?_exact (hprec : 0 < ctx.prec) (htrap : traps.inexact = true) {terms : List Decimal}
    (h : terms.foldlM (ctx.add? traps) a = some r) : r.value = a.value + (terms.map Decimal.value).sum := by
  induction terms generalizing a with
  | nil =>
    cases h
    simp
  | cons term terms ih =>
    rw [List.foldlM_cons, Option.bind_eq_bind, Option.bind_eq_some_iff] at h
    obtain ⟨partialSum, hadd, hrest⟩ := h
    rw [ih hrest, add?_exact hprec htrap hadd, List.map_cons, List.sum_cons, add_assoc]

/-- A difference that loses no digits is the difference of the values. -/
theorem sub?_exact (hprec : 0 < ctx.prec) (htrap : traps.inexact = true) (h : ctx.sub? traps a b = some r) :
    r.value = a.value - b.value := by
  rw [add?_exact hprec htrap h, Decimal.value_copyNegate, sub_eq_add_neg]

/-- A quotient rounds the quotient of the values. -/
theorem div?_rounds (hprec : 0 < ctx.prec) (h : ctx.div? traps a b = some r) : ctx.Rounds (a.value / b.value) r := by
  unfold div? at h
  split at h
  · cases h
  next hb =>
    refine div_rounds hprec ?_
    rw [div, if_neg hb]
    exact (settle_eq_some h).1

end Context

end DecimalArithmetic
