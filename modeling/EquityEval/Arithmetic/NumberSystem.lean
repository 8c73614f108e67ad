import EquityEval.Arithmetic.Operations
import Mathlib.Order.Lattice

/-!
# One program text over several arithmetics

A numerical program is written once over a `NumberSystem`: rounded decimals, outward
rounded bounds and exact numbers are instances of it. A relation between two number systems
that every operation keeps is then kept by the whole program; `MonadRelation` carries it
through the raised errors of one side and the total operations of the other.
-/

namespace DecimalArithmetic

/-- A sequence that returns has returned from its first part. -/
theorem exists_of_bind_eq_ok {ε α β : Type} {x : Except ε α} {f : α → Except ε β} {b : β}
    (h : (x >>= f) = .ok b) : ∃ a, x = .ok a ∧ f a = .ok b := by
  cases x with
  | error e => cases h
  | ok a => exact ⟨a, rfl, h⟩

/-- Renaming errors does not change what is returned. -/
@[simp] theorem mapError_eq_ok {ε ε' α : Type} {x : Except ε α} {f : ε → ε'} {a : α} :
    x.mapError f = .ok a ↔ x = .ok a := by
  cases x <;> simp [Except.mapError]

/-- The optional result of a computation is what it returns. -/
theorem toOption_eq_some {ε α : Type} {x : Except ε α} {a : α} : x.toOption = some a ↔ x = .ok a := by
  cases x <;> simp [Except.toOption]

/-- The operations that a numerical program uses, raising in `m`. -/
structure NumberSystem (m : Type → Type) (α : Type) where
  const : Decimal → α
  add : α → α → m α
  sub : α → α → m α
  mul : α → α → m α
  div : α → α → m α
  positive : α → m α

/-- A relation between results of two monads that sequencing keeps. -/
structure MonadRelation (m n : Type → Type) [Monad m] [Monad n] where
  Rel : {α β : Type} → (α → β → Prop) → m α → n β → Prop
  pure : ∀ {α β : Type} {R : α → β → Prop} {a : α} {b : β}, R a b → Rel R (Pure.pure a) (Pure.pure b)
  bind : ∀ {α β γ δ : Type} {R : α → β → Prop} {S : γ → δ → Prop} {x : m α} {y : n β} {f : α → m γ}
    {g : β → n δ}, Rel R x y → (∀ a b, R a b → Rel S (f a) (g b)) → Rel S (x >>= f) (y >>= g)

namespace MonadRelation

/-- A result of the raising side is related to the total side; a raised error says nothing. -/
def exceptId (ε : Type) : MonadRelation (Except ε) Id where
  Rel R x y := ∀ a, x = .ok a → R a y.run
  pure := by
    rintro α β R a b hab _ ⟨⟩
    exact hab
  bind := by
    intro α β γ δ R S x y f g hx hf c hc
    cases x with
    | error e => cases hc
    | ok a => exact hf a y.run (hx a rfl) c hc

/-- Both sides are total. -/
def idId : MonadRelation Id Id where
  Rel R x y := R x.run y.run
  pure := id
  bind := fun hx hf => hf _ _ hx

variable {m n : Type → Type} [Monad m] [Monad n] (M : MonadRelation m n)

/-- A fold keeps a relation that each of its steps keeps. -/
theorem foldlM {σ τ ι : Type} {S : σ → τ → Prop} {f : σ → ι → m σ} {g : τ → ι → n τ} (l : List ι)
    (hstep : ∀ i ∈ l, ∀ s t, S s t → M.Rel S (f s i) (g t i)) {s : σ} {t : τ} (h : S s t) :
    M.Rel S (l.foldlM f s) (l.foldlM g t) := by
  induction l generalizing s t with
  | nil => exact M.pure h
  | cons i rest ih =>
    simp only [List.foldlM_cons]
    exact M.bind (hstep i (by simp) s t h) fun a b hab => ih (fun j hj => hstep j (by simp [hj])) hab

end MonadRelation

/-- Every operation of the first system keeps the relation with the second one. -/
structure Simulates {m n : Type → Type} [Monad m] [Monad n] (M : MonadRelation m n) {α β : Type}
    (R : α → β → Prop) (N : NumberSystem m α) (P : NumberSystem n β) : Prop where
  const : ∀ d, R (N.const d) (P.const d)
  add : ∀ {a b a' b'}, R a a' → R b b' → M.Rel R (N.add a b) (P.add a' b')
  sub : ∀ {a b a' b'}, R a a' → R b b' → M.Rel R (N.sub a b) (P.sub a' b')
  mul : ∀ {a b a' b'}, R a a' → R b b' → M.Rel R (N.mul a b) (P.mul a' b')
  div : ∀ {a b a' b'}, R a a' → R b b' → M.Rel R (N.div a b) (P.div a' b')
  positive : ∀ {a a'}, R a a' → M.Rel R (N.positive a) (P.positive a')

/-- Exact arithmetic of an ordered field. -/
def exact (K : Type) [Field K] [LinearOrder K] : NumberSystem Id K where
  const d := d.value
  add a b := pure (a + b)
  sub a b := pure (a - b)
  mul a b := pure (a * b)
  div a b := pure (a / b)
  positive a := pure (max a 0)

/-- Exact arithmetic of functions of one unknown, point by point. -/
def pointwise (K : Type) [Field K] [LinearOrder K] : NumberSystem Id (K → K) where
  const d := fun _ => d.value
  add f g := pure fun x => f x + g x
  sub f g := pure fun x => f x - g x
  mul f g := pure fun x => f x * g x
  div f g := pure fun x => f x / g x
  positive f := pure fun x => max (f x) 0

/-- Evaluation at a point turns function arithmetic into number arithmetic. -/
theorem pointwise_simulates (K : Type) [Field K] [LinearOrder K] (x : K) :
    Simulates MonadRelation.idId (fun (f : K → K) v => f x = v) (pointwise K) (exact K) where
  const _ := rfl
  add := by rintro a b _ _ rfl rfl; rfl
  sub := by rintro a b _ _ rfl rfl; rfl
  mul := by rintro a b _ _ rfl rfl; rfl
  div := by rintro a b _ _ rfl rfl; rfl
  positive := by rintro a _ rfl; rfl

end DecimalArithmetic
