import Mathlib.Data.List.Nodup
import Mathlib.Data.List.Range

/-!
# Tables with constraints

A table keeps its rows in the order of their insertion and carries the proof that they satisfy
its constraints. An insertion or an update that would break a constraint raises instead. The
lemmas say which rows a lookup or a selection finds after a write.
-/

namespace Relational

universe u v

/-- Raise when a condition holds. -/
def raiseIf {ε : Type u} (condition : Prop) [Decidable condition] (error : ε) : Except ε Unit :=
  if condition then .error error else .ok ()

/-- A check passes exactly when its condition fails. -/
@[simp] theorem raiseIf_eq_ok {ε : Type u} {condition : Prop} [Decidable condition] {error : ε} {u : Unit} :
    raiseIf condition error = .ok u ↔ ¬ condition := by
  unfold raiseIf
  split <;> simp_all

/-- Take the value of an option, or raise. -/
def orRaise {ε α : Type u} (value : Option α) (error : ε) : Except ε α :=
  match value with
  | some a => .ok a
  | none => .error error

/-- A value is taken exactly when it is there. -/
@[simp] theorem orRaise_eq_ok {ε α : Type u} {value : Option α} {error : ε} {a : α} :
    orRaise value error = .ok a ↔ value = some a := by
  cases value <;> simp [orRaise]

/-- A sequence returns exactly when both of its parts do. -/
theorem bind_eq_ok {ε α β : Type u} {x : Except ε α} {f : α → Except ε β} {b : β} :
    (x >>= f) = .ok b ↔ ∃ a, x = .ok a ∧ f a = .ok b := by
  cases x with
  | error e => simp [bind, Except.bind]
  | ok a => simp [bind, Except.bind]

/-- Returning returns what it is given. -/
@[simp] theorem pure_eq_ok {ε α : Type u} {a b : α} : (pure a : Except ε α) = .ok b ↔ a = b := by
  simp [pure, Except.pure]

/-- A list is traversed when every entry has what it needs, and what is returned is determined. -/
theorem mapM_eq_ok {ε α β : Type u} {f : α → Except ε β} {p : α → Prop} {g : α → β} {l : List α}
    (h : ∀ a ∈ l, ∀ b, f a = .ok b ↔ p a ∧ b = g a) (out : List β) : l.mapM f = .ok out ↔ (∀ a ∈ l, p a) ∧ out = l.map g := by
  induction l generalizing out with
  | nil => simp [pure, Except.pure, eq_comm]
  | cons a rest ih =>
    simp only [List.mapM_cons, bind_eq_ok, pure_eq_ok, h a List.mem_cons_self,
      ih fun b hb => h b (List.mem_cons_of_mem _ hb), List.forall_mem_cons, List.map_cons]
    constructor
    · rintro ⟨_, ⟨ha, rfl⟩, _, ⟨hrest, rfl⟩, rfl⟩
      exact ⟨⟨ha, hrest⟩, rfl⟩
    · rintro ⟨⟨ha, hrest⟩, rfl⟩
      exact ⟨_, ⟨ha, rfl⟩, _, ⟨hrest, rfl⟩, rfl⟩

/-- There is a value exactly when it was returned. -/
theorem toOption_eq_some {ε α : Type u} {x : Except ε α} {a : α} : x.toOption = some a ↔ x = .ok a := by
  cases x <;> simp [Except.toOption]

/-- No two rows have the same key. -/
abbrev UniqueBy {ρ : Type u} {κ : Type v} (key : ρ → κ) (rows : List ρ) : Prop := (rows.map key).Nodup

/-- Rows with other keys are unique with what was there when they are unique themselves. -/
theorem uniqueBy_append {ρ : Type u} {κ : Type v} {key : ρ → κ} {rows new : List ρ} (hrows : UniqueBy key rows) (hother : ∀ x ∈ rows, ∀ y ∈ new, key x ≠ key y) :
    UniqueBy key (rows ++ new) ↔ UniqueBy key new := by
  unfold UniqueBy
  rw [List.map_append, List.nodup_append]
  refine ⟨fun h => h.2.1, fun h => ⟨hrows, h, ?_⟩⟩
  intro a ha b hb
  obtain ⟨x, hx, rfl⟩ := List.mem_map.mp ha
  obtain ⟨y, hy, rfl⟩ := List.mem_map.mp hb
  exact hother x hx y hy

/-- A row with a key of its own is the one that a condition on the key finds. -/
theorem find_of_mem {ρ : Type u} {κ : Type v} {key : ρ → κ} {rows : List ρ} (hunique : UniqueBy key rows) {row : ρ} (h : row ∈ rows) {q : ρ → Prop}
    [DecidablePred q] (hrow : q row) (hkey : ∀ x, q x → key x = key row) : (rows.find? fun x => decide (q x)) = some row := by
  cases hfind : rows.find? fun x => decide (q x) with
  | none =>
    have hnot := List.find?_eq_none.mp hfind row h
    rw [decide_eq_true_eq] at hnot
    exact absurd hrow hnot
  | some found =>
    have hfound := List.find?_some hfind
    rw [decide_eq_true_eq] at hfound
    rw [List.inj_on_of_nodup_map hunique (List.mem_of_find?_eq_some hfind) h (hkey found hfound)]

/-- Rows in the order of their insertion that satisfy the table's constraints. -/
structure Table (ρ : Type u) (constraint : List ρ → Prop) where
  rows : List ρ
  valid : constraint rows

namespace Table

variable {ρ : Type u} {κ : Type v} {constraint : List ρ → Prop} {ε : Type u}

/-- Replace the rows of a table, raising when they break a constraint. -/
def write [DecidablePred constraint] (rows : List ρ) (violation : ε) : Except ε (Table ρ constraint) :=
  if h : constraint rows then .ok ⟨rows, h⟩ else .error violation

/-- Insert a row. -/
def insert [DecidablePred constraint] (t : Table ρ constraint) (row : ρ) (violation : ε) :
    Except ε (Table ρ constraint) := write (t.rows ++ [row]) violation

/-- Update the rows that a condition selects. -/
def update [DecidablePred constraint] (t : Table ρ constraint) (condition : ρ → Prop) [DecidablePred condition]
    (f : ρ → ρ) (violation : ε) : Except ε (Table ρ constraint) :=
  write (t.rows.map fun row => if condition row then f row else row) violation

/-- The rows that a condition selects. -/
def select (t : Table ρ constraint) (condition : ρ → Prop) [DecidablePred condition] : List ρ :=
  t.rows.filter fun row => decide (condition row)

/-- The row with a key. -/
def lookup [DecidableEq κ] (t : Table ρ constraint) (key : ρ → κ) (k : κ) : Option ρ :=
  t.rows.find? fun row => decide (key row = k)

/-- Tables with the same rows are equal. -/
theorem ext {t t' : Table ρ constraint} (h : t.rows = t'.rows) : t = t' := by
  cases t
  cases t'
  congr

section Writes

variable [DecidablePred constraint] {t t' : Table ρ constraint} {violation : ε}

/-- A write that returns has written the rows. -/
theorem write_eq_ok {rows : List ρ} (h : write rows violation = .ok t') : t'.rows = rows := by
  unfold write at h
  split at h
  · cases h
    rfl
  · cases h

/-- Rows are written exactly when they meet the constraints. -/
theorem write_iff {rows : List ρ} : write rows violation = .ok t ↔ constraint rows ∧ t.rows = rows := by
  unfold write
  split
  next h =>
    constructor
    · intro heq
      cases heq
      exact ⟨h, rfl⟩
    · rintro ⟨-, hrows⟩
      exact congrArg Except.ok (ext hrows.symm)
  next h => simp [h]

/-- An insertion puts the row at the end. -/
theorem insert_eq_ok {row : ρ} (h : t.insert row violation = .ok t') : t'.rows = t.rows ++ [row] :=
  write_eq_ok h

/-- An update changes the selected rows in place. -/
theorem update_eq_ok {condition : ρ → Prop} [DecidablePred condition] {f : ρ → ρ}
    (h : t.update condition f violation = .ok t') :
    t'.rows = t.rows.map fun row => if condition row then f row else row := write_eq_ok h

end Writes

section Lookups

variable [DecidableEq κ] {t t' : Table ρ constraint} {key : ρ → κ}

/-- A lookup finds a row with the key. -/
theorem lookup_eq_some {k : κ} {row : ρ} (h : t.lookup key k = some row) : row ∈ t.rows ∧ key row = k :=
  ⟨List.mem_of_find?_eq_some h, by simpa using List.find?_some h⟩

/-- A lookup by a unique key finds the row with that key. -/
theorem lookup_of_mem (hunique : UniqueBy key t.rows) {row : ρ} (h : row ∈ t.rows) :
    t.lookup key (key row) = some row := by
  cases hfound : t.lookup key (key row) with
  | none =>
    have hnone := List.find?_eq_none.mp hfound row h
    simp at hnone
  | some found =>
    obtain ⟨hmem, hkey⟩ := lookup_eq_some hfound
    rw [List.inj_on_of_nodup_map hunique hmem h hkey]

/-- A lookup finds nothing exactly when no row has the key. -/
theorem lookup_eq_none {k : κ} : t.lookup key k = none ↔ ∀ row ∈ t.rows, key row ≠ k := by
  simp [lookup]

/-- A lookup after an insertion finds an old row first. -/
theorem lookup_insert {row : ρ} (h : t'.rows = t.rows ++ [row]) (k : κ) :
    t'.lookup key k = (t.lookup key k).or (if key row = k then some row else none) := by
  by_cases hk : key row = k <;> simp [lookup, h, hk]

/-- A lookup after an insertion finds the new row by its unique key. -/
theorem lookup_inserted {row : ρ} (h : t'.rows = t.rows ++ [row]) (hunique : UniqueBy key t'.rows) :
    t'.lookup key (key row) = some row := lookup_of_mem hunique (by simp [h])

/-- A lookup by another key does not see an inserted row. -/
theorem lookup_insert_of_ne {row : ρ} (h : t'.rows = t.rows ++ [row]) {k : κ} (hk : key row ≠ k) :
    t'.lookup key k = t.lookup key k := by
  simp [lookup_insert h, hk]

/-- A lookup after an update that keeps the keys of the rows that it changes finds the updated row. -/
theorem lookup_changed {condition : ρ → Prop} [DecidablePred condition] {f : ρ → ρ}
    (h : t'.rows = t.rows.map fun row => if condition row then f row else row)
    (hkey : ∀ row, condition row → key (f row) = key row) (k : κ) :
    t'.lookup key k = (t.lookup key k).map fun row => if condition row then f row else row := by
  have hcongr : ((fun row => decide (key row = k)) ∘ fun row => if condition row then f row else row) =
      fun row => decide (key row = k) := by
    funext row
    by_cases hc : condition row <;> simp [hc, hkey]
  simp only [lookup, h, List.find?_map, hcongr]

/-- A lookup after an update that keeps the key finds the updated row. -/
theorem lookup_update {condition : ρ → Prop} [DecidablePred condition] {f : ρ → ρ}
    (h : t'.rows = t.rows.map fun row => if condition row then f row else row)
    (hkey : ∀ row, key (f row) = key row) (k : κ) :
    t'.lookup key k = (t.lookup key k).map fun row => if condition row then f row else row :=
  lookup_changed h (fun row _ => hkey row) k

end Lookups

section Selections

variable {t t' : Table ρ constraint} (condition : ρ → Prop) [DecidablePred condition]

/-- The selected rows are those that meet the condition. -/
@[simp] theorem mem_select {row : ρ} : row ∈ t.select condition ↔ row ∈ t.rows ∧ condition row := by
  simp [select]

/-- A selection after an insertion has the new row at its end, if it meets the condition. -/
theorem select_insert {row : ρ} (h : t'.rows = t.rows ++ [row]) :
    t'.select condition = t.select condition ++ if condition row then [row] else [] := by
  by_cases hc : condition row <;> simp [select, h, hc]

/-- A selection that an update does not affect has the same rows, updated. -/
theorem select_update {changed : ρ → Prop} [DecidablePred changed] {f : ρ → ρ}
    (h : t'.rows = t.rows.map fun row => if changed row then f row else row)
    (hkeep : ∀ row, condition (f row) ↔ condition row) :
    t'.select condition = (t.select condition).map fun row => if changed row then f row else row := by
  have hcongr : ((fun row => decide (condition row)) ∘ fun row => if changed row then f row else row) =
      fun row => decide (condition row) := by
    funext row
    by_cases hc : changed row <;> simp [hc, hkeep]
  simp [select, h, List.filter_map, hcongr]

end Selections

end Table

/-- The number after the greatest of a list, one for the empty list. -/
def nextNumber (numbers : List ℕ) : ℕ := numbers.foldr max 0 + 1

/-- Every number of a list is before the next one. -/
theorem lt_nextNumber {n : ℕ} {numbers : List ℕ} (h : n ∈ numbers) : n < nextNumber numbers := by
  unfold nextNumber
  induction numbers with
  | nil => simp at h
  | cons head rest ih =>
    rcases List.mem_cons.mp h with rfl | hrest
    · simp only [List.foldr_cons]
      omega
    · have := ih hrest
      simp only [List.foldr_cons]
      omega

/-- The numbers from one on without gaps, in order. -/
def Consecutive (numbers : List ℕ) : Prop := numbers = List.range' 1 numbers.length

/-- No numbers are consecutive. -/
theorem consecutive_nil : Consecutive [] := rfl

/-- The next number after consecutive ones is their count plus one. -/
theorem Consecutive.nextNumber_eq {numbers : List ℕ} (h : Consecutive numbers) :
    nextNumber numbers = numbers.length + 1 := by
  have hmax : ∀ start count : ℕ, (List.range' start (count + 1)).foldr max 0 = start + count := by
    intro start count
    induction count generalizing start with
    | zero => simp
    | succ count ih =>
      rw [List.range'_succ, List.foldr_cons, ih]
      omega
  unfold nextNumber
  rw [h]
  cases hlength : numbers.length with
  | zero => simp
  | succ n =>
    rw [hmax, List.length_range']
    omega

/-- Consecutive numbers followed by the next one are consecutive. -/
theorem Consecutive.append_next {numbers : List ℕ} (h : Consecutive numbers) :
    Consecutive (numbers ++ [nextNumber numbers]) := by
  unfold Consecutive
  rw [h.nextNumber_eq, List.length_append, List.length_singleton, List.range'_1_concat, ← h, Nat.add_comm 1]

end Relational
