import Mathlib.Data.List.Perm.Basic
import Mathlib.Data.List.Sort
import Mathlib.Data.List.Nodup

/-!
# Trees of scalars, arrays and objects

The members of an object are listed in some order under keys. A function of a tree is given by what
it does at each kind of node. Trees are the same when their arrays agree item by item and their
objects agree key by key; each tree is the same as the one whose members are sorted, so that trees
are compared by their sorted forms.
-/

namespace Text

/-- A tree of scalars, arrays of trees and objects with keys. -/
inductive Tree (σ κ : Type) where
  | scalar (s : σ)
  | array (items : List (Tree σ κ))
  | object (members : List (κ × Tree σ κ))

namespace Tree

variable {σ κ τ ι β : Type}

/-- Induction on a tree: at each node the items or members have the property. -/
@[elab_as_elim] theorem induct {motive : Tree σ κ → Prop} (scalar : ∀ s, motive (.scalar s))
    (array : ∀ items, (∀ t ∈ items, motive t) → motive (.array items))
    (object : ∀ members, (∀ m ∈ members, motive m.2) → motive (.object members)) (t : Tree σ κ) : motive t :=
  @Tree.rec σ κ motive (fun items => ∀ t ∈ items, motive t) (fun members => ∀ m ∈ members, motive m.2)
    (fun m => motive m.2) scalar array object (fun _ h => absurd h List.not_mem_nil)
    (fun _ _ ht hrest => List.forall_mem_cons.mpr ⟨ht, hrest⟩) (fun _ h => absurd h List.not_mem_nil)
    (fun _ _ hm hrest => List.forall_mem_cons.mpr ⟨hm, hrest⟩) (fun _ _ ht => ht) t

mutual

/-- What a function does at each kind of node, applied to a tree. -/
def fold (f : σ → β) (g : List β → β) (h : List (κ × β) → β) : Tree σ κ → β
  | .scalar s => f s
  | .array items => g (foldItems f g h items)
  | .object members => h (foldMembers f g h members)

/-- What a function does, applied to items. -/
def foldItems (f : σ → β) (g : List β → β) (h : List (κ × β) → β) : List (Tree σ κ) → List β
  | [] => []
  | t :: rest => fold f g h t :: foldItems f g h rest

/-- What a function does, applied to members. -/
def foldMembers (f : σ → β) (g : List β → β) (h : List (κ × β) → β) : List (κ × Tree σ κ) → List (κ × β)
  | [] => []
  | (key, t) :: rest => (key, fold f g h t) :: foldMembers f g h rest

end

variable {f : σ → β} {g : List β → β} {h : List (κ × β) → β}

@[simp] theorem fold_scalar (s : σ) : fold f g h (.scalar s) = f s := rfl

@[simp] theorem fold_array (items : List (Tree σ κ)) : fold f g h (.array items) = g (items.map (fold f g h)) := by
  have hitems : foldItems f g h items = items.map (fold f g h) := by
    induction items with
    | nil => rfl
    | cons t rest ih => rw [foldItems, ih, List.map_cons]
  rw [fold, hitems]

@[simp] theorem fold_object (members : List (κ × Tree σ κ)) :
    fold f g h (.object members) = h (members.map fun m => (m.1, fold f g h m.2)) := by
  have hmembers : foldMembers f g h members = members.map fun m => (m.1, fold f g h m.2) := by
    induction members with
    | nil => rfl
    | cons m rest ih => rw [foldMembers, ih, List.map_cons]
  rw [fold, hmembers]

/-! ### Properties of every node -/

/-- Every scalar and every key of the tree has a property. -/
def All (p : σ → Prop) (q : κ → Prop) : Tree σ κ → Prop :=
  fold p (fun items => ∀ t ∈ items, t) fun members => ∀ m ∈ members, q m.1 ∧ m.2

@[simp] theorem all_scalar {p : σ → Prop} {q : κ → Prop} (s : σ) : (Tree.scalar s).All p q ↔ p s := Iff.rfl

@[simp] theorem all_array {p : σ → Prop} {q : κ → Prop} (items : List (Tree σ κ)) :
    (Tree.array items).All p q ↔ ∀ t ∈ items, t.All p q := by
  rw [All, fold_array, List.forall_mem_map]

@[simp] theorem all_object {p : σ → Prop} {q : κ → Prop} (members : List (κ × Tree σ κ)) :
    (Tree.object members).All p q ↔ ∀ m ∈ members, q m.1 ∧ m.2.All p q := by
  rw [All, fold_object, List.forall_mem_map]

/-- What holds of everything holds at every node. -/
theorem all_of_forall {p : σ → Prop} {q : κ → Prop} (hp : ∀ s, p s) (hq : ∀ key, q key) (t : Tree σ κ) : t.All p q := by
  induction t using induct with
  | scalar s => exact hp s
  | array items ih => exact (all_array items).mpr ih
  | object members ih => exact (all_object members).mpr fun m hm => ⟨hq m.1, ih m hm⟩

/-- Check a property at every node. -/
def decideAll (p : σ → Prop) (q : κ → Prop) [DecidablePred p] [DecidablePred q] : Tree σ κ → Bool :=
  fold (fun s => decide (p s)) (fun items => items.all fun b => b) fun members => members.all fun m => decide (q m.1) && m.2

/-- The check of a property at every node. -/
theorem decideAll_iff (p : σ → Prop) (q : κ → Prop) [DecidablePred p] [DecidablePred q] (t : Tree σ κ) :
    t.decideAll p q = true ↔ t.All p q := by
  induction t using induct with
  | scalar s => exact decide_eq_true_iff
  | array items ih =>
    rw [decideAll, fold_array, all_array, List.all_eq_true, List.forall_mem_map]
    exact forall₂_congr ih
  | object members ih =>
    rw [decideAll, fold_object, all_object, List.all_eq_true, List.forall_mem_map]
    refine forall₂_congr fun m hm => ?_
    rw [Bool.and_eq_true, decide_eq_true_iff]
    exact and_congr_right fun _ => ih m hm

instance (p : σ → Prop) (q : κ → Prop) [DecidablePred p] [DecidablePred q] (t : Tree σ κ) : Decidable (t.All p q) :=
  decidable_of_iff _ (decideAll_iff p q t)

/-- A property that follows from another one follows at every node. -/
theorem All.imp {p p' : σ → Prop} {q q' : κ → Prop} {t : Tree σ κ} (ht : t.All p q) (hp : ∀ s, p s → p' s)
    (hq : ∀ key, q key → q' key) : t.All p' q' := by
  induction t using induct with
  | scalar s => exact hp s ht
  | array items ih =>
    rw [all_array] at ht ⊢
    exact fun t hmem => ih t hmem (ht t hmem)
  | object members ih =>
    rw [all_object] at ht ⊢
    exact fun m hmem => ⟨hq _ (ht m hmem).1, ih m hmem (ht m hmem).2⟩

/-- No object of the tree has a key twice. -/
def Distinct : Tree σ κ → Prop :=
  fold (fun _ => True) (fun items => ∀ t ∈ items, t) fun members => (members.map (·.1)).Nodup ∧ ∀ m ∈ members, m.2

@[simp] theorem distinct_scalar (s : σ) : (Tree.scalar s : Tree σ κ).Distinct := trivial

@[simp] theorem distinct_array (items : List (Tree σ κ)) : (Tree.array items).Distinct ↔ ∀ t ∈ items, t.Distinct := by
  rw [Distinct, fold_array, List.forall_mem_map]

@[simp] theorem distinct_object (members : List (κ × Tree σ κ)) :
    (Tree.object members).Distinct ↔ (members.map (·.1)).Nodup ∧ ∀ m ∈ members, m.2.Distinct := by
  rw [Distinct, fold_object, List.map_map, List.forall_mem_map]
  rfl

/-- How deep arrays and objects are nested. -/
def depth : Tree σ κ → ℕ :=
  fold (fun _ => 0) (fun items => 1 + items.foldr max 0) fun members => 1 + (members.map (·.2)).foldr max 0

@[simp] theorem depth_scalar (s : σ) : (Tree.scalar s : Tree σ κ).depth = 0 := rfl

@[simp] theorem depth_array (items : List (Tree σ κ)) :
    (Tree.array items).depth = 1 + (items.map depth).foldr max 0 := by
  rw [depth, fold_array]

@[simp] theorem depth_object (members : List (κ × Tree σ κ)) :
    (Tree.object members).depth = 1 + (members.map fun m => m.2.depth).foldr max 0 := by
  rw [depth, fold_object, List.map_map]
  rfl

/-! ### Trees with other scalars and keys -/

/-- The tree with its scalars and keys replaced. -/
def map (scalar : σ → τ) (key : κ → ι) : Tree σ κ → Tree τ ι :=
  fold (fun s => .scalar (scalar s)) .array fun members => .object (members.map fun m => (key m.1, m.2))

variable {scalar : σ → τ} {key : κ → ι}

@[simp] theorem map_scalar (s : σ) : (Tree.scalar s : Tree σ κ).map scalar key = .scalar (scalar s) := rfl

@[simp] theorem map_array (items : List (Tree σ κ)) :
    (Tree.array items).map scalar key = .array (items.map (map scalar key)) := by
  rw [map, fold_array]

@[simp] theorem map_object (members : List (κ × Tree σ κ)) :
    (Tree.object members).map scalar key = .object (members.map fun m => (key m.1, m.2.map scalar key)) := by
  rw [map, fold_object, List.map_map]
  rfl

/-- Replaced scalars and keys are nested as before. -/
@[simp] theorem depth_map (t : Tree σ κ) : (t.map scalar key).depth = t.depth := by
  induction t using induct with
  | scalar s => rfl
  | array items ih =>
    rw [map_array, depth_array, depth_array, List.map_map]
    congr 2
    exact List.map_congr_left ih
  | object members ih =>
    rw [map_object, depth_object, depth_object, List.map_map]
    congr 2
    exact List.map_congr_left ih

/-- Scalars and keys that are replaced twice. -/
theorem map_map {ρ η : Type} {scalar' : τ → ρ} {key' : ι → η} (t : Tree σ κ) :
    (t.map scalar key).map scalar' key' = t.map (fun s => scalar' (scalar s)) fun k => key' (key k) := by
  induction t using induct with
  | scalar s => rfl
  | array items ih =>
    rw [map_array, map_array, map_array, List.map_map]
    exact congrArg Tree.array (List.map_congr_left ih)
  | object members ih =>
    rw [map_object, map_object, map_object, List.map_map]
    exact congrArg Tree.object (List.map_congr_left fun m hm => Prod.ext rfl (ih m hm))

/-- Scalars that are replaced by themselves. -/
theorem map_eq_self {f : σ → σ} {t : Tree σ κ} (h : t.All (fun s => f s = s) fun _ => True) : t.map f (fun k => k) = t := by
  induction t using induct with
  | scalar s => exact congrArg Tree.scalar h
  | array items ih =>
    rw [all_array] at h
    rw [map_array, List.map_congr_left fun t ht => ih t ht (h t ht), List.map_id']
  | object members ih =>
    rw [all_object] at h
    have hmembers : ∀ m ∈ members, (m.1, m.2.map f fun k => k) = m := fun m hm => Prod.ext rfl (ih m hm (h m hm).2)
    rw [map_object, List.map_congr_left hmembers, List.map_id']

/-- Replaced scalars leave the keys as distinct as they are. -/
theorem distinct_map {t : Tree σ κ} {f : σ → τ} : (t.map f fun k => k).Distinct ↔ t.Distinct := by
  induction t using induct with
  | scalar s => exact Iff.rfl
  | array items ih =>
    rw [map_array, distinct_array, distinct_array, List.forall_mem_map]
    exact forall₂_congr ih
  | object members ih =>
    rw [map_object, distinct_object, distinct_object, List.map_map, List.forall_mem_map]
    exact and_congr_right fun _ => forall₂_congr ih

/-- What holds of replaced scalars and keys. -/
theorem all_map {p : τ → Prop} {q : ι → Prop} (t : Tree σ κ) :
    (t.map scalar key).All p q ↔ t.All (fun s => p (scalar s)) fun k => q (key k) := by
  induction t using induct with
  | scalar s => rfl
  | array items ih =>
    rw [map_array, all_array, all_array, List.forall_mem_map]
    exact forall₂_congr ih
  | object members ih =>
    rw [map_object, all_object, all_object, List.forall_mem_map]
    exact forall₂_congr fun m hm => and_congr_right fun _ => ih m hm

/-- The tree with its scalars and keys read, and the members of each object checked. -/
def traverse (scalar : σ → Option τ) (key : κ → Option ι) (check : List (ι × Tree τ ι) → Option (List (ι × Tree τ ι))) :
    Tree σ κ → Option (Tree τ ι) :=
  fold (fun s => (scalar s).map .scalar) (fun items => (items.mapM fun t => t).map .array) fun members =>
    ((members.mapM fun m => (key m.1).bind fun k => m.2.map fun t => (k, t)).bind check).map .object

variable {scalar? : σ → Option τ} {key? : κ → Option ι} {check : List (ι × Tree τ ι) → Option (List (ι × Tree τ ι))}

@[simp] theorem traverse_scalar (s : σ) :
    (Tree.scalar s : Tree σ κ).traverse scalar? key? check = (scalar? s).map .scalar := rfl

@[simp] theorem traverse_array (items : List (Tree σ κ)) :
    (Tree.array items).traverse scalar? key? check = (items.mapM (traverse scalar? key? check)).map .array := by
  rw [traverse, fold_array, List.mapM_map]
  rfl

@[simp] theorem traverse_object (members : List (κ × Tree σ κ)) :
    (Tree.object members).traverse scalar? key? check =
      ((members.mapM fun m => (key? m.1).bind fun k => (m.2.traverse scalar? key? check).map fun t => (k, t)).bind
        check).map .object := by
  rw [traverse, fold_object, List.mapM_map]
  rfl

/-- Items that are all read are read together. -/
theorem mapM_eq_some {α γ : Type} {read : α → Option γ} {g : α → γ} {items : List α} (h : ∀ a ∈ items, read a = some (g a)) :
    items.mapM read = some (items.map g) := by
  induction items with
  | nil => rfl
  | cons a items ih =>
    rw [List.mapM_cons, h a List.mem_cons_self, ih fun b hb => h b (List.mem_cons_of_mem _ hb)]
    rfl

/-- Replaced scalars and keys are read back, if the objects of the tree pass the check. -/
theorem traverse_map {ρ : Type} {f : σ → τ} {k : κ → ι} {f? : τ → Option ρ} {k? : ι → Option κ} {g : σ → ρ}
    {check : List (κ × Tree ρ κ) → Option (List (κ × Tree ρ κ))} {p : σ → Prop} {q : κ → Prop}
    (hscalar : ∀ s, p s → f? (f s) = some (g s)) (hkey : ∀ key, q key → k? (k key) = some key)
    (hcheck : ∀ members, (members.map (·.1)).Nodup → check members = some members) {t : Tree σ κ} (hall : t.All p q)
    (hdistinct : t.Distinct) : (t.map f k).traverse f? k? check = some (t.map g fun key => key) := by
  induction t using induct with
  | scalar s => rw [map_scalar, traverse_scalar, hscalar s hall, Option.map_some, map_scalar]
  | array items ih =>
    rw [all_array] at hall
    rw [distinct_array] at hdistinct
    have hread : items.mapM (fun t => (t.map f k).traverse f? k? check) = some (items.map fun t => t.map g fun key => key) :=
      mapM_eq_some fun t ht => ih t ht (hall t ht) (hdistinct t ht)
    rw [map_array, traverse_array, List.mapM_map, Function.comp_def, hread, Option.map_some, map_array]
  | object members ih =>
    rw [all_object] at hall
    rw [distinct_object] at hdistinct
    have hread : members.mapM (fun m => (k? (k m.1)).bind fun key =>
        ((m.2.map f k).traverse f? k? check).map fun t => (key, t)) = some (members.map fun m => (m.1, m.2.map g fun key => key)) := by
      refine mapM_eq_some fun m hm => ?_
      rw [hkey _ (hall m hm).1, ih m hm (hall m hm).2 (hdistinct.2 m hm)]
      rfl
    have hkeys : ((members.map fun m => (m.1, m.2.map g fun key => key)).map (·.1)).Nodup := by
      rw [List.map_map]
      exact hdistinct.1
    rw [map_object, traverse_object, List.mapM_map, Function.comp_def, hread, Option.bind_some, hcheck _ hkeys,
      Option.map_some, map_object]

/-- What is read together comes from the items. -/
theorem mem_of_mapM {α γ : Type} {read : α → Option γ} {items : List α} {out : List γ} (h : items.mapM read = some out)
    {b : γ} (hb : b ∈ out) : ∃ a ∈ items, read a = some b := by
  induction items generalizing out with
  | nil =>
    cases h
    cases hb
  | cons a items ih =>
    rw [List.mapM_cons] at h
    obtain ⟨c, hc, hrest⟩ := Option.bind_eq_some_iff.mp h
    obtain ⟨rest, hmap, hout⟩ := Option.bind_eq_some_iff.mp hrest
    cases hout
    rcases List.mem_cons.mp hb with rfl | hb
    · exact ⟨a, List.mem_cons_self, hc⟩
    · obtain ⟨a', ha', hread⟩ := ih hmap hb
      exact ⟨a', List.mem_cons_of_mem _ ha', hread⟩

/-- Items that are read together are each read. -/
theorem exists_of_mapM {α γ : Type} {read : α → Option γ} {items : List α} {out : List γ} (h : items.mapM read = some out)
    {a : α} (ha : a ∈ items) : ∃ b, read a = some b := by
  induction items generalizing out with
  | nil => cases ha
  | cons a' items ih =>
    rw [List.mapM_cons] at h
    obtain ⟨b, hb, hrest⟩ := Option.bind_eq_some_iff.mp h
    obtain ⟨rest, hmap, -⟩ := Option.bind_eq_some_iff.mp hrest
    rcases List.mem_cons.mp ha with rfl | ha
    · exact ⟨b, hb⟩
    · exact ih hmap ha

/-- Items that are determined by what is read from them. -/
theorem eq_map_of_mapM {α γ : Type} {read : α → Option γ} {g : γ → α} {items : List α} {out : List γ}
    (hread : ∀ a ∈ items, ∀ b, read a = some b → a = g b) (h : items.mapM read = some out) : items = out.map g := by
  induction items generalizing out with
  | nil =>
    cases h
    rfl
  | cons a items ih =>
    rw [List.mapM_cons] at h
    obtain ⟨b, hb, hrest⟩ := Option.bind_eq_some_iff.mp h
    obtain ⟨rest, hmap, hout⟩ := Option.bind_eq_some_iff.mp hrest
    cases hout
    rw [List.map_cons, ← hread a List.mem_cons_self b hb, ← ih (fun c hc => hread c (List.mem_cons_of_mem _ hc)) hmap]

/-- A tree whose scalars are determined by what is read from them. -/
theorem eq_map_of_traverse {f? : σ → Option τ} {g : τ → σ} (hread : ∀ s s', f? s = some s' → s = g s') {t : Tree σ κ} {t' : Tree τ κ}
    (h : t.traverse f? some some = some t') : t = t'.map g fun k => k := by
  induction t using induct generalizing t' with
  | scalar s =>
    obtain ⟨s', hs', rfl⟩ := Option.map_eq_some_iff.mp h
    exact congrArg Tree.scalar (hread s s' hs')
  | array items ih =>
    rw [traverse_array] at h
    obtain ⟨items', hitems, rfl⟩ := Option.map_eq_some_iff.mp h
    rw [map_array, ← eq_map_of_mapM (fun t ht t' ht' => ih t ht ht') hitems]
  | object members ih =>
    rw [traverse_object] at h
    obtain ⟨members', hmembers, rfl⟩ := Option.map_eq_some_iff.mp h
    obtain ⟨read, hread', hsome⟩ := Option.bind_eq_some_iff.mp hmembers
    cases hsome
    have hmember : ∀ m ∈ members, ∀ m' : κ × Tree τ κ,
        ((some m.1).bind fun k => (m.2.traverse f? some some).map fun t => (k, t)) = some m' → m = (m'.1, m'.2.map g fun k => k) := by
      intro m hm m' hm'
      obtain ⟨t, ht, rfl⟩ := Option.map_eq_some_iff.mp hm'
      exact Prod.ext rfl (ih m hm ht)
    rw [map_object, ← eq_map_of_mapM hmember hread']

/-- A tree that is read has no key twice, if the check leaves none. -/
theorem distinct_of_traverse (hcheck : ∀ members checked, check members = some checked →
      (checked.map (·.1)).Nodup ∧ ∀ m ∈ checked, m ∈ members) {t : Tree σ κ} {t' : Tree τ ι}
    (h : t.traverse scalar? key? check = some t') : t'.Distinct := by
  induction t using induct generalizing t' with
  | scalar s =>
    obtain ⟨s', -, rfl⟩ := Option.map_eq_some_iff.mp h
    trivial
  | array items ih =>
    rw [traverse_array] at h
    obtain ⟨items', hitems, rfl⟩ := Option.map_eq_some_iff.mp h
    rw [distinct_array]
    intro t' ht'
    obtain ⟨t, ht, hread⟩ := mem_of_mapM hitems ht'
    exact ih t ht hread
  | object members ih =>
    rw [traverse_object] at h
    obtain ⟨checked, hchecked, rfl⟩ := Option.map_eq_some_iff.mp h
    obtain ⟨read, hread, hcheckedOf⟩ := Option.bind_eq_some_iff.mp hchecked
    obtain ⟨hnodup, hsub⟩ := hcheck _ _ hcheckedOf
    rw [distinct_object]
    refine ⟨hnodup, fun m' hm' => ?_⟩
    obtain ⟨m, hm, hmember⟩ := mem_of_mapM hread (hsub m' hm')
    obtain ⟨k, -, hvalue⟩ := Option.bind_eq_some_iff.mp hmember
    obtain ⟨t, ht, rfl⟩ := Option.map_eq_some_iff.mp hvalue
    exact ih m hm ht

/-! ### Sorted members -/

/-- Members in the order of their keys. -/
def byKey {α : Type} [LinearOrder κ] (members : List (κ × α)) : List (κ × α) := members.insertionSort fun m m' => m.1 ≤ m'.1

/-- Sorted members are the members. -/
theorem mem_byKey {α : Type} [LinearOrder κ] {members : List (κ × α)} {m : κ × α} : m ∈ byKey members ↔ m ∈ members :=
  List.mem_insertionSort _

/-- Members with the same keys and values are sorted alike, if no key occurs twice. -/
theorem byKey_eq_of_perm {α : Type} [LinearOrder κ] {members members' : List (κ × α)} (h : members.Perm members')
    (hdistinct : (members.map (·.1)).Nodup) : byKey members = byKey members' := by
  have : Std.Total fun m m' : κ × α => m.1 ≤ m'.1 := ⟨fun m m' => le_total m.1 m'.1⟩
  have : IsTrans (κ × α) fun m m' => m.1 ≤ m'.1 := ⟨fun _ _ _ h h' => le_trans h h'⟩
  have hperm : (byKey members).Perm (byKey members') :=
    (List.perm_insertionSort _ _).trans (h.trans (List.perm_insertionSort _ _).symm)
  refine List.Perm.eq_of_pairwise (fun m m' hm hm' hle hle' => ?_) (List.pairwise_insertionSort _ _)
    (List.pairwise_insertionSort _ _) hperm
  exact List.inj_on_of_nodup_map hdistinct (mem_byKey.mp hm) (h.mem_iff.mpr (mem_byKey.mp hm')) (le_antisymm hle hle')

/-- Replaced values leave the order of the keys. -/
theorem byKey_map {α γ : Type} [LinearOrder κ] (f : α → γ) (members : List (κ × α)) :
    byKey (members.map fun m => (m.1, f m.2)) = (byKey members).map fun m => (m.1, f m.2) :=
  (List.map_insertionSort _ _ (fun m : κ × α => (m.1, f m.2)) members fun _ _ _ _ => Iff.rfl).symm

/-- The tree with the members of its objects sorted. -/
def sorted [LinearOrder κ] : Tree σ κ → Tree σ κ := fold .scalar .array fun members => .object (byKey members)

variable [LinearOrder κ]

@[simp] theorem sorted_scalar (s : σ) : (Tree.scalar s : Tree σ κ).sorted = .scalar s := rfl

@[simp] theorem sorted_array (items : List (Tree σ κ)) : (Tree.array items).sorted = .array (items.map sorted) := by
  rw [sorted, fold_array]

@[simp] theorem sorted_object (members : List (κ × Tree σ κ)) :
    (Tree.object members).sorted = .object ((byKey members).map fun m => (m.1, m.2.sorted)) := by
  rw [sorted, fold_object, byKey_map]

/-- A sorted tree has the scalars and keys of the tree. -/
theorem all_sorted {p : σ → Prop} {q : κ → Prop} (t : Tree σ κ) : t.sorted.All p q ↔ t.All p q := by
  induction t using induct with
  | scalar s => rfl
  | array items ih =>
    rw [sorted_array, all_array, all_array, List.forall_mem_map]
    exact forall₂_congr ih
  | object members ih =>
    rw [sorted_object, all_object, all_object, List.forall_mem_map]
    constructor
    · exact fun h m hm => ⟨(h m (mem_byKey.mpr hm)).1, (ih m hm).mp (h m (mem_byKey.mpr hm)).2⟩
    · exact fun h m hm => ⟨(h m (mem_byKey.mp hm)).1, (ih m (mem_byKey.mp hm)).mpr (h m (mem_byKey.mp hm)).2⟩

/-- A sorted tree has no key twice if the tree has none. -/
theorem Distinct.sorted {t : Tree σ κ} (h : t.Distinct) : t.sorted.Distinct := by
  induction t using induct with
  | scalar s => exact h
  | array items ih =>
    rw [sorted_array, distinct_array, List.forall_mem_map]
    rw [distinct_array] at h
    exact fun t ht => ih t ht (h t ht)
  | object members ih =>
    rw [sorted_object, distinct_object, List.map_map, List.forall_mem_map]
    rw [distinct_object] at h
    refine ⟨?_, fun m hm => ih m (mem_byKey.mp hm) (h.2 m (mem_byKey.mp hm))⟩
    exact ((List.perm_insertionSort _ _).map _).nodup_iff.mpr h.1

/-- A sorted tree is nested as the tree is. -/
theorem depth_sorted (t : Tree σ κ) : t.sorted.depth = t.depth := by
  induction t using induct with
  | scalar s => rfl
  | array items ih =>
    rw [sorted_array, depth_array, depth_array, List.map_map]
    congr 2
    exact List.map_congr_left ih
  | object members ih =>
    rw [sorted_object, depth_object, depth_object, List.map_map]
    congr 1
    have hdepths : (byKey members).map ((fun m => m.2.depth) ∘ fun m => (m.1, m.2.sorted)) =
        (byKey members).map fun m => m.2.depth := List.map_congr_left fun m hm => ih m (mem_byKey.mp hm)
    rw [hdepths]
    have : LeftCommutative (α := ℕ) (β := ℕ) max := ⟨fun a b c => max_left_comm a b c⟩
    exact ((List.perm_insertionSort _ _).map _).foldr_eq 0

/-! ### The same trees -/

/-- Arrays agree item by item, and objects agree key by key. -/
inductive Same : Tree σ κ → Tree σ κ → Prop where
  | scalar (s : σ) : Same (.scalar s) (.scalar s)
  | array {items items' : List (Tree σ κ)} (hlength : items.length = items'.length)
      (hitems : ∀ (i : ℕ) (t t' : Tree σ κ), items[i]? = some t → items'[i]? = some t' → Same t t') : Same (.array items) (.array items')
  | object {members members' : List (κ × Tree σ κ)} (hkeys : ∀ key, key ∈ members.map (·.1) ↔ key ∈ members'.map (·.1))
      (hmembers : ∀ m ∈ members, ∀ m' ∈ members', m.1 = m'.1 → Same m.2 m'.2) : Same (.object members) (.object members')

omit [LinearOrder κ] in
/-- What is the same is so in both directions. -/
theorem Same.symm {t t' : Tree σ κ} (h : Same t t') : Same t' t := by
  induction h with
  | scalar s => exact .scalar s
  | array hlength _ ih => exact .array hlength.symm fun i t' t ht' ht => ih i t t' ht ht'
  | object hkeys _ ih => exact .object (fun key => (hkeys key).symm) fun m' hm' m hm hkey => ih m hm m' hm' hkey.symm

omit [LinearOrder κ] in
/-- What is the same as a tree that is the same as another one is the same as that one. -/
theorem Same.trans {t t' t'' : Tree σ κ} (h : Same t t') (h' : Same t' t'') : Same t t'' := by
  induction h generalizing t'' with
  | scalar s => exact h'
  | @array items items' hlength _ ih =>
    cases h' with
    | @array _ items'' hlength' hitems' =>
      refine .array (hlength.trans hlength') fun i t t'' ht ht'' => ?_
      obtain ⟨hi, -⟩ := List.getElem?_eq_some_iff.mp ht
      obtain ⟨t', ht'⟩ : ∃ t', items'[i]? = some t' := ⟨_, List.getElem?_eq_getElem (hlength ▸ hi)⟩
      exact ih i t t' ht ht' (hitems' i t' t'' ht' ht'')
  | @object members members' hkeys _ ih =>
    cases h' with
    | @object _ members'' hkeys' hmembers' =>
      refine .object (fun key => (hkeys key).trans (hkeys' key)) fun m hm m'' hm'' hkey => ?_
      obtain ⟨m', hm', hkey'⟩ := List.mem_map.mp ((hkeys m.1).mp (List.mem_map_of_mem hm))
      exact ih m hm m' hm' hkey'.symm (hmembers' m' hm' m'' hm'' (hkey'.trans hkey))

omit [LinearOrder κ] in
/-- Trees that are the same are so with their scalars replaced. -/
theorem Same.map {t t' : Tree σ κ} (h : Same t t') (f : σ → τ) : Same (t.map f fun k => k) (t'.map f fun k => k) := by
  induction h with
  | scalar s => exact .scalar (f s)
  | @array items items' hlength _ ih =>
    rw [map_array, map_array]
    refine .array (by rw [List.length_map, List.length_map, hlength]) fun i t t' ht ht' => ?_
    rw [List.getElem?_map] at ht ht'
    obtain ⟨item, hitem, rfl⟩ := Option.map_eq_some_iff.mp ht
    obtain ⟨item', hitem', rfl⟩ := Option.map_eq_some_iff.mp ht'
    exact ih i item item' hitem hitem'
  | @object members members' hkeys _ ih =>
    rw [map_object, map_object]
    refine .object (fun key => ?_) fun m hm m' hm' hkey => ?_
    · rw [List.map_map, List.map_map]
      exact hkeys key
    · obtain ⟨member, hmember, rfl⟩ := List.mem_map.mp hm
      obtain ⟨member', hmember', rfl⟩ := List.mem_map.mp hm'
      exact ih member hmember member' hmember' hkey

/-- A tree is the same as its sorted form. -/
theorem same_sorted {t : Tree σ κ} (h : t.Distinct) : Same t t.sorted := by
  induction t using induct with
  | scalar s => exact .scalar s
  | array items ih =>
    rw [distinct_array] at h
    rw [sorted_array]
    refine .array (List.length_map _).symm fun i t t' ht ht' => ?_
    rw [List.getElem?_map, ht, Option.map_some, Option.some.injEq] at ht'
    rw [← ht']
    exact ih t (List.mem_of_getElem? ht) (h t (List.mem_of_getElem? ht))
  | object members ih =>
    rw [distinct_object] at h
    rw [sorted_object]
    refine .object (fun key => ?_) fun m hm m' hm' hkey => ?_
    · rw [List.map_map]
      exact ((List.perm_insertionSort _ _).map _).mem_iff.symm
    · obtain ⟨m'', hm'', rfl⟩ := List.mem_map.mp hm'
      have heq : m = m'' := List.inj_on_of_nodup_map h.1 hm (mem_byKey.mp hm'') hkey
      rw [← heq]
      exact ih m hm (h.2 m hm)

/-- Trees that are the same have one sorted form. -/
theorem Same.sorted_eq {t t' : Tree σ κ} (h : Same t t') (ht : t.Distinct) (ht' : t'.Distinct) : t.sorted = t'.sorted := by
  induction h with
  | scalar s => rfl
  | @array items items' hlength _ ih =>
    rw [distinct_array] at ht ht'
    rw [sorted_array, sorted_array]
    congr 1
    refine List.ext_getElem? fun i => ?_
    rw [List.getElem?_map, List.getElem?_map]
    rcases lt_or_ge i items.length with hi | hi
    · obtain ⟨t, hitem⟩ : ∃ t, items[i]? = some t := ⟨_, List.getElem?_eq_getElem hi⟩
      obtain ⟨t', hitem'⟩ : ∃ t', items'[i]? = some t' := ⟨_, List.getElem?_eq_getElem (hlength ▸ hi)⟩
      rw [hitem, hitem', Option.map_some, Option.map_some,
        ih i t t' hitem hitem' (ht t (List.mem_of_getElem? hitem)) (ht' t' (List.mem_of_getElem? hitem'))]
    · rw [List.getElem?_eq_none hi, List.getElem?_eq_none (hlength ▸ hi)]
  | @object members members' hkeys _ ih =>
    rw [distinct_object] at ht ht'
    rw [sorted_object, sorted_object, ← byKey_map sorted, ← byKey_map sorted]
    congr 1
    have hnodup : ∀ {ms : List (κ × Tree σ κ)}, (ms.map (·.1)).Nodup → ((ms.map fun m => (m.1, m.2.sorted)).map (·.1)).Nodup := by
      intro ms h
      rwa [List.map_map]
    have hsame : ∀ m ∈ members, ∀ m' ∈ members', m.1 = m'.1 → (m.1, m.2.sorted) = (m'.1, m'.2.sorted) := by
      intro m hm m' hm' hkey
      rw [hkey, ih m hm m' hm' hkey (ht.2 m hm) (ht'.2 m' hm')]
    refine byKey_eq_of_perm ?_ (hnodup ht.1)
    refine (List.perm_ext_iff_of_nodup (hnodup ht.1).of_map (hnodup ht'.1).of_map).mpr fun entry => ?_
    simp only [List.mem_map]
    constructor
    · rintro ⟨m, hm, rfl⟩
      obtain ⟨m', hm', hkey⟩ := List.mem_map.mp ((hkeys m.1).mp (List.mem_map_of_mem hm))
      exact ⟨m', hm', (hsame m hm m' hm' hkey.symm).symm⟩
    · rintro ⟨m', hm', rfl⟩
      obtain ⟨m, hm, hkey⟩ := List.mem_map.mp ((hkeys m'.1).mpr (List.mem_map_of_mem hm'))
      exact ⟨m, hm, hsame m hm m' hm' hkey⟩

/-- A sorted tree is sorted already. -/
theorem sorted_sorted {t : Tree σ κ} (h : t.Distinct) : t.sorted.sorted = t.sorted :=
  ((same_sorted h).sorted_eq h h.sorted).symm

/-- Trees with one sorted form are the same. -/
theorem same_of_sorted_eq {t t' : Tree σ κ} (ht : t.Distinct) (ht' : t'.Distinct) (h : t.sorted = t'.sorted) : Same t t' :=
  (same_sorted ht).trans (h ▸ (same_sorted ht').symm)

end Tree

end Text
