import EquityEval.Arithmetic.Congruence
import EquityEval.Arithmetic.Parts
import EquityEval.Fundamentals.SectorMetrics
import EquityEval.Sorting.Search

/-!
# Histograms of a sector

A histogram cuts the range of the observed values into equal bins. The cuts are rounded at a precision
that is derived from the digits of its end points, which keeps them apart; an observation goes where a
binary search among the rounded cuts puts it.
-/

namespace EquityEval.Fundamentals

open DecimalArithmetic

/-- Why there is no histogram. -/
inductive HistogramError where
  | valueError (message : String)
  | arithmetic (error : DecimalException)
deriving DecidableEq

/-- A bin with the issuers in it. -/
structure HistogramBin where
  lower : Decimal
  upper : Decimal
  count : ℕ
  issuerIds : List String
  upperInclusive : Bool
deriving DecidableEq

/-- What a histogram needs of an observation; that its value is finite is its type. -/
def CompanyObservation.Evidenced (p : CompanyObservation) : Prop :=
  WithinNumericLimits p.value ∧ p.issuerId ≠ "" ∧ p.snapshotId ≠ "" ∧ p.inputHash ≠ ""

instance (p : CompanyObservation) : Decidable p.Evidenced := inferInstanceAs (Decidable (_ ∧ _))

/-- The observations that a histogram is made of. -/
def Charted (observations : List CompanyObservation) : Prop :=
  (∀ p ∈ observations, p.Evidenced) ∧ (observations.map (·.issuerId)).Nodup

instance (observations : List CompanyObservation) : Decidable (Charted observations) := inferInstanceAs (Decidable (_ ∧ _))

/-- `min(values)` and `max(values)`: the first of the least and of the greatest ones. -/
def endPoints : List Decimal → Option (Decimal × Decimal)
  | [] => none
  | first :: rest => some (rest.foldl Decimal.minimum first, rest.foldl Decimal.maximum first)

/-- The context of the cuts, which tells the digits of the end points apart. -/
def cutContext (lower upper : Decimal) : Context :=
  ⟨(max 50 (max lower.adjusted upper.adjusted - min lower.exponent upper.exponent + 10)).toNat, .halfEven, -9999, 9999⟩

/-- The bin of a value, `min(bisect_right(boundaries, value) - 1, bin_count - 1)`; the index -1 is that of the last one. -/
def binIndex (boundaries : List Decimal) (binCount : ℕ) (value : Decimal) : ℕ :=
  match Sorting.bisectRight boundaries value with
  | 0 => binCount - 1
  | place + 1 => min place (binCount - 1)

/-- The bins between the boundaries. -/
def binsOf (boundaries : List Decimal) (binCount : ℕ) (observations : List CompanyObservation) : List HistogramBin :=
  (boundaries.zip boundaries.tail).zipIdx.map fun ((lower, upper), i) =>
    let members := (observations.filter fun p => binIndex boundaries binCount p.value = i).map (·.issuerId)
    ⟨lower, upper, members.length, members.insertionSort (· ≤ ·), i = binCount - 1⟩

/-- `histogram`. -/
def histogram (observations : List CompanyObservation) (binCount : ℤ) : Except HistogramError (List HistogramBin) :=
  if ¬ (1 ≤ binCount ∧ binCount ≤ 100) then .error (.valueError "Histogram bin count must be between 1 and 100")
  else if ¬ Charted observations then
    .error (.valueError "Histogram requires unique evidence-bearing finite company observations")
  else match endPoints (observations.map (·.value)) with
    | none => .ok []
    | some (minimum, maximum) =>
      if minimum.NumEq maximum then
        let ids := (observations.map (·.issuerId)).insertionSort (· ≤ ·)
        .ok [⟨minimum, maximum, ids.length, ids, true⟩]
      else match (cutContext minimum maximum).cuts minimum maximum binCount.toNat with
        | .error e => .error (.arithmetic e)
        | .ok boundaries => .ok (binsOf boundaries binCount.toNat observations)

/-! ### End points -/

/-- The first of the least values. -/
theorem foldl_minimum (first : Decimal) (rest : List Decimal) :
    rest.foldl Decimal.minimum first ∈ first :: rest ∧ ∀ v ∈ first :: rest, rest.foldl Decimal.minimum first ≤ v := by
  induction rest generalizing first with
  | nil => simp
  | cons next rest ih =>
    obtain ⟨hmem, hle⟩ := ih (first.minimum next)
    rw [List.foldl_cons]
    have hmin : first.minimum next ≤ first ∧ first.minimum next ≤ next := by
      simp only [Decimal.le_iff_value, Decimal.value_minimum]
      exact ⟨min_le_left _ _, min_le_right _ _⟩
    have hone : first.minimum next = first ∨ first.minimum next = next := by
      unfold Decimal.minimum
      split
      · exact Or.inr rfl
      · exact Or.inl rfl
    have hstart := hle _ List.mem_cons_self
    refine ⟨?_, ?_⟩
    · rcases List.mem_cons.mp hmem with heq | hrest
      · rw [heq]
        rcases hone with h | h <;> simp [h]
      · exact List.mem_cons_of_mem _ (List.mem_cons_of_mem _ hrest)
    · intro v hv
      rcases List.mem_cons.mp hv with rfl | hv
      · exact hstart.trans hmin.1
      · rcases List.mem_cons.mp hv with rfl | hv
        · exact hstart.trans hmin.2
        · exact hle v (List.mem_cons_of_mem _ hv)

/-- The first of the greatest values. -/
theorem foldl_maximum (first : Decimal) (rest : List Decimal) :
    rest.foldl Decimal.maximum first ∈ first :: rest ∧ ∀ v ∈ first :: rest, v ≤ rest.foldl Decimal.maximum first := by
  induction rest generalizing first with
  | nil => simp
  | cons next rest ih =>
    obtain ⟨hmem, hle⟩ := ih (first.maximum next)
    rw [List.foldl_cons]
    have hmax : first ≤ first.maximum next ∧ next ≤ first.maximum next := by
      simp only [Decimal.le_iff_value, Decimal.value_maximum]
      exact ⟨le_max_left _ _, le_max_right _ _⟩
    have hone : first.maximum next = first ∨ first.maximum next = next := by
      unfold Decimal.maximum
      split
      · exact Or.inr rfl
      · exact Or.inl rfl
    have hstart := hle _ List.mem_cons_self
    refine ⟨?_, ?_⟩
    · rcases List.mem_cons.mp hmem with heq | hrest
      · rw [heq]
        rcases hone with h | h <;> simp [h]
      · exact List.mem_cons_of_mem _ (List.mem_cons_of_mem _ hrest)
    · intro v hv
      rcases List.mem_cons.mp hv with rfl | hv
      · exact hmax.1.trans hstart
      · rcases List.mem_cons.mp hv with rfl | hv
        · exact hmax.2.trans hstart
        · exact hle v (List.mem_cons_of_mem _ hv)

/-- The end points are values, and the other values lie between them. -/
theorem endPoints_eq_some {values : List Decimal} {lower upper : Decimal} (h : endPoints values = some (lower, upper)) :
    lower ∈ values ∧ upper ∈ values ∧ ∀ v ∈ values, lower ≤ v ∧ v ≤ upper := by
  cases values with
  | nil => cases h
  | cons first rest =>
    cases h
    obtain ⟨hmin, hle⟩ := foldl_minimum first rest
    obtain ⟨hmax, hge⟩ := foldl_maximum first rest
    exact ⟨hmin, hmax, fun v hv => ⟨hle v hv, hge v hv⟩⟩

/-- Values in another order have numerically the same end points. -/
theorem endPoints_perm {values values' : List Decimal} (hperm : values.Perm values') {lower upper : Decimal}
    (h : endPoints values = some (lower, upper)) :
    ∃ lower' upper', endPoints values' = some (lower', upper') ∧ lower.NumEq lower' ∧ upper.NumEq upper' := by
  obtain ⟨hmin, hmax, hbetween⟩ := endPoints_eq_some h
  obtain ⟨⟨lower', upper'⟩, h'⟩ : ∃ ends, endPoints values' = some ends := by
    cases values' with
    | nil => cases hperm.mem_iff.mp hmin
    | cons first rest => exact ⟨_, rfl⟩
  obtain ⟨hmin', hmax', hbetween'⟩ := endPoints_eq_some h'
  refine ⟨lower', upper', h', ?_, ?_⟩
  · exact le_antisymm (hbetween _ (hperm.mem_iff.mpr hmin')).1 (hbetween' _ (hperm.mem_iff.mp hmin)).1
  · exact le_antisymm (hbetween' _ (hperm.mem_iff.mp hmax)).2 (hbetween _ (hperm.mem_iff.mpr hmax')).2

/-- The context of the cuts is fine enough for its end points. -/
theorem fine_cutContext {lower upper : Decimal} (hlower : WithinNumericLimits lower) (hupper : WithinNumericLimits upper) :
    (cutContext lower upper).Fine lower upper (max lower.adjusted upper.adjusted + 1) (min lower.exponent upper.exponent) := by
  obtain ⟨-, hle, ha⟩ := hlower
  obtain ⟨-, hle', ha'⟩ := hupper
  have hdigits : lower.exponent ≤ lower.adjusted := by unfold Decimal.adjusted Decimal.digits; omega
  have hetiny : (cutContext lower upper).etiny = -9999 - ((cutContext lower upper).prec : ℤ) + 1 := rfl
  have hprec : ((cutContext lower upper).prec : ℤ) =
      max 50 (max lower.adjusted upper.adjusted - min lower.exponent upper.exponent + 10) :=
    Int.toNat_of_nonneg (le_max_of_le_left (by norm_num))
  have hEmax : (cutContext lower upper).Emax = 9999 := rfl
  refine ⟨lower.spans.mono (by omega) (by omega), upper.spans.mono (by omega) (by omega), by omega, by omega, by omega, by omega, ?_⟩
  change (-9999 : ℤ) < 9999
  norm_num

/-! ### Bins -/

/-- The value belongs in the bin. -/
def HistogramBin.Holds (bin : HistogramBin) (value : Decimal) : Prop :=
  bin.lower ≤ value ∧ if bin.upperInclusive = true then value ≤ bin.upper else value < bin.upper

/-- Bins with numerically the same boundaries and the same issuers. -/
def HistogramBin.SameAs (a b : HistogramBin) : Prop :=
  a.lower.NumEq b.lower ∧ a.upper.NumEq b.upper ∧ a.count = b.count ∧ a.issuerIds = b.issuerIds ∧
    a.upperInclusive = b.upperInclusive

/-- The bins cover the range of the observations without gaps, and each observation is in the one where it belongs. -/
structure Partition (observations : List CompanyObservation) (bins : List HistogramBin) : Prop where
  adjacent : ∀ (i : ℕ) (a b : HistogramBin), bins[i]? = some a → bins[i + 1]? = some b → a.upper = b.lower
  first : ∀ bin ∈ bins.head?, (∀ p ∈ observations, bin.lower ≤ p.value) ∧ ∃ p ∈ observations, bin.lower.NumEq p.value
  last : ∀ bin ∈ bins.getLast?, (∀ p ∈ observations, p.value ≤ bin.upper) ∧ ∃ p ∈ observations, bin.upper.NumEq p.value
  closed : ∀ (i : ℕ) (bin : HistogramBin), bins[i]? = some bin → (bin.upperInclusive = true ↔ i + 1 = bins.length)
  placed : ∀ p ∈ observations, ∃ (i : ℕ) (bin : HistogramBin), bins[i]? = some bin ∧ p.issuerId ∈ bin.issuerIds ∧
    bin.Holds p.value ∧ ∀ (j : ℕ) (other : HistogramBin), bins[j]? = some other → p.issuerId ∈ other.issuerIds → j = i
  observed : ∀ bin ∈ bins, bin.issuerIds.Nodup ∧ ∀ id ∈ bin.issuerIds, ∃ p ∈ observations, p.issuerId = id
  counted : (∀ bin ∈ bins, bin.count = bin.issuerIds.length) ∧ (bins.map (·.count)).sum = observations.length

section
variable {boundaries : List Decimal} {n : ℕ} {observations : List CompanyObservation}

/-- The issuers of a bin. -/
def membersOf (boundaries : List Decimal) (n : ℕ) (observations : List CompanyObservation) (i : ℕ) : List String :=
  (observations.filter fun p => binIndex boundaries n p.value = i).map (·.issuerId)

/-- A bin lies between two boundaries, with the issuers whose values have its index. -/
theorem getElem?_binsOf {i : ℕ} {bin : HistogramBin} : (binsOf boundaries n observations)[i]? = some bin ↔
    ∃ lower upper, boundaries[i]? = some lower ∧ boundaries[i + 1]? = some upper ∧
      bin = ⟨lower, upper, (membersOf boundaries n observations i).length,
        (membersOf boundaries n observations i).insertionSort (· ≤ ·), i = n - 1⟩ := by
  rw [binsOf, List.getElem?_map, List.getElem?_zipIdx, Option.map_eq_some_iff]
  simp only [Option.map_eq_some_iff, List.getElem?_zip_eq_some, List.getElem?_tail, Nat.zero_add]
  constructor
  · rintro ⟨_, ⟨⟨lower, upper⟩, ⟨hlower, hupper⟩, rfl⟩, rfl⟩
    exact ⟨lower, upper, hlower, hupper, rfl⟩
  · rintro ⟨lower, upper, hlower, hupper, rfl⟩
    exact ⟨_, ⟨⟨lower, upper⟩, ⟨hlower, hupper⟩, rfl⟩, rfl⟩

/-- There is a bin between each two boundaries. -/
theorem length_binsOf (hlength : boundaries.length = n + 1) : (binsOf boundaries n observations).length = n := by
  rw [binsOf, List.length_map, List.length_zipIdx, List.length_zip, List.length_tail, hlength]
  omega

/-- The index after the first place. -/
theorem binIndex_succ {value : Decimal} {place : ℕ} (h : Sorting.bisectRight boundaries value = place + 1) :
    binIndex boundaries n value = min place (n - 1) := by
  rw [binIndex, h]

/-- The index of a value between the first boundary and the last one is that of the bin where it belongs. -/
theorem binIndex_spec (hlength : boundaries.length = n + 1) (hn : 1 ≤ n) (hincreasing : boundaries.Pairwise (· < ·))
    {value : Decimal} (hfirst : ∀ b ∈ boundaries.head?, b ≤ value) (hlast : ∀ b ∈ boundaries.getLast?, value ≤ b) :
    binIndex boundaries n value < n ∧ ∀ lower upper, boundaries[binIndex boundaries n value]? = some lower →
      boundaries[binIndex boundaries n value + 1]? = some upper →
      lower ≤ value ∧ if binIndex boundaries n value = n - 1 then value ≤ upper else value < upper := by
  obtain ⟨hplace, hspec⟩ := Sorting.bisectRight_spec (a := value) hincreasing
  have hnot : ∀ b : Decimal, ¬ value < b ↔ b ≤ value := fun b => by rw [Decimal.lt_iff_value, Decimal.le_iff_value, not_lt]
  rw [hlength] at hplace
  have hfound : 0 < Sorting.bisectRight boundaries value := by
    obtain ⟨b, hb⟩ : ∃ b, boundaries[0]? = some b := ⟨_, List.getElem?_eq_getElem (by omega)⟩
    have hle : b ≤ value := hfirst b (by rwa [List.head?_eq_getElem?])
    exact (hspec 0 b hb).mpr ((hnot b).mpr hle)
  obtain ⟨k, hk⟩ := Nat.exists_eq_succ_of_ne_zero hfound.ne'
  have hindex := binIndex_succ (n := n) hk
  generalize binIndex boundaries n value = index at hindex ⊢
  rw [hk] at hplace hspec
  refine ⟨by omega, fun lower upper hlower hupper => ⟨?_, ?_⟩⟩
  · exact (hnot lower).mp ((hspec _ lower hlower).mp (by omega))
  · rcases lt_or_ge k n with hlt | hge
    · obtain rfl : index = k := by omega
      have habove : value < upper := by
        by_contra hle
        have := (hspec (index + 1) upper hupper).mpr hle
        omega
      split
      · exact habove.le
      · exact habove
    · obtain rfl : index = n - 1 := by omega
      rw [show n - 1 + 1 = n by omega] at hupper
      rw [if_pos rfl]
      exact hlast upper (by rw [List.getLast?_eq_getElem?, hlength]; exact hupper)

/-- The items below a bound are those below the one before and those at it. -/
theorem length_filter_lt_succ {α : Type} (f : α → ℕ) (l : List α) (n : ℕ) :
    (l.filter fun a => f a < n + 1).length = (l.filter fun a => f a < n).length + (l.filter fun a => f a = n).length := by
  induction l with
  | nil => rfl
  | cons a l ih =>
    have hsucc : f a < n + 1 ↔ f a < n ∨ f a = n := Nat.lt_succ_iff_lt_or_eq
    simp only [List.filter_cons, decide_eq_true_eq]
    rcases lt_trichotomy (f a) n with hlt | heq | hgt
    · rw [if_pos (hsucc.mpr (.inl hlt)), if_pos hlt, if_neg hlt.ne, List.length_cons, List.length_cons, ih]
      omega
    · rw [if_pos (hsucc.mpr (.inr heq)), if_neg heq.not_lt, if_pos heq, List.length_cons, List.length_cons, ih]
      omega
    · rw [if_neg fun h => (hsucc.mp h).elim hgt.not_gt hgt.ne', if_neg hgt.not_gt, if_neg hgt.ne', ih]

/-- The sizes of the classes of a list by indices below a bound add up to its length. -/
theorem sum_length_filter {α : Type} (f : α → ℕ) (l : List α) (n : ℕ) :
    ((List.range n).map fun i => (l.filter fun a => f a = i).length).sum = (l.filter fun a => f a < n).length := by
  induction n with
  | zero => simp
  | succ n ih => rw [List.range_succ, List.map_append, List.sum_append, ih, List.map_singleton, List.sum_singleton, length_filter_lt_succ]

/-- The sizes of the bins are those of the classes by index. -/
theorem counts_binsOf (hlength : boundaries.length = n + 1) : (binsOf boundaries n observations).map (·.count) =
    (List.range n).map fun i => (observations.filter fun p => binIndex boundaries n p.value = i).length := by
  apply List.ext_getElem?
  intro i
  rw [List.getElem?_map, List.getElem?_map]
  rcases lt_or_ge i n with hi | hi
  · obtain ⟨bin, hbin⟩ : ∃ bin, (binsOf boundaries n observations)[i]? = some bin :=
      ⟨_, List.getElem?_eq_getElem (by rw [length_binsOf hlength]; exact hi)⟩
    obtain ⟨lower, upper, -, -, rfl⟩ := getElem?_binsOf.mp hbin
    rw [hbin, List.getElem?_range hi]
    simp [membersOf]
  · rw [List.getElem?_eq_none (by rw [length_binsOf hlength]; exact hi), List.getElem?_eq_none (by rw [List.length_range]; exact hi)]
    rfl

/-- The bins between increasing boundaries are a partition of observations in their range. -/
theorem partition_binsOf (hlength : boundaries.length = n + 1) (hn : 1 ≤ n) (hincreasing : boundaries.Pairwise (· < ·))
    (hunique : (observations.map (·.issuerId)).Nodup)
    (hfirst : ∀ b ∈ boundaries.head?, (∀ p ∈ observations, b ≤ p.value) ∧ ∃ p ∈ observations, b.NumEq p.value)
    (hlast : ∀ b ∈ boundaries.getLast?, (∀ p ∈ observations, p.value ≤ b) ∧ ∃ p ∈ observations, b.NumEq p.value) :
    Partition observations (binsOf boundaries n observations) := by
  have hspec : ∀ p ∈ observations, _ := fun p hp =>
    binIndex_spec hlength hn hincreasing (fun b hb => (hfirst b hb).1 p hp) (fun b hb => (hlast b hb).1 p hp)
  have hmem : ∀ i id, id ∈ membersOf boundaries n observations i ↔
      ∃ p ∈ observations, binIndex boundaries n p.value = i ∧ p.issuerId = id := by
    intro i id
    simp only [membersOf, List.mem_map, List.mem_filter, decide_eq_true_eq, and_assoc]
  constructor
  case adjacent =>
    intro i a b ha hb
    obtain ⟨lower, upper, -, hupper, rfl⟩ := getElem?_binsOf.mp ha
    obtain ⟨lower', upper', hlower', -, rfl⟩ := getElem?_binsOf.mp hb
    exact Option.some.inj (hupper.symm.trans hlower')
  case first =>
    intro bin hbin
    rw [List.head?_eq_getElem?] at hbin
    obtain ⟨lower, upper, hlower, -, rfl⟩ := getElem?_binsOf.mp hbin
    exact hfirst lower (by rw [List.head?_eq_getElem?]; exact hlower)
  case last =>
    intro bin hbin
    rw [List.getLast?_eq_getElem?, length_binsOf hlength] at hbin
    obtain ⟨lower, upper, -, hupper, rfl⟩ := getElem?_binsOf.mp hbin
    exact hlast upper (by rw [List.getLast?_eq_getElem?, hlength, show n + 1 - 1 = n - 1 + 1 by omega]; exact hupper)
  case closed =>
    intro i bin hbin
    have hi := (List.getElem?_eq_some_iff.mp hbin).1
    obtain ⟨lower, upper, -, -, rfl⟩ := getElem?_binsOf.mp hbin
    rw [length_binsOf hlength] at hi ⊢
    rw [decide_eq_true_eq]
    omega
  case placed =>
    intro p hp
    obtain ⟨hindex, hholds⟩ := hspec p hp
    obtain ⟨bin, hbin⟩ : ∃ bin, (binsOf boundaries n observations)[binIndex boundaries n p.value]? = some bin :=
      ⟨_, List.getElem?_eq_getElem (by rw [length_binsOf hlength]; exact hindex)⟩
    obtain ⟨lower, upper, hlower, hupper, rfl⟩ := getElem?_binsOf.mp hbin
    refine ⟨_, _, hbin, ?_, ?_, ?_⟩
    · rw [List.mem_insertionSort, hmem]
      exact ⟨p, hp, rfl, rfl⟩
    · simpa [HistogramBin.Holds] using hholds lower upper hlower hupper
    · intro j other hother hin
      obtain ⟨_, _, -, -, rfl⟩ := getElem?_binsOf.mp hother
      rw [List.mem_insertionSort, hmem] at hin
      obtain ⟨q, hq, hj, hid⟩ := hin
      rw [← hj, List.inj_on_of_nodup_map hunique hq hp hid]
  case observed =>
    intro bin hbin
    obtain ⟨i, hi⟩ := List.mem_iff_getElem?.mp hbin
    obtain ⟨_, _, -, -, rfl⟩ := getElem?_binsOf.mp hi
    constructor
    · rw [(List.perm_insertionSort _ _).nodup_iff]
      exact hunique.sublist (List.filter_sublist.map _)
    · intro id hid
      rw [List.mem_insertionSort, hmem] at hid
      obtain ⟨p, hp, -, hid⟩ := hid
      exact ⟨p, hp, hid⟩
  case counted =>
    constructor
    · intro bin hbin
      obtain ⟨i, hi⟩ := List.mem_iff_getElem?.mp hbin
      obtain ⟨_, _, -, -, rfl⟩ := getElem?_binsOf.mp hi
      exact (List.length_insertionSort _ _).symm
    · rw [counts_binsOf hlength, sum_length_filter fun p : CompanyObservation => binIndex boundaries n p.value]
      rw [List.filter_eq_self.mpr fun p hp => by simpa using (hspec p hp).1]

end

/-! ### Order -/

/-- The cuts read values only. -/
theorem cuts_congr (ctx : Context) {lower lower' upper upper' : Decimal} (hlower : lower.NumEq lower')
    (hupper : upper.NumEq upper') (parts : ℕ) :
    Alike (List.Forall₂ Decimal.NumEq) (ctx.cuts lower upper parts) (ctx.cuts lower' upper' parts) := by
  let M := MonadRelation.exceptExcept DecimalException
  refine M.bind (Context.sub_congr ctx hupper hlower) fun span span' hspan => ?_
  refine M.bind (Alike.mapM (R := Decimal.NumEq) fun i _ => ?_) fun inner inner' hinner => ?_
  · refine M.bind (Context.mul_congr ctx hspan rfl) fun _ _ hproduct => ?_
    refine M.bind (Context.div_congr ctx hproduct rfl) fun _ _ hquotient => ?_
    exact Context.add_congr ctx hlower hquotient
  · exact Alike.ok (List.rel_append hinner (.cons hupper .nil))

section
variable {boundaries boundaries' : List Decimal} (h : List.Forall₂ Decimal.NumEq boundaries boundaries')
include h

/-- Related lists have entries at the same places. -/
theorem getElem?_related (i : ℕ) : Option.Rel Decimal.NumEq boundaries[i]? boundaries'[i]? := by
  induction h generalizing i with
  | nil => exact .none
  | cons hab _ ih => cases i with
    | zero => exact .some hab
    | succ i => exact ih i

/-- A value goes at the same place among boundaries of the same values. -/
theorem binIndex_congr (n : ℕ) (value : Decimal) : binIndex boundaries n value = binIndex boundaries' n value := by
  have hplace : Sorting.bisectRight boundaries value = Sorting.bisectRight boundaries' value := by
    unfold Sorting.bisectRight
    rw [h.length_eq]
    congr 1
    funext i
    have hentry := getElem?_related h i
    generalize boundaries[i]? = x, boundaries'[i]? = y at hentry
    cases hentry with
    | none => rfl
    | some hab => simp only [Option.all_some, Decimal.lt_iff_value, show _ = _ from hab]
  rw [binIndex, binIndex, hplace]

/-- Bins between boundaries of the same values are the same, whatever the order of the observations. -/
theorem binsOf_congr {n : ℕ} (hlength : boundaries.length = n + 1) {observations observations' : List CompanyObservation}
    (hperm : observations.Perm observations') :
    List.Forall₂ HistogramBin.SameAs (binsOf boundaries n observations) (binsOf boundaries' n observations') := by
  have hlength' : boundaries'.length = n + 1 := h.length_eq ▸ hlength
  rw [List.forall₂_iff_get]
  refine ⟨(length_binsOf hlength).trans (length_binsOf hlength').symm, fun i hi hi' => ?_⟩
  obtain ⟨lower, upper, hlower, hupper, hbin⟩ := getElem?_binsOf.mp (List.getElem?_eq_getElem hi)
  obtain ⟨lower', upper', hlower', hupper', hbin'⟩ := getElem?_binsOf.mp (List.getElem?_eq_getElem hi')
  simp only [List.get_eq_getElem, hbin, hbin']
  have hmembers : (membersOf boundaries n observations i).Perm (membersOf boundaries' n observations' i) := by
    simp only [membersOf, binIndex_congr h]
    exact (hperm.filter _).map _
  have hl := getElem?_related h i
  have hu := getElem?_related h (i + 1)
  rw [hlower, hlower'] at hl
  rw [hupper, hupper'] at hu
  cases hl with
  | some hl => cases hu with
    | some hu =>
      refine ⟨hl, hu, hmembers.length_eq, ?_, rfl⟩
      exact ((List.perm_insertionSort _ _).trans (hmembers.trans (List.perm_insertionSort _ _).symm)).eq_of_pairwise'
        (List.pairwise_insertionSort (· ≤ ·) _) (List.pairwise_insertionSort (· ≤ ·) _)

end

/-- The context of the cuts of observations. -/
def contextOf (observations : List CompanyObservation) : Option Context :=
  (endPoints (observations.map (·.value))).map fun ends => cutContext ends.1 ends.2

/-- Sorted issuers do not depend on the order of the observations. -/
theorem sortedIssuers_perm {observations observations' : List CompanyObservation} (hperm : observations.Perm observations') :
    (observations.map (·.issuerId)).insertionSort (· ≤ ·) = (observations'.map (·.issuerId)).insertionSort (· ≤ ·) :=
  ((List.perm_insertionSort _ _).trans ((hperm.map _).trans (List.perm_insertionSort _ _).symm)).eq_of_pairwise'
    (List.pairwise_insertionSort (· ≤ ·) _) (List.pairwise_insertionSort (· ≤ ·) _)

/-- Observations are accepted in any order. -/
theorem Charted.perm {observations observations' : List CompanyObservation} (h : Charted observations)
    (hperm : observations.Perm observations') : Charted observations' :=
  ⟨fun p hp => h.1 p (hperm.mem_iff.mpr hp), ((hperm.map _).nodup_iff).mp h.2⟩

section
variable {observations : List CompanyObservation} {binCount : ℤ}

/-- What is returned for observations with end points. -/
theorem histogram_eq (hcount : 1 ≤ binCount ∧ binCount ≤ 100) (h : Charted observations) {lower upper : Decimal}
    (hends : endPoints (observations.map (·.value)) = some (lower, upper)) : histogram observations binCount =
      if lower.NumEq upper then
        .ok [⟨lower, upper, observations.length, (observations.map (·.issuerId)).insertionSort (· ≤ ·), true⟩]
      else match (cutContext lower upper).cuts lower upper binCount.toNat with
        | .error e => .error (.arithmetic e)
        | .ok boundaries => .ok (binsOf boundaries binCount.toNat observations) := by
  have hlength : ((observations.map (·.issuerId)).insertionSort (· ≤ ·)).length = observations.length := by
    rw [List.length_insertionSort, List.length_map]
  rw [histogram, if_neg (not_not_intro hcount), if_neg (not_not_intro h), hends]
  simp only [hlength]

/-- Equal observations are in one bin. -/
theorem partition_singleton (h : Charted observations) {lower upper : Decimal}
    (hends : endPoints (observations.map (·.value)) = some (lower, upper)) (heq : lower.NumEq upper) :
    Partition observations
      [⟨lower, upper, observations.length, (observations.map (·.issuerId)).insertionSort (· ≤ ·), true⟩] := by
  obtain ⟨hmin, hmax, hbetween⟩ := endPoints_eq_some hends
  obtain ⟨least, hleast, rfl⟩ := List.mem_map.mp hmin
  obtain ⟨greatest, hgreatest, rfl⟩ := List.mem_map.mp hmax
  have hrange : ∀ p ∈ observations, least.value ≤ p.value ∧ p.value ≤ greatest.value :=
    fun p hp => hbetween _ (List.mem_map_of_mem hp)
  have honly : ∀ (i : ℕ) (bin other : HistogramBin), [other][i]? = some bin → i = 0 ∧ bin = other := by
    intro i bin other hi
    cases i with
    | zero => exact ⟨rfl, (Option.some.inj hi).symm⟩
    | succ i => cases hi
  constructor
  case adjacent =>
    intro i a b _ hb
    exact absurd (honly _ _ _ hb).1 (Nat.succ_ne_zero i)
  case first =>
    intro bin hbin
    obtain rfl := Option.some.inj hbin
    exact ⟨fun p hp => (hrange p hp).1, least, hleast, rfl⟩
  case last =>
    intro bin hbin
    obtain rfl := Option.some.inj hbin
    exact ⟨fun p hp => (hrange p hp).2, greatest, hgreatest, rfl⟩
  case closed =>
    intro i bin hi
    obtain ⟨rfl, rfl⟩ := honly _ _ _ hi
    simp
  case placed =>
    intro p hp
    refine ⟨0, _, rfl, ?_, ⟨(hrange p hp).1, (hrange p hp).2⟩, fun j other hj _ => (honly _ _ _ hj).1⟩
    rw [List.mem_insertionSort]
    exact List.mem_map_of_mem hp
  case observed =>
    intro bin hbin
    obtain rfl := List.mem_singleton.mp hbin
    refine ⟨(List.perm_insertionSort _ _).nodup_iff.mpr h.2, fun id hid => ?_⟩
    rw [List.mem_insertionSort, List.mem_map] at hid
    exact hid
  case counted =>
    constructor
    · intro bin hbin
      obtain rfl := List.mem_singleton.mp hbin
      rw [List.length_insertionSort, List.length_map]
    · simp

/-- A histogram partitions the observations. Its bins depend on the order of the observations only through the context of
the cuts. -/
theorem histogram_partitions (hcount : 1 ≤ binCount ∧ binCount ≤ 100) (h : Charted observations) :
    ∃ bins, histogram observations binCount = .ok bins ∧ Partition observations bins ∧
      ((∃ p ∈ observations, ∃ q ∈ observations, ¬ p.value.NumEq q.value) →
        (bins.length : ℤ) = binCount ∧ ∀ bin ∈ bins, bin.lower < bin.upper) ∧
      ∀ observations', observations.Perm observations' → contextOf observations' = contextOf observations →
        ∃ bins', histogram observations' binCount = .ok bins' ∧ List.Forall₂ HistogramBin.SameAs bins bins' := by
  cases hends : endPoints (observations.map (·.value)) with
  | none =>
    obtain rfl : observations = [] := by
      cases observations with
      | nil => rfl
      | cons p rest => cases hends
    refine ⟨[], by rw [histogram, if_neg (not_not_intro hcount), if_neg (not_not_intro h), hends], ?_, by simp, ?_⟩
    · constructor <;> simp
    · intro observations' hperm _
      obtain rfl := hperm.nil_eq
      exact ⟨[], by rw [histogram, if_neg (not_not_intro hcount), if_neg (not_not_intro h), hends], .nil⟩
  | some ends =>
    obtain ⟨lower, upper⟩ := ends
    obtain ⟨hmin, hmax, hbetween⟩ := endPoints_eq_some hends
    obtain ⟨least, hleast, rfl⟩ := List.mem_map.mp hmin
    obtain ⟨greatest, hgreatest, rfl⟩ := List.mem_map.mp hmax
    have hrange : ∀ p ∈ observations, least.value ≤ p.value ∧ p.value ≤ greatest.value :=
      fun p hp => hbetween _ (List.mem_map_of_mem hp)
    -- the end points of a permutation, and with them its context
    have hpermuted : ∀ observations', observations.Perm observations' → contextOf observations' = contextOf observations →
        ∃ lower' upper', endPoints (observations'.map (·.value)) = some (lower', upper') ∧ least.value.NumEq lower' ∧
          greatest.value.NumEq upper' ∧ cutContext lower' upper' = cutContext least.value greatest.value := by
      intro observations' hperm hcontext
      obtain ⟨lower', upper', hends', hlower, hupper⟩ := endPoints_perm (hperm.map _) hends
      rw [contextOf, contextOf, hends, hends'] at hcontext
      exact ⟨lower', upper', hends', hlower, hupper, Option.some.inj hcontext⟩
    by_cases heq : least.value.NumEq greatest.value
    · refine ⟨_, by rw [histogram_eq hcount h hends, if_pos heq], partition_singleton h hends heq, ?_, ?_⟩
      · rintro ⟨p, hp, q, hq, hne⟩
        have hequal : ∀ p ∈ observations, p.value.NumEq least.value := fun p hp =>
          le_antisymm ((hrange p hp).2.trans heq.ge) (hrange p hp).1
        exact absurd ((hequal p hp).trans (hequal q hq).symm) hne
      · intro observations' hperm hcontext
        obtain ⟨lower', upper', hends', hlower, hupper, -⟩ := hpermuted observations' hperm hcontext
        have heq' : lower'.NumEq upper' := hlower.symm.trans (Eq.trans heq hupper)
        refine ⟨_, by rw [histogram_eq hcount (h.perm hperm) hends', if_pos heq'], .cons ?_ .nil⟩
        exact ⟨hlower, hupper, hperm.length_eq, sortedIssuers_perm hperm, rfl⟩
    · have hlt : least.value < greatest.value := lt_of_le_of_ne (hrange least hleast).2 heq
      have hparts : 1 ≤ binCount.toNat ∧ binCount.toNat ≤ 100 := by omega
      obtain ⟨boundaries, hcuts, hlength, hincreasing, hhead, hlast⟩ :=
        (fine_cutContext (h.1 _ hleast).1 (h.1 _ hgreatest).1).cuts_returns hlt hparts
      refine ⟨_, by rw [histogram_eq hcount h hends, if_neg heq, hcuts], ?_, fun _ => ⟨?_, ?_⟩, ?_⟩
      · refine partition_binsOf hlength hparts.1 hincreasing h.2 (fun b hb => ?_) fun b hb => ?_
        · have hfirst := hhead b hb
          exact ⟨fun p hp => (show b ≤ least.value from hfirst.le).trans (hrange p hp).1, least, hleast, hfirst⟩
        · obtain rfl := Option.some.inj (hlast.symm.trans hb)
          exact ⟨fun p hp => (hrange p hp).2, greatest, hgreatest, rfl⟩
      · rw [length_binsOf hlength]
        omega
      · intro bin hbin
        obtain ⟨i, hi⟩ := List.mem_iff_getElem?.mp hbin
        obtain ⟨lower, upper, hlower, hupper, rfl⟩ := getElem?_binsOf.mp hi
        obtain ⟨hplace, rfl⟩ := List.getElem?_eq_some_iff.mp hlower
        obtain ⟨hnext, rfl⟩ := List.getElem?_eq_some_iff.mp hupper
        exact List.pairwise_iff_getElem.mp hincreasing i (i + 1) hplace hnext i.lt_succ_self
      · intro observations' hperm hcontext
        obtain ⟨lower', upper', hends', hlower, hupper, hsame⟩ := hpermuted observations' hperm hcontext
        have hne' : ¬ lower'.NumEq upper' := fun heq' => heq (hlower.trans (Eq.trans heq' hupper.symm))
        obtain ⟨boundaries', hcuts', hrelated⟩ :=
          (cuts_congr (cutContext least.value greatest.value) hlower hupper binCount.toNat).exists_of_ok hcuts
        rw [← hsame] at hcuts'
        exact ⟨_, by rw [histogram_eq hcount (h.perm hperm) hends', if_neg hne', hcuts'], binsOf_congr hrelated hlength hperm⟩

/-- Two of three values are in the first half. -/
theorem histogram_partitions_sample :
    let observations := [⟨"A", "a", .ofInt 0, "h"⟩, ⟨"B", "b", .ofInt 3, "h"⟩, ⟨"C", "c", .ofInt 1, "h"⟩]
    ∃ bins, histogram observations 2 = .ok bins ∧ Partition observations bins ∧
      ((∃ p ∈ observations, ∃ q ∈ observations, ¬ p.value.NumEq q.value) →
        (bins.length : ℤ) = 2 ∧ ∀ bin ∈ bins, bin.lower < bin.upper) ∧
      ∀ observations', observations.Perm observations' → contextOf observations' = contextOf observations →
        ∃ bins', histogram observations' 2 = .ok bins' ∧ List.Forall₂ HistogramBin.SameAs bins bins' :=
  histogram_partitions (by decide) (by decide)

/-- Observations whose least value is spelled in two ways. -/
def spelledZeros : List CompanyObservation :=
  [⟨"A", "a", ⟨false, 0, 0⟩, "h"⟩, ⟨"B", "b", ⟨false, 0, -100⟩, "h"⟩, ⟨"C", "c", ⟨false, 1, 0⟩, "h"⟩]

/-- In the reverse order, the precision is derived from the other spelling of the least value, and the cuts differ. -/
theorem spelledZeros_reverse : Charted spelledZeros ∧ spelledZeros.Perm spelledZeros.reverse ∧
    ∃ bins bins', histogram spelledZeros 3 = .ok bins ∧ histogram spelledZeros.reverse 3 = .ok bins' ∧
      ¬ List.Forall₂ HistogramBin.SameAs bins bins' := by
  refine ⟨by decide, (List.reverse_perm _).symm, _, _, rfl, rfl, fun h => ?_⟩
  cases h with
  | cons hfirst _ => exact absurd hfirst.2.1 (by decide +kernel)

end

end EquityEval.Fundamentals
