import EquityEval.Text.Scalars

/-!
# Canonical manifests

A manifest is written with sorted keys, without white space and with as few escapes as possible. A
text is accepted if it is what its value is written as. The interpreter limits the digits of integers
and the nesting of values.
-/

namespace EquityEval.Fundamentals

open Text Text.Json

/-- A value of null, booleans, integers, strings, lists and dictionaries with strings for keys. -/
abbrev Json : Type := Tree Scalar (List CodePoint)

/-- A value; a dictionary has a key once. -/
structure Value where
  tree : Json
  distinct : tree.Distinct

/-- How many digits the interpreter converts between integers and texts, and how deep it recurs. -/
structure Limits where
  digits : ℕ
  nesting : ℕ

/-- How many digits a scalar has as an integer. -/
def scalarDigits : Scalar → ℕ
  | .int n => (Nat.toDigits 10 n.natAbs).length
  | _ => 0

/-- The integers of a value are converted to text, and its nesting is within the recursion. -/
def Limits.Fits (limits : Limits) (v : Json) : Prop :=
  v.depth ≤ limits.nesting ∧ v.All (fun s => scalarDigits s ≤ limits.digits) fun _ => True

instance (limits : Limits) (v : Json) : Decidable (limits.Fits v) := inferInstanceAs (Decidable (_ ∧ _))

/-- `json.dumps(value, sort_keys=True, ensure_ascii=False, separators=(",", ":"), allow_nan=False)`. -/
def dumps (limits : Limits) (v : Json) : Option (List CodePoint) :=
  if limits.Fits v then some (print Scalar.text quoted v.sorted) else none

/-! ### Loading -/

/-- A scalar of a text that is loaded: one of a manifest, or a number with a point or an exponent, or one that is not
finite. -/
inductive Loaded where
  | plain (s : Scalar)
  | float

/-- The first half of a pair. -/
def HighSurrogate (n : ℕ) : Prop := 0xD800 ≤ n ∧ n < 0xDC00

/-- The second half of a pair. -/
def LowSurrogate (n : ℕ) : Prop := 0xDC00 ≤ n ∧ n < 0xE000

instance (n : ℕ) : Decidable (HighSurrogate n) := inferInstanceAs (Decidable (_ ∧ _))

instance (n : ℕ) : Decidable (LowSurrogate n) := inferInstanceAs (Decidable (_ ∧ _))

/-- The code point of a pair. -/
def joinSurrogates (high low : ℕ) : CodePoint := Fin.ofNat _ (0x10000 + (high - 0xD800) * 0x400 + (low - 0xDC00))

/-- The string of its pieces: two escapes that are a pair are one character. -/
def joinPieces : List Piece → List CodePoint
  | [] => []
  | .char c :: rest => c :: joinPieces rest
  | .unit n :: rest =>
    match rest with
    | .unit low :: after =>
      if HighSurrogate n ∧ LowSurrogate low then joinSurrogates n low :: joinPieces after
      else Fin.ofNat _ n :: joinPieces (.unit low :: after)
    | rest => Fin.ofNat _ n :: joinPieces rest

/-- The integer of a number without a point and an exponent. -/
def intValue (token : NumberToken) : ℤ :=
  if token.negative then -(digitsValue token.integral : ℤ) else digitsValue token.integral

/-- The scalar of a literal. -/
def loadScalar (limits : Limits) : Literal → Option Loaded
  | .null => some (.plain .null)
  | .bool b => some (.plain (.bool b))
  | .number token =>
    if token.fraction = none ∧ token.exponent = none then
      if token.integral.length ≤ limits.digits then some (.plain (.int (intValue token))) else none
    else some .float
  | .string pieces => some (.plain (.str (joinPieces pieces)))
  | .nonfinite => some .float

/-- `pairs`: a key that comes twice is refused. -/
def pairs {α : Type} (items : List (List CodePoint × α)) : Option (List (List CodePoint × α)) :=
  if (items.map (·.1)).Nodup then some items else none

/-- `json.loads(text, object_pairs_hook=pairs)`. -/
def loads (limits : Limits) (text : List CodePoint) : Option (Tree Loaded (List CodePoint)) :=
  (parse text).bind fun tree =>
    if tree.depth ≤ limits.nesting then tree.traverse (loadScalar limits) (fun pieces => some (joinPieces pieces)) pairs
    else none

/-! ### Canonical text -/

/-- `_plain` of a scalar. -/
def plainScalar : Loaded → Option Scalar
  | .plain s => some s
  | .float => none

/-- `_plain` of what a text may be loaded as; it is what a list or dictionary of plain values is. -/
def plain (value : Tree Loaded (List CodePoint)) : Option Json := value.traverse plainScalar some some

/-- `canonical_json` of a loaded value. -/
def canonicalJson (limits : Limits) (value : Tree Loaded (List CodePoint)) : Option (List CodePoint) :=
  (plain value).bind (dumps limits)

/-- A value as one that may be loaded. -/
def Json.loaded (v : Json) : Tree Loaded (List CodePoint) := v.map .plain fun key => key

/-- `parse_canonical(text)`. -/
def parseCanonical (limits : Limits) (text : List CodePoint) : Option (Tree Loaded (List CodePoint)) :=
  (loads limits text).bind fun value => if canonicalJson limits value = some text then some value else none

/-! ### Reading what is written -/

variable {limits : Limits}

/-- A unit that is no first half of a pair stands for itself. -/
theorem joinPieces_unit {n : ℕ} (hn : ¬ HighSurrogate n) (rest : List Piece) :
    joinPieces (.unit n :: rest) = Fin.ofNat _ n :: joinPieces rest := by
  cases rest with
  | nil => rfl
  | cons first rest =>
    cases first with
    | char c => rfl
    | unit low => exact if_neg fun h => hn h.1

/-- A string is put together from its pieces. -/
theorem joinPieces_map_piece (s : List CodePoint) : joinPieces (s.map piece) = s := by
  induction s with
  | nil => rfl
  | cons c s ih =>
    rw [List.map_cons]
    rcases piece_cases c with hpiece | ⟨hcontrol, hpiece⟩
    · rw [hpiece, joinPieces, ih]
    · have hhigh : ¬ HighSurrogate c.val := fun h => absurd h.1 (by omega)
      rw [hpiece, joinPieces_unit hhigh, ih, Fin.ofNat_val_eq_self]

/-- An integer is the value of what is written for it. -/
theorem intValue_intToken (n : ℤ) : intValue (intToken n) = n := by
  simp only [intValue, intToken, digitsValue_toDigits, decide_eq_true_eq]
  split <;> omega

/-- A scalar is loaded from what is written for it, if its digits are converted. -/
theorem loadScalar_literal {s : Scalar} (h : scalarDigits s ≤ limits.digits) : loadScalar limits s.literal = some (.plain s) := by
  cases s with
  | null => rfl
  | bool b => rfl
  | int n =>
    have hlength : (intToken n).integral.length ≤ limits.digits := by
      rw [intToken, ascii, List.length_map]
      exact h
    simp only [Scalar.literal, loadScalar]
    rw [if_pos ⟨rfl, rfl⟩, if_pos hlength, intValue_intToken]
  | str s => simp only [Scalar.literal, loadScalar, joinPieces_map_piece]

/-- The text of a tree is read as its scalars and keys are written. -/
theorem parse_print_scalars (t : Json) : parse (print Scalar.text quoted t) = some (t.map Scalar.literal (List.map piece)) :=
  parse_print (fun s _ _ h => s.spells h) (fun k _ rest => spells_quoted k rest)
    (t.all_of_forall (fun _ => trivial) fun _ => trivial)

/-- The plain value of a value that may be loaded. -/
theorem plain_loaded {v : Json} (hdistinct : v.Distinct) : plain v.loaded = some v := by
  have hread : (v.map Loaded.plain fun key => key).traverse plainScalar some some = some (v.map (fun s => s) fun key => key) :=
    Tree.traverse_map (fun s _ => (rfl : plainScalar (.plain s) = some s)) (fun _ _ => rfl) (fun _ _ => rfl)
      (v.all_of_forall (fun _ => trivial) fun _ => trivial) hdistinct
  rw [Tree.map_eq_self (v.all_of_forall (fun _ => rfl) fun _ => trivial)] at hread
  exact hread

/-- The canonical text of a value. -/
theorem canonicalJson_loaded {v : Json} (hdistinct : v.Distinct) : canonicalJson limits v.loaded = dumps limits v := by
  rw [canonicalJson, plain_loaded hdistinct, Option.bind_some]

/-- The sorted value has the limits of the value. -/
theorem Limits.fits_sorted (v : Json) : limits.Fits v.sorted ↔ limits.Fits v := by
  rw [Limits.Fits, Limits.Fits, Tree.depth_sorted, Tree.all_sorted]

/-- The text of a value is loaded as the value with its keys sorted. -/
theorem loads_print {v : Json} (hdistinct : v.Distinct) (hfits : limits.Fits v) :
    loads limits (print Scalar.text quoted v.sorted) = some (Json.loaded v.sorted) := by
  obtain ⟨hdepth, hall⟩ := (Limits.fits_sorted v).mpr hfits
  rw [loads, parse_print_scalars, Option.bind_some, Tree.depth_map, if_pos hdepth]
  refine Tree.traverse_map (fun s hs => loadScalar_literal hs) (fun key _ => ?_) (fun members hnodup => if_pos hnodup) hall
    hdistinct.sorted
  rw [joinPieces_map_piece]

/-- The text of a value is accepted, as the value with its keys sorted. -/
theorem parseCanonical_dumps {v : Json} {text : List CodePoint} (hdistinct : v.Distinct) (htext : dumps limits v = some text) :
    parseCanonical limits text = some (Json.loaded v.sorted) := by
  obtain ⟨hfits, htext⟩ := Option.ite_none_right_eq_some.mp htext
  cases htext
  have hcanonical : canonicalJson limits (Json.loaded v.sorted) = some (print Scalar.text quoted v.sorted) := by
    rw [canonicalJson_loaded hdistinct.sorted, dumps, if_pos ((Limits.fits_sorted v).mpr hfits), Tree.sorted_sorted hdistinct]
  rw [parseCanonical, loads_print hdistinct hfits, Option.bind_some, if_pos hcanonical]

/-- A text that is accepted is that of a value. -/
theorem exists_of_parseCanonical {text : List CodePoint} {w : Tree Loaded (List CodePoint)}
    (h : parseCanonical limits text = some w) : ∃ v : Json, v.Distinct ∧ w = v.loaded ∧ dumps limits v = some text := by
  obtain ⟨value, hloads, hvalue⟩ := Option.bind_eq_some_iff.mp h
  obtain ⟨hcanonical, hw⟩ := Option.ite_none_right_eq_some.mp hvalue
  cases hw
  obtain ⟨v, hplain, hdumps⟩ := Option.bind_eq_some_iff.mp hcanonical
  have hloaded : w = v.loaded := Tree.eq_map_of_traverse (fun s s' hs => by cases s <;> cases hs; rfl) hplain
  obtain ⟨tree, -, htree⟩ := Option.bind_eq_some_iff.mp hloads
  obtain ⟨-, htraverse⟩ := Option.ite_none_right_eq_some.mp htree
  have hdistinct : w.Distinct := by
    refine Tree.distinct_of_traverse (fun members checked hchecked => ?_) htraverse
    obtain ⟨hnodup, hsome⟩ := Option.ite_none_right_eq_some.mp hchecked
    cases hsome
    exact ⟨hnodup, fun m hm => hm⟩
  rw [hloaded, Json.loaded, Tree.distinct_map] at hdistinct
  exact ⟨v, hdistinct, hloaded, hdumps⟩

end EquityEval.Fundamentals
