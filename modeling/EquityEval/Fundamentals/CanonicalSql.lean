import EquityEval.Fundamentals.Canonical

/-!
# Canonical manifests in the database

The database reads a manifest as `jsonb`, which keeps the last of the members with one key, and writes
it by a function of its own. What is written is the text of the interpreter: keys compare by their
bytes as they do by their code points, and the escapes are the same.
-/

namespace EquityEval.Fundamentals

open Text Text.Json CodePoint

/-! ### Reading `jsonb` -/

/-- A `numeric`: an integer divided by as many powers of ten as it has digits after the point. -/
structure Numeric where
  coefficient : ℤ
  scale : ℕ
deriving DecidableEq

/-- A scalar of `jsonb`. -/
inductive JsonbScalar where
  | null
  | bool (b : Bool)
  | numeric (n : Numeric)
  | str (s : List CodePoint)
deriving DecidableEq

/-- A value of `jsonb`. -/
abbrev Jsonb : Type := Tree JsonbScalar (List CodePoint)

/-- How many digits a `numeric` may have before and after its point, and how deep the database recurs. -/
structure DatabaseLimits where
  digits : ℕ
  scale : ℕ
  nesting : ℕ

/-- `numeric_in`. -/
def numericIn (limits : DatabaseLimits) (token : NumberToken) : Option Numeric :=
  let fraction := token.fraction.getD []
  let exponent : ℤ := match token.exponent with
    | none => 0
    | some (negative, digits) => if negative then -(digitsValue digits : ℤ) else digitsValue digits
  let shift := exponent - fraction.length
  let magnitude := digitsValue (token.integral ++ fraction) * 10 ^ shift.toNat
  let scale := (-shift).toNat
  if (Nat.toDigits 10 (magnitude / 10 ^ scale)).length ≤ limits.digits ∧ scale ≤ limits.scale then
    some ⟨if token.negative then -(magnitude : ℤ) else magnitude, scale⟩
  else none

/-- The string of its pieces: its bytes encode no surrogate, and an escape is no NUL and is that of a surrogate only as
the half of a pair. -/
def decodePieces : List Piece → Option (List CodePoint)
  | [] => some []
  | .char c :: rest => if c.Surrogate then none else (decodePieces rest).map (c :: ·)
  | .unit n :: rest =>
    if HighSurrogate n then
      match rest with
      | .unit low :: after => if LowSurrogate low then (decodePieces after).map (joinSurrogates n low :: ·) else none
      | _ => none
    else if LowSurrogate n ∨ n = 0 then none
    else (decodePieces rest).map (Fin.ofNat _ n :: ·)

/-- A scalar of a text. -/
def jsonbScalar (limits : DatabaseLimits) : Literal → Option JsonbScalar
  | .null => some .null
  | .bool b => some (.bool b)
  | .number token => (numericIn limits token).map .numeric
  | .string pieces => (decodePieces pieces).map .str
  | .nonfinite => none

/-- The last of the members with one key. -/
def lastMembers {α : Type} (members : List (List CodePoint × α)) : List (List CodePoint × α) :=
  members.foldr (fun m kept => if m.1 ∈ kept.map (·.1) then kept else m :: kept) []

/-- `text::jsonb`. -/
def jsonbIn (limits : DatabaseLimits) (text : List CodePoint) : Option Jsonb :=
  (parse text).bind fun tree =>
    if tree.depth ≤ limits.nesting then tree.traverse (jsonbScalar limits) decodePieces fun members => some (lastMembers members)
    else none

/-! ### Writing `jsonb` -/

/-- `escape_json` of a character. -/
def escapeJson (c : CodePoint) : List CodePoint :=
  if c = ofChar '\x08' then [ofChar '\\', ofChar 'b']
  else if c = ofChar '\x0c' then [ofChar '\\', ofChar 'f']
  else if c = ofChar '\n' then [ofChar '\\', ofChar 'n']
  else if c = ofChar '\r' then [ofChar '\\', ofChar 'r']
  else if c = ofChar '\t' then [ofChar '\\', ofChar 't']
  else if c = ofChar '"' then [ofChar '\\', ofChar '"']
  else if c = ofChar '\\' then [ofChar '\\', ofChar '\\']
  else if c.val < 32 then ofChar '\\' :: ofChar 'u' :: ascii (hexText 4 c.val)
  else [c]

/-- `to_jsonb(text)::text`. -/
def jsonbString (s : List CodePoint) : List CodePoint := ofChar '"' :: s.flatMap escapeJson ++ [ofChar '"']

/-- `numeric_out`. -/
def numericOut (n : Numeric) : List CodePoint :=
  let digits := Nat.toDigits 10 (n.coefficient.natAbs / 10 ^ n.scale)
  let fraction := Nat.toDigits 10 (n.coefficient.natAbs % 10 ^ n.scale)
  ascii ((if n.coefficient < 0 then ['-'] else []) ++ digits ++
    if n.scale = 0 then [] else '.' :: (List.replicate (n.scale - fraction.length) '0' ++ fraction))

/-- `'^-?(0|[1-9][0-9]*)$'`. -/
def isIntegerText (text : List CodePoint) : Bool :=
  let digits := (takeMinus text).2
  digits.all isDigit && (digits = [ofChar '0'] || decide (∃ d ∈ digits.head?, d ≠ ofChar '0'))

/-- `fundamentals_canonical` of a scalar. -/
def canonicalScalar : JsonbScalar → Option (List CodePoint)
  | .null => some (ascii ['n', 'u', 'l', 'l'])
  | .bool b => some (ascii (if b then ['t', 'r', 'u', 'e'] else ['f', 'a', 'l', 's', 'e']))
  | .numeric n => if isIntegerText (numericOut n) = true then some (numericOut n) else none
  | .str s => some (jsonbString s)

/-- Members in the order of the bytes of their keys. -/
def byBytes {α : Type} (members : List (List CodePoint × α)) : List (List CodePoint × α) :=
  members.insertionSort fun m m' => utf8 m.1 ≤ utf8 m'.1

/-- A member, when the text of its value is there. -/
def memberText (m : List CodePoint × Option (List CodePoint)) : Option (List CodePoint) :=
  m.2.map fun text => jsonbString m.1 ++ ofChar ':' :: text

/-- `fundamentals_canonical(p)`. -/
def fundamentalsCanonical : Jsonb → Option (List CodePoint) :=
  Tree.fold canonicalScalar
    (fun items => (items.mapM fun item => item).map fun texts => ofChar '[' :: joined (ofChar ',') texts ++ [ofChar ']'])
    fun members => ((byBytes members).mapM memberText).map fun texts =>
      ofChar '\x7b' :: joined (ofChar ',') texts ++ [ofChar '\x7d']

@[simp] theorem fundamentalsCanonical_scalar (s : JsonbScalar) : fundamentalsCanonical (.scalar s) = canonicalScalar s := rfl

@[simp] theorem fundamentalsCanonical_array (items : List Jsonb) :
    fundamentalsCanonical (.array items) =
      (items.mapM fundamentalsCanonical).map fun texts => ofChar '[' :: joined (ofChar ',') texts ++ [ofChar ']'] := by
  rw [fundamentalsCanonical, Tree.fold_array, List.mapM_map]
  rfl

/-- Bytes order members as code points do. -/
theorem byBytes_eq_byKey {α : Type} (members : List (List CodePoint × α)) : byBytes members = Tree.byKey members := by
  have hsort := List.map_insertionSort (fun m m' : List CodePoint × α => utf8 m.1 ≤ utf8 m'.1) (fun m m' => m.1 ≤ m'.1)
    (fun m => m) members fun _ _ _ _ => utf8_le_utf8
  rwa [List.map_id', List.map_id'] at hsort

@[simp] theorem fundamentalsCanonical_object (members : List (List CodePoint × Jsonb)) :
    fundamentalsCanonical (.object members) =
      ((Tree.byKey members).mapM fun m => memberText (m.1, fundamentalsCanonical m.2)).map fun texts =>
        ofChar '\x7b' :: joined (ofChar ',') texts ++ [ofChar '\x7d'] := by
  rw [fundamentalsCanonical, Tree.fold_object, byBytes_eq_byKey, Tree.byKey_map, List.mapM_map]
  rfl

/-- The database escapes characters as the interpreter does. -/
theorem escapeJson_eq_escape (c : CodePoint) : escapeJson c = escape c := by
  by_cases hspecial : c ∈ ascii ['\x08', '\x0c', '\n', '\r', '\t', '"', '\\']
  · simp only [ascii, List.map_cons, List.map_nil, List.mem_cons, List.not_mem_nil, or_false] at hspecial
    rcases hspecial with rfl | rfl | rfl | rfl | rfl | rfl | rfl <;> rfl
  · simp only [ascii, List.map_cons, List.map_nil, List.mem_cons, List.not_mem_nil, or_false, not_or] at hspecial
    obtain ⟨hback, hfeed, hline, hreturn, htab, hquote, hbackslash⟩ := hspecial
    have hname : shortName c = none := by
      simp only [shortName, hback, hfeed, hline, hreturn, htab, hquote, hbackslash, or_self, if_false]
    simp only [escapeJson, escape, hname, hback, hfeed, hline, hreturn, htab, hquote, hbackslash, if_false]

/-- The database quotes strings as the interpreter does. -/
theorem jsonbString_eq_quoted (s : List CodePoint) : jsonbString s = quoted s := by
  rw [jsonbString, quoted, funext escapeJson_eq_escape]

/-! ### Integers -/

/-- A number without digits after its point is written as an integer. -/
theorem numericOut_int (n : ℤ) : numericOut ⟨n, 0⟩ = intText n := by
  simp [numericOut, intText]

/-- What an integer is written as is an integer. -/
theorem isIntegerText_intText (n : ℤ) : isIntegerText (intText n) = true := by
  have hsign := takeMinus_digits (decide (n < 0)) n.natAbs []
  simp only [decide_eq_true_eq, List.append_nil] at hsign
  have hminus : (takeMinus (intText n)).2 = ascii (Nat.toDigits 10 n.natAbs) := congrArg Prod.snd hsign
  obtain ⟨d, ds, hcons⟩ := List.exists_cons_of_ne_nil (Nat.toDigits_ne_nil (n := n.natAbs) (b := 10))
  simp only [isIntegerText, hminus, Bool.and_eq_true, Bool.or_eq_true, decide_eq_true_eq, List.all_eq_true]
  refine ⟨fun c hc => isDigit_of_mem_digits hc, ?_⟩
  by_cases hzero : d = '0'
  · rw [hzero] at hcons
    rw [toDigits_zero_head hcons, Nat.toDigits_zero]
    exact Or.inl rfl
  · rw [hcons]
    exact Or.inr ⟨ofChar d, rfl, fun heq => hzero (CodePoint.ofChar_injective heq)⟩

/-- A number is written as an integer only if it has no digits after its point. -/
theorem scale_of_isIntegerText {n : Numeric} (h : isIntegerText (numericOut n) = true) : n.scale = 0 := by
  by_contra hscale
  simp only [isIntegerText, Bool.and_eq_true, List.all_eq_true] at h
  have hpoint : ofChar '.' ∈ (takeMinus (numericOut n)).2 := by
    have hsign := takeMinus_digits (decide (n.coefficient < 0)) (n.coefficient.natAbs / 10 ^ n.scale)
      (ascii ('.' :: (List.replicate (n.scale - (Nat.toDigits 10 (n.coefficient.natAbs % 10 ^ n.scale)).length) '0' ++
        Nat.toDigits 10 (n.coefficient.natAbs % 10 ^ n.scale))))
    simp only [decide_eq_true_eq, ascii, ← List.map_append] at hsign
    simp only [numericOut, if_neg hscale, ascii, hsign]
    simp
  have hdigit := h.1 _ hpoint
  cases hdigit

/-! ### Writing a value -/

/-- A scalar of a value in the database. -/
def toJsonb : Scalar → JsonbScalar
  | .null => .null
  | .bool b => .bool b
  | .int n => .numeric ⟨n, 0⟩
  | .str s => .str s

/-- A scalar of the database as one of a value. -/
def ofJsonb : JsonbScalar → Scalar
  | .null => .null
  | .bool b => .bool b
  | .numeric n => .int n.coefficient
  | .str s => .str s

/-- The database writes a scalar as the interpreter does. -/
theorem canonicalScalar_toJsonb (s : Scalar) : canonicalScalar (toJsonb s) = some s.text := by
  cases s with
  | null => rfl
  | bool b => cases b <;> rfl
  | int n => rw [toJsonb, canonicalScalar, numericOut_int, if_pos (isIntegerText_intText n), Scalar.text]
  | str s => rw [toJsonb, canonicalScalar, jsonbString_eq_quoted, Scalar.text]

/-- The database writes a value as the interpreter does. -/
theorem fundamentalsCanonical_map (v : Json) :
    fundamentalsCanonical (v.map toJsonb fun key => key) = some (print Scalar.text quoted v.sorted) := by
  induction v using Tree.induct with
  | scalar s => exact canonicalScalar_toJsonb s
  | array items ih =>
    have htexts : (items.map fun t => t.map toJsonb fun key => key).mapM fundamentalsCanonical =
        some (items.map fun t => print Scalar.text quoted t.sorted) := by
      rw [List.mapM_map]
      exact Tree.mapM_eq_some ih
    rw [Tree.map_array, fundamentalsCanonical_array, htexts, Option.map_some, Tree.sorted_array, print_array, List.map_map]
    rfl
  | object members ih =>
    have htexts : (Tree.byKey (members.map fun m => (m.1, m.2.map toJsonb fun key => key))).mapM
          (fun m => memberText (m.1, fundamentalsCanonical m.2)) =
        some ((Tree.byKey members).map fun m => quoted m.1 ++ ofChar ':' :: print Scalar.text quoted m.2.sorted) := by
      rw [Tree.byKey_map, List.mapM_map]
      refine Tree.mapM_eq_some fun m hm => ?_
      simp only [Function.comp_apply, ih m (Tree.mem_byKey.mp hm), memberText, Option.map_some, jsonbString_eq_quoted]
    rw [Tree.map_object, fundamentalsCanonical_object, htexts, Option.map_some, Tree.sorted_object, print_object, List.map_map]
    rfl

/-- What the database writes is a value. -/
theorem toJsonb_ofJsonb {j : Jsonb} {text : List CodePoint} (h : fundamentalsCanonical j = some text) :
    j.All (fun s => toJsonb (ofJsonb s) = s) fun _ => True := by
  induction j using Tree.induct generalizing text with
  | scalar s =>
    cases s with
    | numeric n =>
      have hinteger : isIntegerText (numericOut n) = true := (Option.ite_none_right_eq_some.mp h).1
      have hscale := scale_of_isIntegerText hinteger
      cases n
      subst hscale
      rfl
    | _ => rfl
  | array items ih =>
    rw [fundamentalsCanonical_array] at h
    obtain ⟨texts, htexts, -⟩ := Option.map_eq_some_iff.mp h
    rw [Tree.all_array]
    intro t ht
    obtain ⟨out, hout⟩ := Tree.exists_of_mapM htexts ht
    exact ih t ht hout
  | object members ih =>
    rw [fundamentalsCanonical_object] at h
    obtain ⟨texts, htexts, -⟩ := Option.map_eq_some_iff.mp h
    rw [Tree.all_object]
    intro m hm
    obtain ⟨out, hout⟩ := Tree.exists_of_mapM htexts (Tree.mem_byKey.mpr hm)
    obtain ⟨value, hvalue, -⟩ := Option.map_eq_some_iff.mp hout
    exact ⟨trivial, ih m hm hvalue⟩

/-! ### Reading a value -/

/-- A piece that both platforms read: no escape of NUL, and no surrogate. -/
def PortablePiece : Piece → Prop
  | .char c => ¬ c.Surrogate
  | .unit n => n ≠ 0

instance : DecidablePred PortablePiece := fun p => by
  cases p <;> unfold PortablePiece <;> infer_instance

/-- A literal that both platforms read: the pieces of its string are portable, and its digits are converted if it is an
integer. -/
def PortableLiteral (limits : Limits) (database : DatabaseLimits) : Literal → Prop
  | .number token => token.fraction = none → token.exponent = none →
      token.integral.length ≤ limits.digits ∧ token.integral.length ≤ database.digits
  | .string pieces => ∀ p ∈ pieces, PortablePiece p
  | _ => True

instance (limits : Limits) (database : DatabaseLimits) : DecidablePred (PortableLiteral limits database) := fun l => by
  cases l <;> unfold PortableLiteral <;> infer_instance

/-- A text without escapes of NUL and surrogates whose integers and nesting are within the limits of both platforms. -/
def Portable (limits : Limits) (database : DatabaseLimits) (text : List CodePoint) : Prop :=
  ∀ tree, parse text = some tree → tree.depth ≤ limits.nesting ∧ tree.depth ≤ database.nesting ∧
    tree.All (PortableLiteral limits database) fun pieces => ∀ p ∈ pieces, PortablePiece p

/-- A unit that is no half of a pair and no NUL stands for itself. -/
theorem decodePieces_unit {n : ℕ} (hhigh : ¬ HighSurrogate n) (hlow : ¬ (LowSurrogate n ∨ n = 0)) (rest : List Piece) :
    decodePieces (.unit n :: rest) = (decodePieces rest).map (Fin.ofNat _ n :: ·) := by
  rw [decodePieces.eq_def]
  simp only [if_neg hhigh, if_neg hlow]

/-- A portable string is read from its pieces. -/
theorem decodePieces_map_piece {s : List CodePoint} (h : ∀ p ∈ s.map piece, PortablePiece p) :
    decodePieces (s.map piece) = some s := by
  induction s with
  | nil => rfl
  | cons c s ih =>
    rw [List.map_cons, List.forall_mem_cons] at h
    obtain ⟨hfirst, hrest⟩ := h
    rw [List.map_cons]
    rcases piece_cases c with hpiece | ⟨hcontrol, hpiece⟩
    · rw [hpiece] at hfirst ⊢
      rw [decodePieces, if_neg hfirst, ih hrest, Option.map_some]
    · rw [hpiece] at hfirst ⊢
      have hhigh : ¬ HighSurrogate c.val := fun h => absurd h.1 (by omega)
      have hlow : ¬ (LowSurrogate c.val ∨ c.val = 0) := fun h => h.elim (fun h => absurd h.1 (by omega)) hfirst
      rw [decodePieces_unit hhigh hlow, ih hrest, Option.map_some, Fin.ofNat_val_eq_self]

/-- An integer is read from its digits. -/
theorem numericIn_intToken {database : DatabaseLimits} {n : ℤ} (h : (Nat.toDigits 10 n.natAbs).length ≤ database.digits) :
    numericIn database (intToken n) = some ⟨n, 0⟩ := by
  have hsign : (if decide (n < 0) = true then -(n.natAbs : ℤ) else n.natAbs) = n := by
    by_cases hn : n < 0
    · rw [if_pos (decide_eq_true hn)]
      omega
    · rw [if_neg (by rwa [decide_eq_true_eq])]
      omega
  simp only [numericIn, intToken, Option.getD_none, List.append_nil, List.length_nil, digitsValue_toDigits]
  change (if (Nat.toDigits 10 (n.natAbs * 1 / 1)).length ≤ database.digits ∧ 0 ≤ database.scale then
    some (⟨if decide (n < 0) = true then -((n.natAbs * 1 : ℕ) : ℤ) else (n.natAbs * 1 : ℕ), 0⟩ : Numeric) else none) = _
  rw [Nat.mul_one, Nat.div_one, if_pos ⟨h, Nat.zero_le _⟩, hsign]

/-- A portable scalar is read from what is written for it. -/
theorem jsonbScalar_literal {limits : Limits} {database : DatabaseLimits} {s : Scalar}
    (h : PortableLiteral limits database s.literal) : jsonbScalar database s.literal = some (toJsonb s) := by
  cases s with
  | null => rfl
  | bool b => rfl
  | int n =>
    have hdigits := (h rfl rfl).2
    simp only [intToken, ascii, List.length_map] at hdigits
    rw [Scalar.literal, jsonbScalar, numericIn_intToken hdigits, Option.map_some, toJsonb]
  | str s => rw [Scalar.literal, jsonbScalar, decodePieces_map_piece h, Option.map_some, toJsonb]

/-- The last members have their keys once, and are members. -/
theorem lastMembers_spec {α : Type} (members : List (List CodePoint × α)) :
    ((lastMembers members).map (·.1)).Nodup ∧ ∀ m ∈ lastMembers members, m ∈ members := by
  induction members with
  | nil => exact ⟨List.nodup_nil, fun m hm => hm⟩
  | cons m members ih =>
    have hcons : lastMembers (m :: members) =
        if m.1 ∈ (lastMembers members).map (·.1) then lastMembers members else m :: lastMembers members := rfl
    rw [hcons]
    split
    next => exact ⟨ih.1, fun m' hm' => List.mem_cons_of_mem _ (ih.2 m' hm')⟩
    next hnew =>
      refine ⟨List.nodup_cons.mpr ⟨hnew, ih.1⟩, fun m' hm' => ?_⟩
      rcases List.mem_cons.mp hm' with rfl | hm'
      · exact List.mem_cons_self
      · exact List.mem_cons_of_mem _ (ih.2 m' hm')

/-- Members with their keys once are all kept. -/
theorem lastMembers_of_nodup {α : Type} {members : List (List CodePoint × α)} (h : (members.map (·.1)).Nodup) :
    lastMembers members = members := by
  induction members with
  | nil => rfl
  | cons m members ih =>
    rw [List.map_cons, List.nodup_cons] at h
    have hcons : lastMembers (m :: members) =
        if m.1 ∈ (lastMembers members).map (·.1) then lastMembers members else m :: lastMembers members := rfl
    rw [hcons, ih h.2, if_neg h.1]

/-- The portable text of a value is read as the value. -/
theorem jsonbIn_print {limits : Limits} {database : DatabaseLimits} {v : Json} (hdistinct : v.Distinct)
    (h : Portable limits database (print Scalar.text quoted v.sorted)) :
    jsonbIn database (print Scalar.text quoted v.sorted) = some (v.sorted.map toJsonb fun key => key) := by
  obtain ⟨-, hdepth, hall⟩ := h _ (parse_print_scalars _)
  rw [Tree.all_map] at hall
  rw [jsonbIn, parse_print_scalars, Option.bind_some, if_pos hdepth]
  exact Tree.traverse_map (fun s hs => jsonbScalar_literal hs) (fun key hkey => decodePieces_map_piece hkey)
    (fun members hnodup => congrArg some (lastMembers_of_nodup hnodup)) hall hdistinct.sorted

/-- A value whose text is portable is within the limits of the interpreter. -/
theorem Portable.fits {limits : Limits} {database : DatabaseLimits} {v : Json}
    (h : Portable limits database (print Scalar.text quoted v.sorted)) : limits.Fits v := by
  obtain ⟨hdepth, -, hall⟩ := h _ (parse_print_scalars _)
  rw [Tree.depth_map] at hdepth
  rw [Tree.all_map] at hall
  refine (Limits.fits_sorted v).mp ⟨hdepth, hall.imp (fun s hs => ?_) fun _ _ => trivial⟩
  cases s with
  | int n =>
    have hdigits := (hs rfl rfl).1
    simp only [intToken, ascii, List.length_map] at hdigits
    exact hdigits
  | _ => exact Nat.zero_le _

/-- A portable text is accepted if and only if the database reads it and writes it back. -/
theorem parseCanonical_iff_fundamentalsCanonical {limits : Limits} {database : DatabaseLimits} {text : List CodePoint}
    (h : Portable limits database text) : (parseCanonical limits text).isSome = true ↔
      ∃ j, jsonbIn database text = some j ∧ fundamentalsCanonical j = some text := by
  constructor
  · intro haccepted
    obtain ⟨w, hw⟩ := Option.isSome_iff_exists.mp haccepted
    obtain ⟨v, hdistinct, -, hdumps⟩ := exists_of_parseCanonical hw
    obtain ⟨-, htext⟩ := Option.ite_none_right_eq_some.mp hdumps
    cases htext
    refine ⟨_, jsonbIn_print hdistinct h, ?_⟩
    rw [fundamentalsCanonical_map, Tree.sorted_sorted hdistinct]
  · rintro ⟨j, hread, hwritten⟩
    obtain ⟨tree, -, htree⟩ := Option.bind_eq_some_iff.mp hread
    obtain ⟨-, htraverse⟩ := Option.ite_none_right_eq_some.mp htree
    have hdistinct : j.Distinct := Tree.distinct_of_traverse (fun members checked hchecked => by
      cases hchecked
      exact lastMembers_spec members) htraverse
    have hvalue : (j.map ofJsonb fun key => key).map toJsonb (fun key => key) = j := by
      rw [Tree.map_map]
      exact Tree.map_eq_self (toJsonb_ofJsonb hwritten)
    have htext : print Scalar.text quoted (j.map ofJsonb fun key => key).sorted = text := by
      rw [← hvalue, fundamentalsCanonical_map] at hwritten
      exact Option.some.inj hwritten
    have hdumps : dumps limits (j.map ofJsonb fun key => key) = some text := by
      rw [dumps, if_pos (Portable.fits (htext.symm ▸ h)), htext]
    rw [parseCanonical_dumps (Tree.distinct_map.mpr hdistinct) hdumps]
    rfl

/-! ### The canonical form -/

/-- Within the limits of the interpreter, a value is read back from its canonical text, values with one text are the
same, the texts that are accepted are those of values, and the database accepts the same portable texts. -/
theorem canonical_bijection (limits : Limits) (database : DatabaseLimits) :
    (∀ v : Value, limits.Fits v.tree → ∃ text w, canonicalJson limits v.tree.loaded = some text ∧
      parseCanonical limits text = some w ∧ w.Same v.tree.loaded) ∧
    (∀ (v w : Value) (text : List CodePoint), canonicalJson limits v.tree.loaded = some text →
      canonicalJson limits w.tree.loaded = some text → v.tree.Same w.tree) ∧
    (∀ text, (parseCanonical limits text).isSome = true ↔ ∃ v : Value, canonicalJson limits v.tree.loaded = some text) ∧
    ∀ text, Portable limits database text → ((parseCanonical limits text).isSome = true ↔
      ∃ j, jsonbIn database text = some j ∧ fundamentalsCanonical j = some text) := by
  refine ⟨fun v hfits => ?_, fun v w text hv hw => ?_, fun text => ⟨fun haccepted => ?_, ?_⟩, fun text htext => ?_⟩
  · have hdumps : dumps limits v.tree = some (print Scalar.text quoted v.tree.sorted) := if_pos hfits
    refine ⟨_, _, (canonicalJson_loaded v.distinct).trans hdumps, parseCanonical_dumps v.distinct hdumps, ?_⟩
    exact (Tree.same_sorted v.distinct).symm.map Loaded.plain
  · rw [canonicalJson_loaded v.distinct] at hv
    rw [canonicalJson_loaded w.distinct] at hw
    have hloaded := (parseCanonical_dumps v.distinct hv).symm.trans (parseCanonical_dumps w.distinct hw)
    have hsorted : some v.tree.sorted = some w.tree.sorted := by
      rw [← plain_loaded v.distinct.sorted, ← plain_loaded w.distinct.sorted, Option.some.inj hloaded]
    exact Tree.same_of_sorted_eq v.distinct w.distinct (Option.some.inj hsorted)
  · obtain ⟨w, hw⟩ := Option.isSome_iff_exists.mp haccepted
    obtain ⟨v, hdistinct, -, hdumps⟩ := exists_of_parseCanonical hw
    exact ⟨⟨v, hdistinct⟩, (canonicalJson_loaded hdistinct).trans hdumps⟩
  · rintro ⟨v, hv⟩
    rw [canonicalJson_loaded v.distinct] at hv
    rw [parseCanonical_dumps v.distinct hv]
    rfl
  · exact parseCanonical_iff_fundamentalsCanonical htext

/-- A value with keys out of order and characters that are escaped. -/
def sampleValue : Value where
  tree := .object [(ascii ['b'], .array [.scalar .null, .scalar (.int (-12)), .scalar (.bool true)]),
    (ascii ['a', '"', '\n'], .scalar (.str (ascii ['\x01', '\\'])))]
  distinct := by
    rw [Tree.distinct_object]
    refine ⟨by decide, fun m hm => ?_⟩
    rcases List.mem_pair.mp hm with rfl | rfl
    · exact (Tree.distinct_array _).mpr (by simp)
    · exact Tree.distinct_scalar _

/-- The limits of the platforms as they are set by default. -/
def defaultLimits : Limits := ⟨4300, 1000⟩

/-- The limits of the database. -/
def defaultDatabaseLimits : DatabaseLimits := ⟨131072, 16383, 6000⟩

/-- The sample value is within the default limits. -/
theorem fits_sampleValue : defaultLimits.Fits sampleValue.tree := by
  decide +kernel

/-- The text of the sample value is portable. -/
theorem portable_sampleValue :
    Portable defaultLimits defaultDatabaseLimits (print Scalar.text quoted sampleValue.tree.sorted) := by
  intro tree htree
  rw [parse_print_scalars] at htree
  cases htree
  exact ⟨by decide +kernel, by decide +kernel, by decide +kernel⟩

/-- The sample value is read back, and both platforms accept its text. -/
theorem canonical_bijection_sample : ∃ text w j, canonicalJson defaultLimits sampleValue.tree.loaded = some text ∧
    parseCanonical defaultLimits text = some w ∧ w.Same sampleValue.tree.loaded ∧
    jsonbIn defaultDatabaseLimits text = some j ∧ fundamentalsCanonical j = some text := by
  obtain ⟨hback, -, -, hboth⟩ := canonical_bijection defaultLimits defaultDatabaseLimits
  obtain ⟨text, w, htext, hw, hsame⟩ := hback sampleValue fits_sampleValue
  have hprint : print Scalar.text quoted sampleValue.tree.sorted = text := by
    rw [canonicalJson_loaded sampleValue.distinct] at htext
    exact Option.some.inj (Option.ite_none_right_eq_some.mp htext).2
  have haccepted : (parseCanonical defaultLimits text).isSome = true := by
    rw [hw]
    rfl
  obtain ⟨j, hj, hwritten⟩ := (hboth text (hprint ▸ portable_sampleValue)).mp haccepted
  exact ⟨text, w, j, htext, hw, hsame, hj, hwritten⟩

/-- An integer that the interpreter does not convert has no canonical text. -/
theorem canonicalJson_of_le {limits : Limits} {n : ℤ} (hlimit : 0 < limits.digits) (h : 10 ^ limits.digits ≤ n.natAbs) :
    canonicalJson limits (Json.loaded (.scalar (.int n))) = none := by
  rw [canonicalJson_loaded (Tree.distinct_scalar _)]
  refine if_neg fun hfits => ?_
  have hdigits : (Nat.toDigits 10 n.natAbs).length ≤ limits.digits := hfits.2
  rw [Nat.length_toDigits_le_iff (by decide) hlimit] at hdigits
  exact absurd h (not_le.mpr hdigits)

/-- An integer of 4301 digits has no canonical text. -/
theorem canonicalJson_long_integer : ∃ v : Value, canonicalJson defaultLimits v.tree.loaded = none := by
  have hlong : ∀ digits : ℕ, 10 ^ digits ≤ ((10 : ℤ) ^ digits).natAbs := by
    intro digits
    rw [Int.natAbs_pow]
    exact le_rfl
  exact ⟨⟨_, Tree.distinct_scalar _⟩, canonicalJson_of_le (by decide) (hlong _)⟩

end EquityEval.Fundamentals
