import Mathlib.Algebra.Group.Nat.Defs
import Mathlib.Data.List.Basic
import Mathlib.Data.Nat.Basic

/-!
# Escaped characters

A character that cannot stand in a text stands there by its number. Numbers of a fixed width in base
16 are read back, and a text is read back character by character from the escapes of its characters.
-/

namespace Text

/-- The last digits of a number in base 16. -/
def hexText : ℕ → ℕ → List Char
  | 0, _ => []
  | width + 1, n => hexText width (n / 16) ++ [Nat.digitChar (n % 16)]

/-- The number of a digit in base 16. -/
def readHexDigit (c : Char) : Option ℕ :=
  if c.isDigit then some (c.toNat - 48)
  else if 'a' ≤ c ∧ c ≤ 'f' then some (c.toNat - 87)
  else if 'A' ≤ c ∧ c ≤ 'F' then some (c.toNat - 55)
  else none

/-- The number of a text in base 16. -/
def readHex (text : List Char) : Option ℕ := text.foldlM (fun n c => (readHexDigit c).map (16 * n + ·)) 0

/-- A text in base 16 has the width it is written in. -/
@[simp] theorem length_hexText (width n : ℕ) : (hexText width n).length = width := by
  induction width generalizing n with
  | zero => rfl
  | succ width ih => rw [hexText, List.length_append, ih, List.length_singleton]

/-- A digit in base 16 is read back. -/
theorem readHexDigit_digitChar {d : ℕ} (h : d < 16) : readHexDigit (Nat.digitChar d) = some d := by
  have hall : ∀ d : Fin 16, readHexDigit (Nat.digitChar d) = some d.val := by decide
  exact hall ⟨d, h⟩

/-- A number that fits a width is read back from it. -/
theorem readHex_hexText {width n : ℕ} (h : n < 16 ^ width) : readHex (hexText width n) = some n := by
  induction width generalizing n with
  | zero =>
    cases Nat.lt_one_iff.mp h
    rfl
  | succ width ih =>
    have hrest : n / 16 < 16 ^ width := Nat.div_lt_of_lt_mul (by rwa [Nat.pow_succ'] at h)
    have hread := ih hrest
    unfold readHex at hread ⊢
    rw [hexText, List.foldlM_append, hread, Option.bind_eq_bind, Option.bind_some, List.foldlM_cons,
      readHexDigit_digitChar (Nat.mod_lt _ (by decide))]
    simp [Nat.div_add_mod]

/-- Take a number of a width off a text, as the character with that number. -/
def readCode (width : ℕ) (text : List Char) : Option (Char × List Char) :=
  (readHex (text.take width)).map fun n => (Char.ofNat n, text.drop width)

/-- A character is read back from its number. -/
theorem readCode_hexText {width : ℕ} {c : Char} (h : c.toNat < 16 ^ width) (rest : List Char) :
    readCode width (hexText width c.toNat ++ rest) = some (c, rest) := by
  have htake : (hexText width c.toNat ++ rest).take width = hexText width c.toNat :=
    List.take_left' (length_hexText _ _)
  have hdrop : (hexText width c.toNat ++ rest).drop width = rest := List.drop_left' (length_hexText _ _)
  rw [readCode, htake, hdrop, readHex_hexText h, Option.map_some, Char.ofNat_toNat]

/-- Items whose texts are read off one by one are determined by their texts together. -/
theorem flatMap_injective {α β : Type} {text : α → List β} (read : List β → Option (α × List β))
    (hread : ∀ a rest, read (text a ++ rest) = some (a, rest)) (hne : ∀ a, text a ≠ []) :
    ∀ {items items' : List α}, items.flatMap text = items'.flatMap text → items = items' := by
  intro items
  induction items with
  | nil =>
    intro items' h
    cases items' with
    | nil => rfl
    | cons a items' =>
      rw [List.flatMap_nil, List.flatMap_cons] at h
      exact absurd (List.append_eq_nil_iff.mp h.symm).1 (hne a)
  | cons a items ih =>
    intro items' h
    cases items' with
    | nil =>
      rw [List.flatMap_nil, List.flatMap_cons] at h
      exact absurd (List.append_eq_nil_iff.mp h).1 (hne a)
    | cons a' items' =>
      rw [List.flatMap_cons, List.flatMap_cons] at h
      have hfirst := congrArg read h
      rw [hread, hread] at hfirst
      obtain ⟨rfl, hrest⟩ := Prod.mk.inj (Option.some.inj hfirst)
      rw [ih hrest]

/-! ### Quoted texts -/

/-- A character within quotes: itself if it can stand there, else an escape. -/
def escapeChar (printable : Char → Bool) (quote c : Char) : List Char :=
  if c = '\\' ∨ c = quote then ['\\', c]
  else if c = '\t' then ['\\', 't']
  else if c = '\n' then ['\\', 'n']
  else if c = '\r' then ['\\', 'r']
  else if (32 ≤ c.toNat ∧ c.toNat < 127) ∨ (127 < c.toNat ∧ printable c = true) then [c]
  else if c.toNat < 256 then '\\' :: 'x' :: hexText 2 c.toNat
  else if c.toNat < 65536 then '\\' :: 'u' :: hexText 4 c.toNat
  else '\\' :: 'U' :: hexText 8 c.toNat

/-- Take an escaped character off a text. -/
def readEscape : List Char → Option (Char × List Char)
  | '\\' :: 't' :: rest => some ('\t', rest)
  | '\\' :: 'n' :: rest => some ('\n', rest)
  | '\\' :: 'r' :: rest => some ('\r', rest)
  | '\\' :: 'x' :: rest => readCode 2 rest
  | '\\' :: 'u' :: rest => readCode 4 rest
  | '\\' :: 'U' :: rest => readCode 8 rest
  | '\\' :: c :: rest => some (c, rest)
  | c :: rest => some (c, rest)
  | [] => none

/-- The quote that a text is printed in. -/
def quoteOf (text : List Char) : Char := if '\'' ∈ text ∧ '"' ∉ text then '"' else '\''

/-- `repr(text)`. -/
def repr (printable : Char → Bool) (text : List Char) : List Char :=
  quoteOf text :: text.flatMap (escapeChar printable (quoteOf text)) ++ [quoteOf text]

/-- An escaped character is read back. -/
theorem readEscape_escapeChar (printable : Char → Bool) {quote : Char} (hquote : quote = '\'' ∨ quote = '"') (c : Char)
    (rest : List Char) : readEscape (escapeChar printable quote c ++ rest) = some (c, rest) := by
  unfold escapeChar
  split_ifs with hself htab hline hreturn hplain hsmall hmiddle
  · rcases hself with rfl | rfl
    · rfl
    · rcases hquote with rfl | rfl <;> rfl
  · rw [htab]
    rfl
  · rw [hline]
    rfl
  · rw [hreturn]
    rfl
  · rw [List.singleton_append]
    unfold readEscape
    split <;> simp_all
  · exact readCode_hexText hsmall rest
  · exact readCode_hexText hmiddle rest
  · exact readCode_hexText (Nat.lt_of_lt_of_le (UInt32.toNat_lt c.val) (by decide)) rest

/-- An escape is not empty. -/
theorem escapeChar_ne_nil (printable : Char → Bool) (quote c : Char) : escapeChar printable quote c ≠ [] := by
  unfold escapeChar
  split_ifs <;> exact List.cons_ne_nil _ _

/-- Texts that are printed alike are one text. -/
theorem repr_injective (printable : Char → Bool) : Function.Injective (repr printable) := by
  intro text text' h
  simp only [repr, List.cons_append, List.cons.injEq] at h
  obtain ⟨hquote, h⟩ := h
  rw [hquote] at h
  have hkind : quoteOf text' = '\'' ∨ quoteOf text' = '"' := by
    unfold quoteOf
    split
    · exact Or.inr rfl
    · exact Or.inl rfl
  exact flatMap_injective readEscape (readEscape_escapeChar printable hkind) (escapeChar_ne_nil printable _)
    (List.append_cancel_right h)

end Text
