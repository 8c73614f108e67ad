import Mathlib.Data.List.Lex
import Mathlib.Order.Fin.Basic

/-!
# Code points

A text is a list of code points, surrogates included. The bytes of its encoding compare as its code
points do: the encodings of two code points differ first in a byte that compares as they do.
-/

namespace Text

/-- A code point. -/
abbrev CodePoint : Type := Fin 0x110000

-- what several modules find of code points, found once
instance neZero_codePoints : @NeZero Nat Zero.ofOfNat0 (1114111 + 1) := ⟨Nat.succ_ne_zero 1114111⟩
instance : LawfulBEq (List CodePoint) := inferInstance

namespace CodePoint

/-- The code point of a character. -/
def ofChar (c : Char) : CodePoint := ⟨c.toNat, c.valid.elim (fun h => Nat.lt_trans h (by decide)) fun h => h.2⟩

/-- The character of a code point that is no surrogate. -/
def toChar (c : CodePoint) : Char := Char.ofNat c.val

/-- The code point is half of a pair. -/
def Surrogate (c : CodePoint) : Prop := 0xD800 ≤ c.val ∧ c.val < 0xE000

instance (c : CodePoint) : Decidable c.Surrogate := inferInstanceAs (Decidable (_ ∧ _))

/-- The code point of a character is that of no other one. -/
theorem toChar_ofChar (c : Char) : (ofChar c).toChar = c := Char.ofNat_toNat c

/-- Characters have code points of their own. -/
theorem ofChar_injective : Function.Injective ofChar := Function.LeftInverse.injective toChar_ofChar

/-- The bytes of a code point. -/
def bytes (c : CodePoint) : List ℕ :=
  if c.val < 0x80 then [c.val]
  else if c.val < 0x800 then [0xC0 + c.val / 0x40, 0x80 + c.val % 0x40]
  else if c.val < 0x10000 then [0xE0 + c.val / 0x1000, 0x80 + c.val / 0x40 % 0x40, 0x80 + c.val % 0x40]
  else [0xF0 + c.val / 0x40000, 0x80 + c.val / 0x1000 % 0x40, 0x80 + c.val / 0x40 % 0x40, 0x80 + c.val % 0x40]

end CodePoint

/-- The code points of characters. -/
def ascii (text : List Char) : List CodePoint := text.map CodePoint.ofChar

/-- The bytes of a text. -/
def utf8 (text : List CodePoint) : List ℕ := text.flatMap CodePoint.bytes

/-! ### Order -/

/-- Lists differ first in entries in order. -/
def DiffersBelow {α : Type} [LT α] (xs ys : List α) : Prop :=
  ∃ before x y xs' ys', xs = before ++ x :: xs' ∧ ys = before ++ y :: ys' ∧ x < y

/-- Lists are in order if they differ first in entries in order. -/
theorem DiffersBelow.lt {α : Type} [LinearOrder α] {xs ys : List α} (h : DiffersBelow xs ys) : xs < ys := by
  obtain ⟨before, x, y, xs', ys', rfl, rfl, hlt⟩ := h
  induction before with
  | nil => exact List.Lex.rel hlt
  | cons b before ih => exact List.Lex.cons ih

/-- More after lists changes nothing. -/
theorem DiffersBelow.append {α : Type} [LT α] {xs ys : List α} (h : DiffersBelow xs ys) (more more' : List α) :
    DiffersBelow (xs ++ more) (ys ++ more') := by
  obtain ⟨before, x, y, xs', ys', rfl, rfl, hlt⟩ := h
  exact ⟨before, x, y, xs' ++ more, ys' ++ more', by simp, by simp, hlt⟩

/-- Texts of entries are in order if the entries are, when the text of one entry differs below that of a later one. -/
theorem flatMap_lt {α β : Type} [LinearOrder α] [LinearOrder β] {text : α → List β} (hne : ∀ a, text a ≠ [])
    (hbelow : ∀ a b, a < b → DiffersBelow (text a) (text b)) {xs ys : List α} (h : xs < ys) :
    xs.flatMap text < ys.flatMap text := by
  induction h with
  | @nil y ys =>
    rw [List.flatMap_nil, List.flatMap_cons]
    obtain ⟨b, rest, hb⟩ := List.exists_cons_of_ne_nil (hne y)
    rw [hb]
    exact List.Lex.nil
  | @cons x xs ys _ ih =>
    rw [List.flatMap_cons, List.flatMap_cons]
    induction text x with
    | nil => exact ih
    | cons b rest ihText => exact List.Lex.cons ihText
  | @rel x xs y ys hlt =>
    rw [List.flatMap_cons, List.flatMap_cons]
    exact ((hbelow x y hlt).append _ _).lt

/-- A code point has a byte. -/
theorem CodePoint.bytes_ne_nil (c : CodePoint) : c.bytes ≠ [] := by
  unfold bytes
  split_ifs <;> exact List.cons_ne_nil _ _

/-- Lists that differ in their first entries. -/
theorem differsBelow_head {x y : ℕ} (h : x < y) (xs ys : List ℕ) : DiffersBelow (x :: xs) (y :: ys) :=
  ⟨[], x, y, xs, ys, rfl, rfl, h⟩

/-- Lists that agree in their first entries. -/
theorem DiffersBelow.cons {xs ys : List ℕ} (x : ℕ) (h : DiffersBelow xs ys) : DiffersBelow (x :: xs) (x :: ys) := by
  obtain ⟨before, y, y', xs', ys', rfl, rfl, hlt⟩ := h
  exact ⟨x :: before, y, y', xs', ys', rfl, rfl, hlt⟩

/-- Lists differ in their first entries, or after them. -/
theorem differsBelow_cons {x y : ℕ} {xs ys : List ℕ} (hle : x ≤ y) (h : x = y → DiffersBelow xs ys) :
    DiffersBelow (x :: xs) (y :: ys) := by
  rcases hle.lt_or_eq with hlt | rfl
  · exact differsBelow_head hlt xs ys
  · exact (h rfl).cons x

/-- The bytes of a code point differ below those of a later one. -/
theorem CodePoint.differsBelow_bytes {a b : CodePoint} (h : a < b) : DiffersBelow a.bytes b.bytes := by
  have hlt : a.val < b.val := h
  unfold bytes
  generalize a.val = n at hlt ⊢
  generalize b.val = m at hlt ⊢
  -- encodings of different lengths differ in their first byte, those of one length in the first digit that differs
  split_ifs
  any_goals omega
  all_goals refine differsBelow_cons (by omega) fun hfirst => ?_
  any_goals omega
  · exact differsBelow_head (by omega) _ _
  · exact differsBelow_cons (by omega) fun _ => differsBelow_head (by omega) _ _
  · exact differsBelow_cons (by omega) fun _ => differsBelow_cons (by omega) fun _ => differsBelow_head (by omega) _ _

/-- Texts are in the order of their bytes. -/
theorem utf8_le_utf8 {xs ys : List CodePoint} : utf8 xs ≤ utf8 ys ↔ xs ≤ ys := by
  have hmono : StrictMono utf8 := fun _ _ h => flatMap_lt CodePoint.bytes_ne_nil (fun _ _ => CodePoint.differsBelow_bytes) h
  exact hmono.le_iff_le

end Text
