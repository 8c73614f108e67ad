import Mathlib.Data.List.Basic
import Mathlib.Data.List.TakeDrop

/-!
# Patterns of whole texts

A pattern is a regular expression whose repetitions are of single characters, and it matches a text as
a whole. Parts of a text between separators are its pieces.
-/

namespace Text

/-- A regular expression that repeats classes of characters only. -/
inductive Pattern where
  | empty
  | one (p : Char → Bool)
  | many (p : Char → Bool)
  | seq (first rest : Pattern)
  | alt (left right : Pattern)

namespace Pattern

/-- The pattern matches the whole text. -/
def Matches : Pattern → List Char → Prop
  | empty, text => text = []
  | one p, text => ∃ c ∈ text.head?, text = [c] ∧ p c = true
  | many p, text => ∀ c ∈ text, p c = true
  | seq first rest, text => ∃ i ∈ List.range (text.length + 1), first.Matches (text.take i) ∧ rest.Matches (text.drop i)
  | alt left right, text => left.Matches text ∨ right.Matches text

-- the quantifiers over characters are decided by the characters of the text, of which there are few
instance decidableMatches : (p : Pattern) → (text : List Char) → Decidable (p.Matches text)
  | empty, text => inferInstanceAs (Decidable (text = []))
  | one _, [] => isFalse nofun
  | one p, c :: rest => decidable_of_iff (c :: rest = [c] ∧ p c = true) ⟨fun h => ⟨c, rfl, h⟩, fun ⟨_, hfirst, h⟩ => by cases hfirst; exact h⟩
  | many p, text => decidable_of_iff (text.all p = true) List.all_eq_true
  | seq first rest, text =>
    have := decidableMatches first
    have := decidableMatches rest
    inferInstanceAs (Decidable (∃ i ∈ List.range (text.length + 1), first.Matches (text.take i) ∧ rest.Matches (text.drop i)))
  | alt left right, text =>
    have := decidableMatches left text
    have := decidableMatches right text
    inferInstanceAs (Decidable (left.Matches text ∨ right.Matches text))

/-- The characters of a text, one after the other. -/
def lit : List Char → Pattern
  | [] => empty
  | c :: text => seq (one (· = c)) (lit text)

/-- A number of characters of a class. -/
def times (p : Char → Bool) : ℕ → Pattern
  | 0 => empty
  | n + 1 => seq (one p) (times p n)

/-- One or more characters of a class. -/
def plus (p : Char → Bool) : Pattern := seq (one p) (many p)

/-- One of some texts. -/
def oneOf : List (List Char) → Pattern
  | [] => one fun _ => false
  | text :: texts => alt (lit text) (oneOf texts)

/-- Patterns that follow each other. -/
def concat : List Pattern → Pattern
  | [] => empty
  | p :: ps => seq p (concat ps)

variable {p : Char → Bool} {text : List Char}

@[simp] theorem matches_empty : empty.Matches text ↔ text = [] := Iff.rfl

@[simp] theorem matches_one : (one p).Matches text ↔ ∃ c, text = [c] ∧ p c = true := by
  constructor
  · rintro ⟨c, -, h⟩
    exact ⟨c, h⟩
  · rintro ⟨c, rfl, hc⟩
    exact ⟨c, rfl, rfl, hc⟩

@[simp] theorem matches_many : (many p).Matches text ↔ ∀ c ∈ text, p c = true := Iff.rfl

@[simp] theorem matches_alt {left right : Pattern} : (alt left right).Matches text ↔ left.Matches text ∨ right.Matches text := Iff.rfl

/-- A text is matched by two patterns in turn when it is split between them. -/
@[simp] theorem matches_seq {first rest : Pattern} :
    (seq first rest).Matches text ↔ ∃ a b, text = a ++ b ∧ first.Matches a ∧ rest.Matches b := by
  constructor
  · rintro ⟨i, -, hfirst, hrest⟩
    exact ⟨_, _, (List.take_append_drop i text).symm, hfirst, hrest⟩
  · rintro ⟨a, b, rfl, hfirst, hrest⟩
    refine ⟨a.length, ?_, by rwa [List.take_left], by rwa [List.drop_left]⟩
    rw [List.mem_range, List.length_append]
    omega

/-- A literal matches its text only. -/
@[simp] theorem matches_lit {word : List Char} : (lit word).Matches text ↔ text = word := by
  induction word generalizing text with
  | nil => exact Iff.rfl
  | cons c word ih =>
    simp only [lit, matches_seq, matches_one, ih, decide_eq_true_eq]
    constructor
    · rintro ⟨_, _, rfl, ⟨_, rfl, rfl⟩, rfl⟩
      rfl
    · rintro rfl
      exact ⟨[c], word, rfl, ⟨c, rfl, rfl⟩, rfl⟩

/-- A repeated class matches texts of its length. -/
@[simp] theorem matches_times {n : ℕ} : (times p n).Matches text ↔ text.length = n ∧ ∀ c ∈ text, p c = true := by
  induction n generalizing text with
  | zero =>
    simp only [times, matches_empty, List.length_eq_zero_iff]
    constructor
    · rintro rfl
      simp
    · exact And.left
  | succ n ih =>
    simp only [times, matches_seq, matches_one, ih]
    constructor
    · rintro ⟨_, b, rfl, ⟨c, rfl, hc⟩, hlength, hall⟩
      exact ⟨by simp [hlength], List.forall_mem_cons.mpr ⟨hc, hall⟩⟩
    · rintro ⟨hlength, hall⟩
      obtain ⟨c, b, rfl⟩ := List.exists_cons_of_length_eq_add_one hlength
      obtain ⟨hc, hrest⟩ := List.forall_mem_cons.mp hall
      exact ⟨[c], b, rfl, ⟨c, rfl, hc⟩, Nat.succ.inj hlength, hrest⟩

/-- A class that is repeated once at least. -/
@[simp] theorem matches_plus : (plus p).Matches text ↔ text ≠ [] ∧ ∀ c ∈ text, p c = true := by
  simp only [plus, matches_seq, matches_one, matches_many]
  constructor
  · rintro ⟨_, b, rfl, ⟨c, rfl, hc⟩, hall⟩
    exact ⟨by simp, List.forall_mem_cons.mpr ⟨hc, hall⟩⟩
  · rintro ⟨hne, hall⟩
    obtain ⟨c, b, rfl⟩ := List.exists_cons_of_ne_nil hne
    obtain ⟨hc, hrest⟩ := List.forall_mem_cons.mp hall
    exact ⟨[c], b, rfl, ⟨c, rfl, hc⟩, hrest⟩

/-- One of some texts is matched. -/
@[simp] theorem matches_oneOf {words : List (List Char)} : (oneOf words).Matches text ↔ text ∈ words := by
  induction words with
  | nil => simp [oneOf]
  | cons word words ih => simp [oneOf, ih]

@[simp] theorem matches_concat_nil : (concat []).Matches text ↔ text = [] := Iff.rfl

/-- Patterns in turn match texts in turn. -/
@[simp] theorem matches_concat_cons {first : Pattern} {rest : List Pattern} :
    (concat (first :: rest)).Matches text ↔ ∃ a b, text = a ++ b ∧ first.Matches a ∧ (concat rest).Matches b := matches_seq

end Pattern

/-! ### Pieces -/

/-- The pieces of a text between separators. -/
def pieces (separator : Char) : List Char → List (List Char)
  | [] => [[]]
  | c :: text =>
    if c = separator then [] :: pieces separator text
    else match pieces separator text with
      | [] => [[c]]
      | piece :: rest => (c :: piece) :: rest

/-- `split_part`: a piece of a text, counted from one; empty where there is none. -/
def splitPart (text : List Char) (separator : Char) (n : ℕ) : List Char := ((pieces separator text)[n - 1]?).getD []

variable {separator : Char} {a b : List Char}

/-- A text without separators is one piece. -/
theorem pieces_of_notMem (h : separator ∉ a) : pieces separator a = [a] := by
  induction a with
  | nil => rfl
  | cons c a ih =>
    rw [List.mem_cons, not_or] at h
    rw [pieces, if_neg fun heq => h.1 heq.symm, ih h.2]

/-- The first piece of a text ends before its first separator. -/
theorem pieces_append (h : separator ∉ a) : pieces separator (a ++ separator :: b) = a :: pieces separator b := by
  induction a with
  | nil => rw [List.nil_append, pieces, if_pos rfl]
  | cons c a ih =>
    rw [List.mem_cons, not_or] at h
    rw [List.cons_append, pieces, if_neg fun heq => h.1 heq.symm, ih h.2]

/-- Pieces that are put together with separators between them are taken apart again. -/
theorem pieces_intercalate {parts : List (List Char)} (hne : parts ≠ []) (h : ∀ part ∈ parts, separator ∉ part) :
    pieces separator ([separator].intercalate parts) = parts := by
  induction parts with
  | nil => exact absurd rfl hne
  | cons part parts ih =>
    obtain ⟨hpart, hparts⟩ := List.forall_mem_cons.mp h
    cases parts with
    | nil => rw [List.intercalate_singleton, pieces_of_notMem hpart]
    | cons next parts =>
      rw [List.intercalate_cons_cons, List.append_assoc, List.singleton_append, pieces_append hpart, ih (List.cons_ne_nil _ _) hparts]

/-- The pieces of a text with two separators. -/
theorem pieces_three {c : List Char} (ha : separator ∉ a) (hb : separator ∉ b) (hc : separator ∉ c) :
    pieces separator (a ++ separator :: (b ++ separator :: c)) = [a, b, c] := by
  rw [pieces_append ha, pieces_append hb, pieces_of_notMem hc]

end Text
