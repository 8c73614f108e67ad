import EquityEval.Text.Printed

/-!
# Texts of scalars

Integers are written with all their digits, and strings with an escape for each quote, backslash and
control character: a short one where there is one, else four digits in base 16.
-/

namespace Text.Json

open CodePoint (ofChar)

/-- A value without parts. -/
inductive Scalar where
  | null
  | bool (b : Bool)
  | int (n : ℤ)
  | str (s : List CodePoint)
deriving DecidableEq

/-- The letter of the short escape of a character. -/
def shortName (c : CodePoint) : Option CodePoint :=
  if c = ofChar '"' ∨ c = ofChar '\\' then some c
  else if c = ofChar '\n' then some (ofChar 'n')
  else if c = ofChar '\r' then some (ofChar 'r')
  else if c = ofChar '\t' then some (ofChar 't')
  else if c = ofChar '\x0c' then some (ofChar 'f')
  else if c = ofChar '\x08' then some (ofChar 'b')
  else none

/-- A character in a string. -/
def escape (c : CodePoint) : List CodePoint :=
  match shortName c with
  | some e => [ofChar '\\', e]
  | none => if c.val < 32 then ofChar '\\' :: ofChar 'u' :: ascii (hexText 4 c.val) else [c]

/-- A string within quotes. -/
def quoted (s : List CodePoint) : List CodePoint := ofChar '"' :: s.flatMap escape ++ [ofChar '"']

/-- An integer in base 10. -/
def intText (n : ℤ) : List CodePoint := ascii ((if n < 0 then ['-'] else []) ++ Nat.toDigits 10 n.natAbs)

/-- A scalar as text. -/
def Scalar.text : Scalar → List CodePoint
  | null => ascii ['n', 'u', 'l', 'l']
  | bool true => ascii ['t', 'r', 'u', 'e']
  | bool false => ascii ['f', 'a', 'l', 's', 'e']
  | int n => intText n
  | str s => quoted s

/-- The number as it is written in base 10. -/
def intToken (n : ℤ) : NumberToken := ⟨n < 0, ascii (Nat.toDigits 10 n.natAbs), none, none⟩

/-- A character as it is written in a string. -/
def piece (c : CodePoint) : Piece := if (shortName c).isNone = true ∧ c.val < 32 then .unit c.val else .char c

/-- A scalar as it is written. -/
def Scalar.literal : Scalar → Literal
  | null => .null
  | bool b => .bool b
  | int n => .number (intToken n)
  | str s => .string (s.map piece)

/-! ### Strings -/

/-- A character is written as itself, or by its number if it is a control character. -/
theorem piece_cases (c : CodePoint) : piece c = .char c ∨ c.val < 32 ∧ piece c = .unit c.val := by
  unfold piece
  split
  next h => exact Or.inr ⟨h.2, rfl⟩
  next => exact Or.inl rfl

/-- A short escape is read back. -/
theorem shortEscape_shortName {c e : CodePoint} (h : shortName c = some e) : shortEscape e = some c ∧ e ≠ ofChar 'u' := by
  unfold shortName at h
  split_ifs at h with hself hline hreturn htab hfeed hback
  · cases h
    rcases hself with rfl | rfl <;> exact ⟨by decide, by decide⟩
  · cases h
    rw [hline]
    exact ⟨by decide, by decide⟩
  · cases h
    rw [hreturn]
    exact ⟨by decide, by decide⟩
  · cases h
    rw [htab]
    exact ⟨by decide, by decide⟩
  · cases h
    rw [hfeed]
    exact ⟨by decide, by decide⟩
  · cases h
    rw [hback]
    exact ⟨by decide, by decide⟩

/-- A character without a short escape is neither a quote nor a backslash. -/
theorem ne_of_shortName {c : CodePoint} (h : shortName c = none) : c ≠ ofChar '"' ∧ c ≠ ofChar '\\' := by
  unfold shortName at h
  split_ifs at h with hself
  exact not_or.mp hself

/-- A character is taken off the text of a string as it is written. -/
theorem takeString_escape (c : CodePoint) (rest : List CodePoint) :
    takeString (escape c ++ rest) = prepend (piece c) (takeString rest) := by
  cases hname : shortName c with
  | some e =>
    obtain ⟨hread, hunit⟩ := shortEscape_shortName hname
    have hpiece : piece c = .char c := by simp [piece, hname]
    have hescape : escape c = [ofChar '\\', e] := by rw [escape, hname]
    rw [hescape, hpiece, List.cons_append, List.singleton_append, takeString_short hunit, hread, Option.bind_some]
  | none =>
    obtain ⟨hnotQuote, hnotBackslash⟩ := ne_of_shortName hname
    by_cases hcontrol : c.val < 32
    · have hpiece : piece c = .unit c.val := by simp [piece, hname, hcontrol]
      have hescape : escape c = ofChar '\\' :: ofChar 'u' :: ascii (hexText 4 c.val) := by
        simp only [escape, hname, if_pos hcontrol]
      obtain ⟨c₁, c₂, c₃, c₄, hhex⟩ : ∃ c₁ c₂ c₃ c₄, hexText 4 c.val = [c₁, c₂, c₃, c₄] := ⟨_, _, _, _, rfl⟩
      have hread : readHex [c₁, c₂, c₃, c₄] = some c.val := by
        rw [← hhex]
        exact readHex_hexText (Nat.lt_trans hcontrol (by decide))
      rw [hescape, hpiece, hhex]
      simp only [List.cons_append, List.nil_append, ascii, List.map_cons, List.map_nil, takeString_unit,
        CodePoint.toChar_ofChar, hread, Option.bind_some]
    · have hpiece : piece c = .char c := by simp [piece, hcontrol]
      have hescape : escape c = [c] := by simp only [escape, hname, if_neg hcontrol]
      rw [hescape, hpiece, List.singleton_append, takeString_char hnotQuote hnotBackslash hcontrol]

/-- A string is taken off a text as it is written. -/
theorem takeString_quoted (s rest : List CodePoint) :
    takeString (s.flatMap escape ++ ofChar '"' :: rest) = some (s.map piece, rest) := by
  induction s with
  | nil => exact takeString_quote rest
  | cons c s ih =>
    rw [List.flatMap_cons, List.append_assoc, takeString_escape, ih]
    rfl

/-- A quoted string is a token. -/
theorem spells_quoted (s rest : List CodePoint) : Spells (quoted s) (.literal (.string (s.map piece))) rest := by
  refine ⟨ofChar '"', s.flatMap escape ++ [ofChar '"'], rfl, rfl, ?_⟩
  have hpunctuation : punctuation (ofChar '"') = none := rfl
  rw [takeToken, hpunctuation, List.append_assoc, List.singleton_append]
  simp only [takeLiteral, if_pos, takeString_quoted, Option.map_some]

/-! ### Integers -/

/-- The number of digits in base 10. -/
def digitsValue (digits : List CodePoint) : ℕ := Nat.ofDigitChars 10 (digits.map CodePoint.toChar) 0

/-- The digits of a number have its value. -/
theorem digitsValue_toDigits (n : ℕ) : digitsValue (ascii (Nat.toDigits 10 n)) = n := by
  have hdigits : (ascii (Nat.toDigits 10 n)).map CodePoint.toChar = Nat.toDigits 10 n := by
    rw [ascii, List.map_map]
    exact List.map_id'' CodePoint.toChar_ofChar _
  rw [digitsValue, hdigits, Nat.ofDigitChars_ten_toDigits]

/-- The digits of a number start with a zero only if it is zero. -/
theorem toDigits_zero_head {n : ℕ} {ds : List Char} (h : Nat.toDigits 10 n = '0' :: ds) : n = 0 := by
  induction n using Nat.strongRecOn generalizing ds with
  | ind n ih =>
    rcases lt_or_ge n 10 with hn | hn
    · rw [Nat.toDigits_of_lt_base hn, List.cons.injEq, Nat.digitChar_eq_zero] at h
      exact h.1
    · rw [Nat.toDigits_of_base_le (by decide) hn] at h
      obtain ⟨d, ds', hdigits⟩ := List.exists_cons_of_ne_nil (Nat.toDigits_ne_nil (n := n / 10) (b := 10))
      rw [hdigits, List.cons_append, List.cons.injEq] at h
      have hzero := ih (n / 10) (Nat.div_lt_self (by omega) (by decide)) (h.1 ▸ hdigits)
      omega

/-- The digits of a number are digits. -/
theorem isDigit_of_mem_digits {n : ℕ} {c : CodePoint} (h : c ∈ ascii (Nat.toDigits 10 n)) : isDigit c = true := by
  obtain ⟨d, hd, rfl⟩ := List.mem_map.mp h
  have hdigit := Nat.isDigit_of_mem_toDigits (by decide) (by decide) hd
  simp only [Char.isDigit, Bool.and_eq_true, decide_eq_true_eq, ge_iff_le, UInt32.le_iff_toNat_le] at hdigit
  rw [isDigit, Bool.and_eq_true, decide_eq_true_eq, decide_eq_true_eq]
  exact hdigit

/-- What stops a value is not a digit. -/
theorem takeWhile_of_stops {rest : List CodePoint} (h : Stops rest) :
    rest.takeWhile isDigit = [] ∧ rest.dropWhile isDigit = rest := by
  cases rest with
  | nil => exact ⟨rfl, rfl⟩
  | cons c rest =>
    have hdigit : isDigit c = false := by
      rcases h with rfl | rfl | rfl <;> rfl
    rw [List.takeWhile_cons, List.dropWhile_cons, hdigit]
    exact ⟨rfl, rfl⟩

/-- The digits of a number are taken off a text. -/
theorem takeIntegral_digits (n : ℕ) {rest : List CodePoint} (h : Stops rest) :
    takeIntegral (ascii (Nat.toDigits 10 n) ++ rest) = some (ascii (Nat.toDigits 10 n), rest) := by
  obtain ⟨htake, hdrop⟩ := takeWhile_of_stops h
  have hdigits : ∀ c ∈ ascii (Nat.toDigits 10 n), isDigit c = true := fun c hc => isDigit_of_mem_digits hc
  have htakes : (ascii (Nat.toDigits 10 n) ++ rest).takeWhile isDigit = ascii (Nat.toDigits 10 n) := by
    rw [List.takeWhile_append_of_pos hdigits, htake, List.append_nil]
  have hdrops : (ascii (Nat.toDigits 10 n) ++ rest).dropWhile isDigit = rest := by
    rw [List.dropWhile_append_of_pos hdigits, hdrop]
  obtain ⟨d, ds, hcons⟩ := List.exists_cons_of_ne_nil (Nat.toDigits_ne_nil (n := n) (b := 10))
  rw [takeIntegral, htakes, hdrops, hcons]
  by_cases hzero : d = '0'
  · subst hzero
    have hn := toDigits_zero_head hcons
    subst hn
    rw [Nat.toDigits_zero, List.cons.injEq] at hcons
    rw [← hcons.2]
    rfl
  · have hne : ofChar d ≠ ofChar '0' := fun heq => hzero (CodePoint.ofChar_injective heq)
    simp only [ascii, List.map_cons, if_neg hne]

/-- The sign of a number is taken off a text. -/
theorem takeMinus_digits (negative : Bool) (n : ℕ) (rest : List CodePoint) :
    takeMinus (ascii ((if negative then ['-'] else []) ++ Nat.toDigits 10 n) ++ rest) =
      (negative, ascii (Nat.toDigits 10 n) ++ rest) := by
  cases negative with
  | true => rfl
  | false =>
    obtain ⟨d, ds, hcons⟩ := List.exists_cons_of_ne_nil (Nat.toDigits_ne_nil (n := n) (b := 10))
    have hd : isDigit (ofChar d) = true := isDigit_of_mem_digits (n := n) (by rw [hcons]; exact List.mem_cons_self)
    have hne : ofChar d ≠ ofChar '-' := by
      intro heq
      rw [heq] at hd
      cases hd
    simp [hcons, ascii, takeMinus, hne]

/-- Nothing but the integral digits is taken off the text of an integer. -/
theorem takeNumber_intText (n : ℤ) {rest : List CodePoint} (h : Stops rest) :
    takeNumber (intText n ++ rest) = some (intToken n, rest) := by
  have hminus : takeMinus (intText n ++ rest) = (decide (n < 0), ascii (Nat.toDigits 10 n.natAbs) ++ rest) := by
    have hsign := takeMinus_digits (decide (n < 0)) n.natAbs rest
    simp only [decide_eq_true_eq] at hsign
    exact hsign
  have hfraction : takeFraction rest = (none, rest) := by
    cases rest with
    | nil => rfl
    | cons c rest =>
      have hne : c ≠ ofChar '.' := by rcases h with rfl | rfl | rfl <;> decide
      simp [takeFraction, hne]
  have hexponent : takeExponent rest = (none, rest) := by
    cases rest with
    | nil => rfl
    | cons c rest =>
      have hne : c ≠ ofChar 'e' ∧ c ≠ ofChar 'E' := by rcases h with rfl | rfl | rfl <;> decide
      simp [takeExponent, hne]
  rw [takeNumber, hminus, takeIntegral_digits _ h, Option.map_some]
  simp only [hfraction, hexponent, intToken]

/-- No word starts with a digit, and none has one after its first character. -/
theorem words_notDigit : ∀ w ∈ words, ∃ c₁ c₂ cs, w.1 = c₁ :: c₂ :: cs ∧ isDigit c₁ = false ∧ isDigit c₂ = false := by
  intro w hw
  simp only [words, List.mem_cons, List.not_mem_nil, or_false] at hw
  rcases hw with rfl | rfl | rfl | rfl | rfl | rfl <;> exact ⟨_, _, _, rfl, rfl, rfl⟩

/-- No word starts with a digit, nor with any character that a digit follows. -/
theorem takeWord_eq_none {c : CodePoint} {rest : List CodePoint}
    (h : isDigit c = true ∨ ∃ d ds, rest = d :: ds ∧ isDigit d = true) : takeWord (c :: rest) = none := by
  rw [takeWord, List.findSome?_eq_none_iff]
  intro w hw
  obtain ⟨c₁, c₂, cs, hword, hfirst, hsecond⟩ := words_notDigit w hw
  refine if_neg fun hprefix => ?_
  rw [hword, List.cons_prefix_cons] at hprefix
  obtain ⟨rfl, hprefix⟩ := hprefix
  rcases h with hdigit | ⟨d, ds, rfl, hdigit⟩
  · rw [hfirst] at hdigit
    cases hdigit
  · rw [List.cons_prefix_cons] at hprefix
    rw [← hprefix.1, hsecond] at hdigit
    cases hdigit

/-- A digit is neither white space nor a token or a quote. -/
theorem ne_of_isDigit_codePoint {c : CodePoint} (h : isDigit c = true) :
    isSpace c = false ∧ punctuation c = none ∧ c ≠ ofChar '"' := by
  have hne : ∀ d : CodePoint, isDigit d = false → c ≠ d := by
    rintro d hd rfl
    rw [h] at hd
    cases hd
  refine ⟨?_, ?_, hne _ rfl⟩
  · simp only [isSpace, Bool.or_eq_false_iff, decide_eq_false_iff_not]
    exact ⟨⟨⟨hne _ rfl, hne _ rfl⟩, hne _ rfl⟩, hne _ rfl⟩
  · simp only [punctuation, if_neg (hne (ofChar '[') rfl), if_neg (hne (ofChar ']') rfl), if_neg (hne (ofChar '\x7b') rfl),
      if_neg (hne (ofChar '\x7d') rfl), if_neg (hne (ofChar ',') rfl), if_neg (hne (ofChar ':') rfl)]

/-- An integer is a token, before what ends a value. -/
theorem spells_intText (n : ℤ) {rest : List CodePoint} (h : Stops rest) :
    Spells (intText n) (.literal (.number (intToken n))) rest := by
  obtain ⟨d, ds, hcons⟩ := List.exists_cons_of_ne_nil (Nat.toDigits_ne_nil (n := n.natAbs) (b := 10))
  have hd : isDigit (ofChar d) = true := isDigit_of_mem_digits (n := n.natAbs) (by rw [hcons]; exact List.mem_cons_self)
  have htake := takeNumber_intText n h
  rcases lt_or_ge n 0 with hn | hn
  · have htext : intText n = ofChar '-' :: ofChar d :: ascii ds := by simp [intText, hn, hcons, ascii]
    rw [htext] at htake ⊢
    refine ⟨_, _, rfl, rfl, ?_⟩
    have hpunctuation : punctuation (ofChar '-') = none := rfl
    have hquote : ofChar '-' ≠ ofChar '"' := by decide
    rw [takeToken, hpunctuation]
    rw [List.cons_append] at htake
    simp only [takeLiteral, if_neg hquote, htake]
    rw [takeWord_eq_none (Or.inr ⟨_, _, List.cons_append, hd⟩)]
    rfl
  · have htext : intText n = ofChar d :: ascii ds := by simp [intText, not_lt.mpr hn, hcons, ascii]
    obtain ⟨hspace, hpunctuation, hquote⟩ := ne_of_isDigit_codePoint hd
    rw [htext] at htake ⊢
    refine ⟨_, _, rfl, hspace, ?_⟩
    rw [takeToken, hpunctuation]
    rw [List.cons_append] at htake
    simp only [takeLiteral, if_neg hquote, htake]
    rw [takeWord_eq_none (Or.inl hd)]
    rfl

/-- A word of a list of words is taken off a text, if no earlier word starts it. -/
theorem spells_word {c : CodePoint} {cs rest : List CodePoint} {l : Literal} (hspace : isSpace c = false)
    (hpunctuation : punctuation c = none) (hquote : c ≠ ofChar '"') (hword : takeWord (c :: cs ++ rest) = some (l, rest)) :
    Spells (c :: cs) (.literal l) rest := by
  refine ⟨c, cs, rfl, hspace, ?_⟩
  rw [takeToken, hpunctuation]
  rw [List.cons_append] at hword
  simp only [takeLiteral, if_neg hquote, hword]
  rfl

/-- A scalar is a token, before what ends a value. -/
theorem Scalar.spells (s : Scalar) {rest : List CodePoint} (h : Stops rest) : Spells s.text (.literal s.literal) rest := by
  cases s with
  | null => exact spells_word rfl rfl (by decide) (by simp [takeWord, words, ascii, literal])
  | bool b =>
    have hne : ofChar 't' ≠ ofChar 'n' ∧ ofChar 'f' ≠ ofChar 'n' ∧ ofChar 'f' ≠ ofChar 't' := by decide
    cases b
    · exact spells_word rfl rfl (by decide) (by simp [takeWord, words, ascii, literal, hne.2.1.symm, hne.2.2.symm])
    · exact spells_word rfl rfl (by decide) (by simp [takeWord, words, ascii, literal, hne.1.symm])
  | int n => exact spells_intText n h
  | str s => exact spells_quoted s rest

end Text.Json
