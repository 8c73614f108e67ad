import EquityEval.Normalization.Source

/-!
# Numbers of digits

A text of digits is the text of its number but for the zeros that it begins with, and texts of one length
are determined by their numbers.
-/

namespace EquityEval.Normalization

variable {digits : List Char}

/-- A character that is a digit is that of its number. -/
theorem digitChar_of_isDigit {c : Char} (h : c.isDigit = true) : Nat.digitChar (c.toNat - '0'.toNat) = c ∧ c.toNat - '0'.toNat < 10 := by
  rw [Char.isDigit_iff_toNat] at h
  obtain ⟨hlow, hhigh⟩ := h
  obtain ⟨n, hn⟩ : ∃ n, c.toNat = n := ⟨_, rfl⟩
  have hc : c = Char.ofNat n := by rw [← hn, Char.ofNat_toNat]
  have hlow : 48 ≤ n := hn ▸ hlow
  have hhigh : n ≤ 57 := hn ▸ hhigh
  subst hc
  interval_cases n <;> decide

/-- A leading zero does not count. -/
theorem digitsNumber_zero_cons (digits : List Char) : digitsNumber ('0' :: digits) = digitsNumber digits := by
  rw [digitsNumber, Nat.ofDigitChars_cons]
  rfl

/-- A number with a leading digit that counts is positive. -/
theorem digitsNumber_pos {c : Char} (hdigit : c.isDigit = true) (hc : c ≠ '0') : 0 < digitsNumber (c :: digits) := by
  obtain ⟨hchar, -⟩ := digitChar_of_isDigit hdigit
  have hvalue : 0 < c.toNat - '0'.toNat := by
    apply Nat.pos_of_ne_zero
    intro hzero
    rw [hzero] at hchar
    exact hc hchar.symm
  rw [digitsNumber, Nat.ofDigitChars_cons, Nat.ofDigitChars_eq_ofDigitChars_zero]
  positivity

/-- A number is written with the digits that it was read from. -/
theorem toDigits_digitsNumber {c : Char} (hdigits : ∀ d ∈ c :: digits, d.isDigit = true) (hc : c ≠ '0') :
    Nat.toDigits 10 (digitsNumber (c :: digits)) = c :: digits := by
  induction digits using List.reverseRecOn with
  | nil =>
    obtain ⟨hchar, hlt⟩ := digitChar_of_isDigit (hdigits c List.mem_cons_self)
    rw [digitsNumber, Nat.ofDigitChars_cons, Nat.ofDigitChars_nil, Nat.mul_zero, Nat.zero_add, Nat.toDigits_of_lt_base hlt, hchar]
  | append_singleton digits d ih =>
    obtain ⟨hchar, hlt⟩ := digitChar_of_isDigit (hdigits d (by simp))
    have hrest := ih fun x hx => hdigits x (List.mem_cons.mpr ((List.mem_cons.mp hx).imp_right (List.mem_append_left _)))
    have hsplit : digitsNumber (c :: (digits ++ [d])) = 10 * digitsNumber (c :: digits) + (d.toNat - '0'.toNat) := by
      rw [digitsNumber, ← List.cons_append, Nat.ofDigitChars_append, Nat.ofDigitChars_cons, Nat.ofDigitChars_nil]
      rfl
    rw [hsplit, ← Nat.toDigits_append_toDigits (by decide) (digitsNumber_pos (hdigits c List.mem_cons_self) hc) hlt, hrest,
      Nat.toDigits_of_lt_base hlt, hchar, List.cons_append]

/-- A positive number is written with its digits from the first that is not zero. -/
theorem toDigits_eq_dropWhile (hdigits : ∀ c ∈ digits, c.isDigit = true) (hpositive : digitsNumber digits ≠ 0) :
    Nat.toDigits 10 (digitsNumber digits) = digits.dropWhile (· = '0') := by
  induction digits with
  | nil => exact absurd rfl hpositive
  | cons c digits ih =>
    by_cases hc : c = '0'
    · subst hc
      rw [digitsNumber_zero_cons] at hpositive ⊢
      rw [List.dropWhile_cons_of_pos (by simp), ih (fun d hd => hdigits d (List.mem_cons_of_mem _ hd)) hpositive]
    · rw [List.dropWhile_cons_of_neg (by simpa using hc), toDigits_digitsNumber hdigits hc]

/-- Only zeros are a number that is zero. -/
theorem digitsNumber_eq_zero (hdigits : ∀ c ∈ digits, c.isDigit = true) : digitsNumber digits = 0 ↔ digits = List.replicate digits.length '0' := by
  constructor
  · intro hzero
    induction digits with
    | nil => rfl
    | cons c digits ih =>
      by_cases hc : c = '0'
      · subst hc
        rw [digitsNumber_zero_cons] at hzero
        rw [List.length_cons, List.replicate_succ, ← ih (fun d hd => hdigits d (List.mem_cons_of_mem _ hd)) hzero]
      · exact absurd hzero (digitsNumber_pos (hdigits c List.mem_cons_self) hc).ne'
  · intro hzeros
    rw [hzeros, digitsNumber, Nat.ofDigitChars_replicate_zero, Nat.mul_zero]

/-- The first digit of a number counts for as many places as follow it. -/
theorem digitsNumber_cons (c : Char) (digits : List Char) :
    digitsNumber (c :: digits) = 10 ^ digits.length * (c.toNat - '0'.toNat) + digitsNumber digits := by
  rw [digitsNumber, Nat.ofDigitChars_cons, Nat.ofDigitChars_eq_ofDigitChars_zero, Nat.mul_zero, Nat.zero_add]
  rfl

/-- A number is below the power of ten of its length. -/
theorem digitsNumber_lt (hdigits : ∀ c ∈ digits, c.isDigit = true) : digitsNumber digits < 10 ^ digits.length := by
  induction digits with
  | nil => exact Nat.one_pos
  | cons c digits ih =>
    obtain ⟨-, hlt⟩ := digitChar_of_isDigit (hdigits c List.mem_cons_self)
    have hrest := ih fun d hd => hdigits d (List.mem_cons_of_mem _ hd)
    rw [digitsNumber_cons, List.length_cons, pow_succ]
    have hle : 10 ^ digits.length * (c.toNat - '0'.toNat) ≤ 10 ^ digits.length * 9 := Nat.mul_le_mul_left _ (by omega)
    omega

/-- Numbers of one length that are equal are written alike. -/
theorem eq_of_digitsNumber {a b : List Char} (ha : ∀ c ∈ a, c.isDigit = true) (hb : ∀ c ∈ b, c.isDigit = true)
    (hlength : a.length = b.length) (h : digitsNumber a = digitsNumber b) : a = b := by
  induction a generalizing b with
  | nil => rw [List.eq_nil_of_length_eq_zero hlength.symm]
  | cons c a ih =>
    obtain ⟨d, b, rfl⟩ := List.exists_cons_of_length_eq_add_one hlength.symm
    have hlength' : a.length = b.length := Nat.succ.inj hlength
    have ha' : ∀ c ∈ a, c.isDigit = true := fun x hx => ha x (List.mem_cons_of_mem _ hx)
    have hb' : ∀ c ∈ b, c.isDigit = true := fun x hx => hb x (List.mem_cons_of_mem _ hx)
    obtain ⟨hc, -⟩ := digitChar_of_isDigit (ha c List.mem_cons_self)
    obtain ⟨hd, -⟩ := digitChar_of_isDigit (hb d List.mem_cons_self)
    have hla := digitsNumber_lt ha'
    have hlb := digitsNumber_lt hb'
    rw [digitsNumber_cons, digitsNumber_cons, hlength'] at h
    rw [hlength'] at hla
    -- the places of the first digit and of the rest do not overlap
    have hpos : 0 < 10 ^ b.length := by positivity
    have hfirst : c.toNat - '0'.toNat = d.toNat - '0'.toNat := by
      have hdiv := congrArg (· / 10 ^ b.length) h
      simpa [Nat.mul_add_div hpos, Nat.div_eq_of_lt hla, Nat.div_eq_of_lt hlb] using hdiv
    rw [hfirst] at h
    rw [← hc, ← hd, hfirst, ih ha' hb' hlength' (Nat.add_left_cancel h)]

/-- A padded number has the digits of its width, and is the number. -/
theorem padded_digits (width n : ℕ) (hwidth : 0 < width) (h : n < 10 ^ width) :
    (padded width n).toList.length = width ∧ (∀ c ∈ (padded width n).toList, c.isDigit = true) ∧
      digitsNumber (padded width n).toList = n := by
  have hlength : (Nat.toDigits 10 n).length ≤ width := (Nat.length_toDigits_le_iff (by decide) hwidth).mpr h
  have htext : (padded width n).toList = List.replicate (width - (Nat.toDigits 10 n).length) '0' ++ Nat.toDigits 10 n := by
    simp [padded]
  rw [htext]
  refine ⟨?_, fun c hc => ?_, ?_⟩
  · rw [List.length_append, List.length_replicate]
    omega
  · rcases List.mem_append.mp hc with hzero | hdigit
    · rw [List.eq_of_mem_replicate hzero]
      rfl
    · exact Nat.isDigit_of_mem_toDigits (by decide) (by decide) hdigit
  · rw [digitsNumber, Nat.ofDigitChars_append, Nat.ofDigitChars_replicate_zero, Nat.mul_zero, Nat.ofDigitChars_ten_toDigits]

end EquityEval.Normalization
