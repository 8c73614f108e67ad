import EquityEval.Arithmetic.Signals

/-!
# The text of a decimal

A decimal prints in scientific notation unless its exponent is not positive and at most six zeros
precede its digits. A text is read by the places of its point and of its exponent sign, so that every
decimal is read back from its own text.
-/

namespace DecimalArithmetic

/-- The text of an integer, with its sign also where it is positive. -/
def signedText (n : ℤ) : List Char := (if n < 0 then '-' else '+') :: Nat.toDigits 10 n.natAbs

/-- Digits with a point at a place, and with zeros up to the place. -/
def pointed (digits : List Char) (place : ℤ) : List Char :=
  if place ≤ 0 then '0' :: '.' :: (List.replicate (-place).toNat '0' ++ digits)
  else if digits.length ≤ place then digits ++ List.replicate (place - digits.length).toNat '0'
  else digits.take place.toNat ++ '.' :: digits.drop place.toNat

namespace Decimal

/-- The digits of a decimal with their point and the exponent that is left. -/
def body (d : Decimal) : List Char :=
  let digits := Nat.toDigits 10 d.coefficient
  let leftDigits := d.exponent + digits.length
  let dotPlace := if d.exponent ≤ 0 ∧ -6 < leftDigits then leftDigits else 1
  pointed digits dotPlace ++ if leftDigits = dotPlace then [] else 'E' :: signedText (leftDigits - dotPlace)

/-- `str(value)`. -/
def toText (d : Decimal) : List Char := (if d.negative then ['-'] else []) ++ d.body

end Decimal

/-! ### Reading -/

/-- Take a sign off a text. -/
def splitSign : List Char → Bool × List Char
  | '-' :: rest => (true, rest)
  | '+' :: rest => (false, rest)
  | text => (false, text)

/-- The number of a text of digits. -/
def readDigits (text : List Char) : Option ℕ :=
  if text ≠ [] ∧ text.all Char.isDigit then some (Nat.ofDigitChars 10 text 0) else none

/-- The integer of a text of digits with an optional sign. -/
def readInt (text : List Char) : Option ℤ :=
  let (negative, digits) := splitSign text
  (readDigits digits).map fun n => if negative then -(n : ℤ) else n

/-- The exponent after the digits of a text; none of it is an exponent of zero. -/
def readExponent : List Char → Option ℤ
  | [] => some 0
  | _ :: exponent => readInt exponent

/-- The character starts an exponent. -/
def exponentSign (c : Char) : Bool := c = 'E' || c = 'e'

/-- `Decimal(text)` of the text of a finite number. -/
def Decimal.ofText (text : List Char) : Option Decimal := do
  let (negative, number) := splitSign text
  let mantissa := number.takeWhile fun c => !exponentSign c
  let integral := mantissa.takeWhile (· ≠ '.')
  let fraction := (mantissa.dropWhile (· ≠ '.')).tail
  let coefficient ← readDigits (integral ++ fraction)
  let exponent ← readExponent (number.dropWhile fun c => !exponentSign c)
  some ⟨negative, coefficient, exponent - fraction.length⟩

/-- A text of digits is read as their number. -/
@[simp] theorem readDigits_toDigits (n : ℕ) : readDigits (Nat.toDigits 10 n) = some n := by
  have hdigits : (Nat.toDigits 10 n).all Char.isDigit = true :=
    List.all_eq_true.mpr fun c hc => Nat.isDigit_of_mem_toDigits (by decide) (by decide) hc
  rw [readDigits, if_pos ⟨Nat.toDigits_ne_nil, hdigits⟩, Nat.ofDigitChars_ten_toDigits]

/-- A text that starts with a digit has no sign. -/
theorem splitSign_of_isDigit {c : Char} {text : List Char} (h : c.isDigit = true) :
    splitSign (c :: text) = (false, c :: text) := by
  unfold splitSign
  split
  next heq =>
    cases heq
    cases h
  next heq =>
    cases heq
    cases h
  next => rfl

/-- An integer is read back from its text. -/
@[simp] theorem readInt_signedText (n : ℤ) : readInt (signedText n) = some n := by
  rcases lt_or_ge n 0 with hneg | hnonneg
  · simp [signedText, readInt, splitSign, hneg, abs_of_neg hneg]
  · simp [signedText, readInt, splitSign, not_lt.mpr hnonneg, abs_of_nonneg hnonneg]

/-- Characters that are taken are taken up to the first one that is not. -/
theorem takeWhile_append {p : Char → Bool} {taken rest : List Char} (htaken : ∀ c ∈ taken, p c = true)
    (hrest : ∀ c ∈ rest.head?, p c = false) :
    (taken ++ rest).takeWhile p = taken ∧ (taken ++ rest).dropWhile p = rest := by
  rw [List.takeWhile_append_of_pos htaken, List.dropWhile_append_of_pos htaken]
  cases rest with
  | nil => simp
  | cons c rest =>
    have hc := hrest c rfl
    rw [List.takeWhile_cons, List.dropWhile_cons, hc]
    simp

/-- A digit is neither a point nor the sign of an exponent. -/
theorem ne_of_isDigit {c : Char} (h : c.isDigit = true) : c ≠ '.' ∧ exponentSign c = false := by
  constructor
  · rintro rfl
    cases h
  · by_contra hsign
    simp only [exponentSign, Bool.not_eq_false, Bool.or_eq_true, decide_eq_true_eq] at hsign
    rcases hsign with rfl | rfl <;> cases h

/-- A decimal is read from its sign, its digits around a point and its exponent. -/
theorem Decimal.ofText_parts {integral fraction point suffix : List Char} {exponent : ℤ} (negative : Bool)
    (hne : integral ≠ []) (hintegral : ∀ c ∈ integral, c.isDigit = true) (hfraction : ∀ c ∈ fraction, c.isDigit = true)
    (hpoint : point = '.' :: fraction ∨ point = [] ∧ fraction = [])
    (hsuffix : suffix = 'E' :: signedText exponent ∨ suffix = [] ∧ exponent = 0) :
    ofText ((if negative then ['-'] else []) ++ (integral ++ point ++ suffix)) =
      some ⟨negative, Nat.ofDigitChars 10 (integral ++ fraction) 0, exponent - fraction.length⟩ := by
  have hsign : splitSign ((if negative then ['-'] else []) ++ (integral ++ point ++ suffix)) =
      (negative, integral ++ point ++ suffix) := by
    cases negative
    · obtain ⟨d, rest, rfl⟩ := List.exists_cons_of_ne_nil hne
      exact splitSign_of_isDigit (hintegral d List.mem_cons_self)
    · rfl
  have hmantissa : ∀ c ∈ integral ++ point, (!exponentSign c) = true := by
    intro c hc
    have hcases : c.isDigit = true ∨ c = '.' := by
      rcases List.mem_append.mp hc with hc | hc
      · exact Or.inl (hintegral c hc)
      · rcases hpoint with rfl | ⟨rfl, -⟩
        · rcases List.mem_cons.mp hc with rfl | hc
          · exact Or.inr rfl
          · exact Or.inl (hfraction c hc)
        · cases hc
    rcases hcases with hdigit | rfl
    · rw [(ne_of_isDigit hdigit).2]
      rfl
    · rfl
  have hsplit : (integral ++ point ++ suffix).takeWhile (fun c => !exponentSign c) = integral ++ point ∧
      (integral ++ point ++ suffix).dropWhile (fun c => !exponentSign c) = suffix :=
    takeWhile_append hmantissa (by rcases hsuffix with rfl | ⟨rfl, -⟩ <;> simp [exponentSign])
  have hplace : (integral ++ point).takeWhile (fun c => decide (c ≠ '.')) = integral ∧
      (integral ++ point).dropWhile (fun c => decide (c ≠ '.')) = point :=
    takeWhile_append (fun c hc => decide_eq_true (ne_of_isDigit (hintegral c hc)).1)
      (by rcases hpoint with rfl | ⟨rfl, -⟩ <;> simp)
  have htail : point.tail = fraction := by
    rcases hpoint with rfl | ⟨rfl, rfl⟩ <;> rfl
  have hexponent : readExponent suffix = some exponent := by
    rcases hsuffix with rfl | ⟨rfl, rfl⟩
    · exact readInt_signedText exponent
    · rfl
  have hdigits : readDigits (integral ++ fraction) = some (Nat.ofDigitChars 10 (integral ++ fraction) 0) := by
    rw [readDigits, if_pos]
    refine ⟨by simp [hne], ?_⟩
    simpa [or_imp, forall_and] using ⟨hintegral, hfraction⟩
  simp only [ofText, hsign, hsplit.1, hsplit.2, hplace.1, hplace.2, htail, hexponent, hdigits, Option.bind_eq_bind,
    Option.bind_some]

/-- A decimal is read from its digits with a point at a place among or before them. -/
theorem Decimal.ofText_pointed {coefficient : ℕ} {place exponent : ℤ} {suffix : List Char} (negative : Bool)
    (hplace : place ≤ (Nat.toDigits 10 coefficient).length)
    (hsuffix : suffix = 'E' :: signedText exponent ∨ suffix = [] ∧ exponent = 0) :
    ofText ((if negative then ['-'] else []) ++ (pointed (Nat.toDigits 10 coefficient) place ++ suffix)) =
      some ⟨negative, coefficient, exponent - ((Nat.toDigits 10 coefficient).length - place)⟩ := by
  have hvalue : Nat.ofDigitChars 10 (Nat.toDigits 10 coefficient) 0 = coefficient := Nat.ofDigitChars_ten_toDigits
  have hne : Nat.toDigits 10 coefficient ≠ [] := Nat.toDigits_ne_nil
  have hdigits : ∀ c ∈ Nat.toDigits 10 coefficient, c.isDigit = true :=
    fun c hc => Nat.isDigit_of_mem_toDigits (by decide) (by decide) hc
  revert hplace hvalue hne hdigits
  generalize Nat.toDigits 10 coefficient = digits
  intro hplace hvalue hne hdigits
  rcases le_or_gt place 0 with hsmall | hlarge
  · rw [pointed, if_pos hsmall]
    have hzeros : ∀ c ∈ List.replicate (-place).toNat '0' ++ digits, c.isDigit = true := by
      intro c hc
      rcases List.mem_append.mp hc with hc | hc
      · rw [List.eq_of_mem_replicate hc]
        rfl
      · exact hdigits c hc
    have hcoefficient : Nat.ofDigitChars 10 (['0'] ++ (List.replicate (-place).toNat '0' ++ digits)) 0 = coefficient := by
      simp [Nat.ofDigitChars_append, Nat.ofDigitChars_cons, hvalue]
    have hlength : ((List.replicate (-place).toNat '0' ++ digits).length : ℤ) = digits.length - place := by
      rw [List.length_append, List.length_replicate]
      omega
    have hread := ofText_parts negative (List.cons_ne_nil '0' []) (by simp) hzeros (Or.inl rfl) hsuffix
    rwa [hcoefficient, hlength] at hread
  · rcases le_or_gt (digits.length : ℤ) place with hall | hpart
    · rw [pointed, if_neg (not_le.mpr hlarge), if_pos hall]
      have hnone : (place - digits.length).toNat = 0 := by omega
      have hnothing : ∀ c ∈ ([] : List Char), c.isDigit = true := by simp
      have hread := ofText_parts negative hne hdigits hnothing (Or.inr ⟨rfl, rfl⟩) hsuffix
      rw [List.append_nil, hvalue] at hread
      rw [hnone, List.replicate_zero, List.append_nil, hread, le_antisymm hplace hall]
      simp
    · rw [pointed, if_neg (not_le.mpr hlarge), if_neg (not_le.mpr hpart)]
      have htake : digits.take place.toNat ≠ [] := by
        rw [Ne, List.take_eq_nil_iff, not_or]
        exact ⟨by omega, hne⟩
      have hread := ofText_parts negative htake (fun c hc => hdigits c (List.mem_of_mem_take hc))
        (fun c (hc : c ∈ digits.drop place.toNat) => hdigits c (List.mem_of_mem_drop hc)) (Or.inl rfl) hsuffix
      have hlength : ((digits.drop place.toNat).length : ℤ) = digits.length - place := by
        rw [List.length_drop]
        omega
      rwa [List.take_append_drop, hvalue, hlength] at hread

/-- A decimal is read back from its text. -/
@[simp] theorem Decimal.ofText_toText (d : Decimal) : ofText d.toText = some d := by
  have hlength : 0 < (Nat.toDigits 10 d.coefficient).length := List.length_pos_of_ne_nil Nat.toDigits_ne_nil
  simp only [toText, body]
  generalize hplace : (if d.exponent ≤ 0 ∧ -6 < d.exponent + ((Nat.toDigits 10 d.coefficient).length : ℤ) then
    d.exponent + ((Nat.toDigits 10 d.coefficient).length : ℤ) else 1) = place
  have hle : place ≤ (Nat.toDigits 10 d.coefficient).length := by
    split at hplace <;> omega
  generalize hexponent : d.exponent + ((Nat.toDigits 10 d.coefficient).length : ℤ) - place = exponent
  have hsuffix : ∀ suffix : List Char, suffix = (if d.exponent + ((Nat.toDigits 10 d.coefficient).length : ℤ) = place then []
      else 'E' :: signedText exponent) → suffix = 'E' :: signedText exponent ∨ suffix = [] ∧ exponent = 0 := by
    intro suffix hsuffix
    split at hsuffix
    next heq => exact Or.inr ⟨hsuffix, by omega⟩
    next => exact Or.inl hsuffix
  rw [ofText_pointed d.negative hle (hsuffix _ rfl)]
  congr 2
  omega

/-! ### Special numbers -/

/-- The text of a number without its sign. -/
def Number.unsigned : Number → List Char
  | .finite d => d.body
  | .infinite _ => "Infinity".toList
  | .nan _ signaling payload =>
    (if signaling then "sNaN" else "NaN").toList ++ if payload = 0 then [] else Nat.toDigits 10 payload

/-- The sign of a number. -/
def Number.negative : Number → Bool
  | .finite d => d.negative
  | .infinite negative => negative
  | .nan negative _ _ => negative

/-- `str(value)` of any number. -/
def Number.toText (n : Number) : List Char := (if n.negative then ['-'] else []) ++ n.unsigned

/-- `Decimal(text)` of the text of any number. -/
def Number.ofText (text : List Char) : Option Number :=
  let (negative, body) := splitSign text
  match body with
  | 'I' :: _ => some (.infinite negative)
  | 'N' :: 'a' :: 'N' :: payload => some (.nan negative false (Nat.ofDigitChars 10 payload 0))
  | 's' :: 'N' :: 'a' :: 'N' :: payload => some (.nan negative true (Nat.ofDigitChars 10 payload 0))
  | _ => (Decimal.ofText text).map .finite

/-- Digits with a point start with a digit. -/
theorem pointed_head {digits : List Char} (hne : digits ≠ []) (hdigits : ∀ c ∈ digits, c.isDigit = true) (place : ℤ) :
    ∃ c rest, pointed digits place = c :: rest ∧ c.isDigit = true := by
  obtain ⟨first, others, rfl⟩ := List.exists_cons_of_ne_nil hne
  have hfirst := hdigits first List.mem_cons_self
  unfold pointed
  split
  · exact ⟨'0', _, rfl, rfl⟩
  · split
    · exact ⟨first, _, rfl, hfirst⟩
    · obtain ⟨k, hk⟩ : ∃ k, place.toNat = k + 1 := ⟨place.toNat - 1, by omega⟩
      rw [hk]
      exact ⟨first, _, rfl, hfirst⟩

/-- The text of a decimal without its sign starts with a digit. -/
theorem Decimal.body_head (d : Decimal) : ∃ c rest, d.body = c :: rest ∧ c.isDigit = true := by
  have hdigits : ∀ c ∈ Nat.toDigits 10 d.coefficient, c.isDigit = true :=
    fun c hc => Nat.isDigit_of_mem_toDigits (by decide) (by decide) hc
  have hhead := pointed_head Nat.toDigits_ne_nil hdigits
  have happend : ∀ place suffix, ∃ c rest, pointed (Nat.toDigits 10 d.coefficient) place ++ suffix = c :: rest ∧
      c.isDigit = true := by
    intro place suffix
    obtain ⟨c, rest, hpointed, hc⟩ := hhead place
    exact ⟨c, rest ++ suffix, by rw [hpointed, List.cons_append], hc⟩
  simp only [body]
  exact happend _ _

/-- The payload of a number that is none is read back. -/
theorem ofDigitChars_payload (payload : ℕ) :
    Nat.ofDigitChars 10 (if payload = 0 then [] else Nat.toDigits 10 payload) 0 = payload := by
  split
  next hzero => rw [hzero, Nat.ofDigitChars_nil]
  next => exact Nat.ofDigitChars_ten_toDigits

/-- A number is read back from its text. -/
@[simp] theorem Number.ofText_toText (n : Number) : ofText n.toText = some n := by
  cases n with
  | finite d =>
    have hread : Decimal.ofText (Number.finite d).toText = some d := d.ofText_toText
    obtain ⟨c, rest, hbody, hc⟩ := d.body_head
    have hsplit : ∀ negative : Bool, splitSign ((if negative then ['-'] else []) ++ c :: rest) = (negative, c :: rest) := by
      intro negative
      cases negative
      · exact splitSign_of_isDigit hc
      · rfl
    have htext : (Number.finite d).toText = (if d.negative then ['-'] else []) ++ c :: rest := by
      rw [← hbody]
      rfl
    rw [htext] at hread ⊢
    simp only [ofText, hsplit]
    split
    case h_4 => rw [hread, Option.map_some]
    all_goals
      next heq =>
        cases heq
        cases hc
  | infinite negative => cases negative <;> rfl
  | nan negative signaling payload =>
    have hpayload := ofDigitChars_payload payload
    cases negative <;> cases signaling <;>
      exact congrArg (fun payload => some (Number.nan _ _ payload)) hpayload

/-- Numbers with one text are one number. -/
theorem Number.toText_injective : Function.Injective Number.toText := by
  intro n m h
  have hread := congrArg ofText h
  rw [ofText_toText, ofText_toText] at hread
  exact Option.some.inj hread

end DecimalArithmetic
