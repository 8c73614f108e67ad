import EquityEval.Filing.Facts
import EquityEval.Normalization.Digits

/-!
# Amounts of inline facts

An amount that is accepted is the number that its text writes, shifted by its scale and with its sign.
-/

namespace EquityEval.Filing

open DecimalArithmetic (Decimal readDigits splitSign)
open Normalization (digitsNumber)
open Relational (bind_eq_ok orRaise_eq_ok raiseIf_eq_ok)
open Text
open Text.Pattern (concat lit many one oneOf plus)

/-- The text of a number in the source: its spaces and, where it has a transform, its groups are removed; a fixed zero is zero. -/
def sourceText (lexical : List Char) : Option QName → List Char
  | none => strip numericSpace lexical
  | some format =>
    if format.localName = "fixed-zero" then ['0']
    else (strip numericSpace lexical).filter fun c => c ∉ [',', ' ', '\t', '\r', '\n', noBreakSpace]

/-- The number that a text of digits with a point writes. -/
def writtenNumber (text : List Char) : ℚ :=
  let unsigned := text.filter (· ≠ '+')
  let whole := unsigned.takeWhile (· ≠ '.')
  let fraction := (unsigned.dropWhile (· ≠ '.')).tail
  digitsNumber whole + digitsNumber fraction / 10 ^ fraction.length

section

variable {text sign whole point fraction : List Char}

/-- The text is digits with at most one point and at most one plus before them. -/
structure Amount (text sign whole point fraction : List Char) : Prop where
  isText : text = sign ++ (whole ++ (point ++ fraction))
  isSign : sign = [] ∨ sign = ['+']
  isPoint : point = [] ∧ fraction = [] ∨ point = ['.']
  wholeDigits : ∀ c ∈ whole, c.isDigit = true
  fractionDigits : ∀ c ∈ fraction, c.isDigit = true
  nonempty : whole ++ fraction ≠ []

/-- What matches the pattern of amounts is an amount. -/
theorem amount_of_matches (h : amountPattern.Matches text) : ∃ sign whole point fraction, Amount text sign whole point fraction := by
  simp only [amountPattern, Pattern.matches_concat_cons, Pattern.matches_concat_nil, Pattern.matches_alt, Pattern.matches_empty,
    Pattern.matches_lit, Pattern.matches_plus, Pattern.matches_many] at h
  obtain ⟨sign, _, rfl, hsign, _, _, rfl, hnumber, rfl⟩ := h
  rw [List.append_nil]
  rcases hnumber with ⟨whole, _, rfl, ⟨hne, hwhole⟩, _, _, rfl, hrest, rfl⟩ | ⟨_, _, rfl, rfl, fraction, _, rfl, ⟨hne, hfraction⟩, rfl⟩
  · rcases hrest with rfl | ⟨_, _, rfl, rfl, fraction, _, rfl, hfraction, rfl⟩
    · exact ⟨sign, whole, [], [], by simp, hsign, Or.inl ⟨rfl, rfl⟩, hwhole, by simp, by simpa using hne⟩
    · exact ⟨sign, whole, ['.'], fraction, by simp, hsign, Or.inr rfl, hwhole, hfraction, by simp [hne]⟩
  · exact ⟨sign, [], ['.'], fraction, by simp, hsign, Or.inr rfl, by simp, hfraction, by simpa using hne⟩

namespace Amount

/-- The characters after the sign are digits and points. -/
theorem body (h : Amount text sign whole point fraction) : ∀ c ∈ whole ++ (point ++ fraction), c.isDigit = true ∨ c = '.' := by
  intro c hc
  simp only [List.mem_append] at hc
  rcases hc with hc | hc | hc
  · exact Or.inl (h.wholeDigits c hc)
  · rcases h.isPoint with ⟨rfl, -⟩ | rfl
    · cases hc
    · exact Or.inr (List.mem_singleton.mp hc)
  · exact Or.inl (h.fractionDigits c hc)

/-- The digits before and after the point. -/
theorem split (h : Amount text sign whole point fraction) :
    (whole ++ (point ++ fraction)).takeWhile (fun c => decide (c ≠ '.')) = whole ∧
      ((whole ++ (point ++ fraction)).dropWhile fun c => decide (c ≠ '.')).tail = fraction := by
  have hwhole : ∀ c ∈ whole, decide (c ≠ '.') = true := fun c hc => decide_eq_true (DecimalArithmetic.ne_of_isDigit (h.wholeDigits c hc)).1
  have hplace : (whole ++ (point ++ fraction)).takeWhile (fun c => decide (c ≠ '.')) = whole ∧
      (whole ++ (point ++ fraction)).dropWhile (fun c => decide (c ≠ '.')) = point ++ fraction :=
    DecimalArithmetic.takeWhile_append hwhole (by rcases h.isPoint with ⟨rfl, rfl⟩ | rfl <;> simp)
  rw [hplace.1, hplace.2]
  refine ⟨rfl, ?_⟩
  rcases h.isPoint with ⟨rfl, rfl⟩ | rfl <;> rfl

/-- The number that an amount writes. -/
theorem writtenNumber_eq (h : Amount text sign whole point fraction) :
    writtenNumber text = digitsNumber whole + digitsNumber fraction / 10 ^ fraction.length := by
  have hunsigned : text.filter (· ≠ '+') = whole ++ (point ++ fraction) := by
    have hbody : (whole ++ (point ++ fraction)).filter (· ≠ '+') = whole ++ (point ++ fraction) := by
      rw [List.filter_eq_self]
      intro c hc
      apply decide_eq_true
      rintro rfl
      rcases h.body _ hc with hdigit | hpoint
      · exact absurd hdigit (by decide)
      · exact absurd hpoint (by decide)
    rw [h.isText, List.filter_append, hbody]
    rcases h.isSign with rfl | rfl <;> rfl
  unfold writtenNumber
  rw [hunsigned]
  simp only [h.split.1, h.split.2]

/-- A decimal is built from all the digits of an amount. -/
theorem ofText_eq (h : Amount text sign whole point fraction) :
    Decimal.ofText text = some ⟨false, digitsNumber (whole ++ fraction), -(fraction.length : ℤ)⟩ := by
  have hsign : splitSign text = (false, whole ++ (point ++ fraction)) := by
    rw [h.isText]
    rcases h.isSign with rfl | rfl
    · obtain ⟨c, rest, hcons⟩ : ∃ c rest, whole ++ (point ++ fraction) = c :: rest := by
        apply List.exists_cons_of_ne_nil
        intro hnil
        simp only [List.append_eq_nil_iff] at hnil
        exact h.nonempty (by rw [hnil.1, hnil.2.2]; rfl)
      rw [List.nil_append, hcons]
      rcases h.body c (by rw [hcons]; exact List.mem_cons_self) with hdigit | rfl
      · exact DecimalArithmetic.splitSign_of_isDigit hdigit
      · rfl
    · rfl
  have hnone : ∀ c ∈ whole ++ (point ++ fraction), (!DecimalArithmetic.exponentSign c) = true := by
    intro c hc
    rcases h.body c hc with hdigit | rfl
    · rw [(DecimalArithmetic.ne_of_isDigit hdigit).2]
      rfl
    · rfl
  have hdigits : readDigits (whole ++ fraction) = some (digitsNumber (whole ++ fraction)) := by
    rw [readDigits, if_pos]
    · rfl
    · refine ⟨h.nonempty, List.all_eq_true.mpr fun c hc => ?_⟩
      exact (List.mem_append.mp hc).elim (h.wholeDigits c) (h.fractionDigits c)
  unfold Decimal.ofText
  simp only [hsign, List.takeWhile_eq_self_iff.mpr hnone, List.dropWhile_eq_nil_iff.mpr hnone, h.split.1, h.split.2, hdigits,
    DecimalArithmetic.readExponent, Option.bind_eq_bind, Option.bind_some, zero_sub]

end Amount

/-- Digits after digits count for as many places as follow. -/
theorem digitsNumber_append (a b : List Char) : digitsNumber (a ++ b) = digitsNumber a * 10 ^ b.length + digitsNumber b := by
  rw [digitsNumber, Nat.ofDigitChars_append, Nat.ofDigitChars_eq_ofDigitChars_zero, Nat.mul_comm]
  rfl

/-- What is read of a number is the text in the source without its groups. -/
theorem transformed_eq_ok {lexical : List Char} {format : Option QName} (h : transformed (strip numericSpace lexical) format = .ok text) :
    text = sourceText lexical format := by
  cases format with
  | none =>
    cases h
    rfl
  | some format =>
    unfold transformed at h
    obtain ⟨_, -, h⟩ := bind_eq_ok.mp h
    unfold sourceText
    split at h
    next hzero =>
      cases h
      exact (if_pos hzero).symm
    next hgrouped =>
      obtain ⟨_, -, hreturn⟩ := bind_eq_ok.mp h
      cases hreturn
      dsimp only
      rw [if_neg hgrouped]
      -- tabs and line ends become spaces, which are removed
      generalize strip numericSpace lexical = text
      induction text with
      | nil => rfl
      | cons c text ih =>
        rw [List.map_cons, List.filter_cons, List.filter_cons, ih]
        by_cases hspace : c = '\t' ∨ c = '\r' ∨ c = '\n'
        · rw [if_pos hspace]
          rcases hspace with rfl | rfl | rfl <;> rfl
        · rw [if_neg hspace]
          push Not at hspace
          simp [hspace]

/-- A number that is accepted is the number that is written, times the power of ten of its scale, with its sign. -/
theorem number_eq_ok {lexical : List Char} {format : Option QName} {scale : ℤ} {minus : Option String} {d : Decimal}
    (h : number lexical format scale minus = .ok d) :
    d.value = (if minus = some "-" then -1 else 1) * (writtenNumber (sourceText lexical format) * 10 ^ scale) := by
  simp only [number, bind_eq_ok, raiseIf_eq_ok, orRaise_eq_ok, not_not] at h
  obtain ⟨_, -, text, htext, _, hmatches, value, hvalue, hreturn⟩ := h
  cases hreturn
  rw [← transformed_eq_ok htext]
  obtain ⟨sign, whole, point, fraction, hamount⟩ := amount_of_matches hmatches
  rw [hamount.ofText_eq] at hvalue
  cases hvalue
  rw [hamount.writtenNumber_eq, digitsNumber_append]
  have hshift : (10 : ℚ) ^ (-(fraction.length : ℤ) + scale) = 10 ^ scale / 10 ^ fraction.length := by
    rw [zpow_add₀ (by norm_num), zpow_neg, zpow_natCast]
    ring
  have hne : (10 : ℚ) ^ fraction.length ≠ 0 := by positivity
  unfold Decimal.value Decimal.signed
  rw [hshift]
  by_cases hminus : minus = some "-"
  · simp only [hminus, decide_true, if_true]
    push_cast
    field_simp
  · simp only [hminus, decide_false, if_false, Bool.false_eq_true]
    push_cast
    field_simp

end

end EquityEval.Filing
