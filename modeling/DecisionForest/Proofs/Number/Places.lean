import Mathlib.Algebra.Group.Nat.Defs
import DecisionForest.Number.Fixed
import DecisionForest.Proofs.Number.Literal

/-!
# Digits with fixed places

Digits with a point are a decimal, and `n` units of the last place stand for the value nearest to
`n / 10 ^ places`.

- `Numeral.ofDigitChars_padded` is the value of the digits after the point,
- `denotes_placesText` is the decimal, `literal_placesText` its value, with a sign or without one.
-/

namespace DecisionForest
namespace Numeral

/-! ## Digits after the point -/

theorem isDigit_of_mem_padded {width n : Nat} {c : Char} (h : c ∈ padded width n) :
    c.isDigit = true := by
  induction width generalizing n with
  | zero =>
      cases h
  | succ width ih =>
      rcases List.mem_append.1 h with hinit | hlast
      · exact ih hinit
      · rw [List.mem_singleton.1 hlast, Nat.isDigit_digitChar]
        exact decide_eq_true (Nat.mod_lt n (by decide))

theorem length_padded (width n : Nat) : (padded width n).length = width := by
  induction width generalizing n with
  | zero =>
      rfl
  | succ width ih =>
      rw [padded, List.length_append, ih]
      rfl

theorem ofDigitChars_padded (width n init : Nat) :
    Nat.ofDigitChars 10 (padded width n) init = init * 10 ^ width + n % 10 ^ width := by
  induction width generalizing n with
  | zero =>
      simp [padded, Nat.mod_one]
  | succ width ih =>
      have hlast : n % 10 < 10 := Nat.mod_lt n (by decide)
      have hsplit : n % 10 ^ (width + 1) = n % 10 + 10 * (n / 10 % 10 ^ width) := by
        rw [Nat.pow_succ, Nat.mul_comm, Nat.mod_mul]
      rw [padded, Nat.ofDigitChars_append, ih,
        Nat.ofDigitChars_cons_digitChar_of_lt_ten hlast, Nat.ofDigitChars_nil, hsplit, Nat.pow_succ,
        ← Nat.mul_assoc]
      omega

theorem ofDigitChars_digits_padded (places n : Nat) :
    Nat.ofDigitChars 10 (digits (n / 10 ^ places) ++ padded places n) 0 = n := by
  have hwhole : Nat.ofDigitChars 10 (digits (n / 10 ^ places)) 0 = n / 10 ^ places :=
    Nat.ofDigitChars_toDigits (by decide) (by decide)
  rw [Nat.ofDigitChars_append, hwhole, ofDigitChars_padded]
  exact Nat.div_add_mod' n (10 ^ places)

end Numeral

/-! ## Digits with a point -/

/-- The decimal that the digits of `n` units of the last place are. -/
def placesDecimal (places n : Nat) : DecimalLiteral where
  digits := Numeral.digits (n / Nat.pow 10 places) ++ Numeral.padded places n
  exponent := -places

theorem denotes_placesText (places n : Nat) :
    DecimalLiteral.Denotes (placesText places n) (placesDecimal places n) := by
  have hdigits : IsDigits (Numeral.digits (n / Nat.pow 10 places) ++ Numeral.padded places n) := by
    refine ⟨List.append_ne_nil_of_left_ne_nil Nat.toDigits_ne_nil _, ?_⟩
    intro c hc
    rcases List.mem_append.1 hc with hwhole | hfraction
    · exact Numeral.isDigit_of_mem_digits hwhole
    · exact Numeral.isDigit_of_mem_padded hfraction
  have hdenotes := DecimalLiteral.Denotes.pointed hdigits .absent
  rwa [List.append_nil, Numeral.length_padded, Int.zero_sub] at hdenotes

theorem numerator_placesDecimal (places n : Nat) : (placesDecimal places n).numerator = n := by
  have hwhole : (placesDecimal places n).exponent.toNat = 0 :=
    Int.toNat_of_nonpos (by simp [placesDecimal])
  rw [DecimalLiteral.numerator, hwhole, Nat.pow_zero, Nat.mul_one]
  exact Numeral.ofDigitChars_digits_padded places n

theorem denominator_placesDecimal (places n : Nat) :
    (placesDecimal places n).denominator = Nat.pow 10 places := by
  simp [DecimalLiteral.denominator, placesDecimal]

/-- The digits stand for the nearest value, with the sign before them. -/
theorem literal_placesText (negative : Bool) (places n : Nat) :
    Literal (signText negative ++ placesText places n)
      (encode negative (nearestMagnitude n (Nat.pow 10 places))) := by
  have hvalue : UnsignedLiteral negative _ _ := .decimal (denotes_placesText places n)
  rw [numerator_placesDecimal, denominator_placesDecimal] at hvalue
  cases negative with
  | false =>
      exact .unsigned hvalue
  | true =>
      exact .minus hvalue

end DecisionForest
