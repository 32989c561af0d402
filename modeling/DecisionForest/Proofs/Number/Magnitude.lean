import DecisionForest.Number.Literal
import DecisionForest.Proofs.Number.Nearest

/-!
# The value of a decimal

A decimal stands for the value nearest to it. The reader answers early for very large and very small
decimals, where the powers of ten would be large; these answers are the nearest values too.

- `Numeral.ten_pow_length_le` and `Numeral.ofDigitChars_lt` bound a number by the number of its
  digits,
- `nearestMagnitude_eq_infinite` and `nearestMagnitude_eq_zero` are the two ends of the range,
- `DecimalLiteral.magnitude_eq` is what the reader makes of a decimal, whatever its size.
-/

namespace DecisionForest
namespace Numeral

/-! ## Digits -/

theorem ofDigitChars_dropZeros (cs : List Char) :
    Nat.ofDigitChars 10 (cs.dropWhile (· == '0')) 0 = Nat.ofDigitChars 10 cs 0 := by
  induction cs with
  | nil =>
      rfl
  | cons c cs ih =>
      by_cases hzero : c = '0'
      · subst hzero
        rw [List.dropWhile_cons_of_pos (by decide), ih, Nat.ofDigitChars_cons]
        rfl
      · rw [List.dropWhile_cons_of_neg (by simpa using hzero)]

theorem digit_le_nine {c : Char} (h : c.isDigit = true) : c.toNat - '0'.toNat ≤ 9 := by
  have hrange : '0'.toNat ≤ c.toNat ∧ c.toNat ≤ '9'.toNat := Char.isDigit_iff_toNat.1 h
  have hnine : '9'.toNat = '0'.toNat + 9 := rfl
  omega

/-- A number without leading zeros is no smaller than its number of digits allows. -/
theorem ten_pow_length_le {cs : List Char} (hdigits : ∀ c ∈ cs, c.isDigit = true)
    (hhead : cs.head? ≠ some '0') : 10 ^ cs.length ≤ max 1 (10 * Nat.ofDigitChars 10 cs 0) := by
  cases cs with
  | nil =>
      exact Nat.le_max_left 1 _
  | cons c cs =>
      have hrange : '0'.toNat ≤ c.toNat ∧ c.toNat ≤ '9'.toNat :=
        Char.isDigit_iff_toNat.1 (hdigits c List.mem_cons_self)
      have hne : c.toNat ≠ '0'.toNat := fun heq => hhead (congrArg some (Char.toNat_inj.1 heq))
      have hfirst : 1 ≤ c.toNat - '0'.toNat := by omega
      have hvalue : 10 ^ cs.length ≤ Nat.ofDigitChars 10 (c :: cs) 0 := by
        rw [Nat.ofDigitChars_cons, Nat.ofDigitChars_eq_ofDigitChars_zero, Nat.mul_zero, Nat.zero_add]
        calc
          10 ^ cs.length = 10 ^ cs.length * 1 := (Nat.mul_one _).symm
          _ ≤ 10 ^ cs.length * (c.toNat - '0'.toNat) := Nat.mul_le_mul_left _ hfirst
          _ ≤ _ := Nat.le_add_right _ _
      rw [List.length_cons, Nat.pow_succ]
      omega

theorem ofDigitChars_lt {cs : List Char} (hdigits : ∀ c ∈ cs, c.isDigit = true) :
    Nat.ofDigitChars 10 cs 0 < 10 ^ cs.length := by
  induction cs with
  | nil =>
      exact Nat.one_pos
  | cons c cs ih =>
      have hrest := ih fun d hd => hdigits d (List.mem_cons_of_mem c hd)
      have hfirst := digit_le_nine (hdigits c List.mem_cons_self)
      rw [Nat.ofDigitChars_cons, Nat.ofDigitChars_eq_ofDigitChars_zero, Nat.mul_zero, Nat.zero_add]
      calc
        10 ^ cs.length * (c.toNat - '0'.toNat) + Nat.ofDigitChars 10 cs 0
        _ < 10 ^ cs.length * 9 + 10 ^ cs.length :=
          Nat.add_lt_add_of_le_of_lt (Nat.mul_le_mul_left _ hfirst) hrest
        _ = 10 ^ (c :: cs).length := by rw [List.length_cons, Nat.pow_succ, ← Nat.mul_succ]

end Numeral

/-! ## The ends of the range -/

/-- There are two to this power units in one. -/
def unitsExponent : Nat := 1074

/-- Two to this power is too large for a finite value. -/
def overflowExponent : Nat := 1024

section Range

variable {num den : Nat}

theorem unitsPerOne_eq : unitsPerOne = 2 ^ unitsExponent := by
  decide +kernel

/-- From some power of two upward there is only infinity. -/
theorem nearestMagnitude_eq_infinite (hden : 0 < den) (h : den * 2 ^ overflowExponent ≤ num) :
    nearestMagnitude num den = infiniteMagnitude := by
  have hunits : 2 ^ (overflowExponent + unitsExponent) ≤ num * unitsPerOne / den := by
    rw [Nat.le_div_iff_mul_le hden]
    calc
      2 ^ (overflowExponent + unitsExponent) * den = den * 2 ^ overflowExponent * unitsPerOne := by
        rw [Nat.pow_add, Nat.mul_comm _ den, ← Nat.mul_assoc, unitsPerOne_eq]
      _ ≤ num * unitsPerOne := Nat.mul_le_mul_right _ h
  have hne : num * unitsPerOne / den ≠ 0 :=
    Nat.ne_zero_of_lt (Nat.lt_of_lt_of_le (Nat.two_pow_pos _) hunits)
  have hshift : 2046 ≤ nearestShift num den := by
    have hlog := (Nat.le_log2 hne).2 hunits
    unfold overflowExponent unitsExponent at hlog
    unfold nearestShift
    omega
  have hsignificand := le_nearestSignificand num hden (by omega)
  have hexponent := Nat.mul_le_mul_right exponentWeight hshift
  rw [nearestMagnitude_eq, infiniteMagnitude_eq]
  omega

/-- Below half a unit there is only zero. -/
theorem nearestMagnitude_eq_zero (h : 2 * (num * unitsPerOne) < den) :
    nearestMagnitude num den = 0 := by
  have hnone : num * unitsPerOne / den = 0 := Nat.div_eq_of_lt (by omega)
  have hrest : num * unitsPerOne % den = num * unitsPerOne := Nat.mod_eq_of_lt (by omega)
  have hshift : nearestShift num den = 0 := by
    rw [nearestShift, hnone, Nat.log2_zero]
  rw [nearestMagnitude_eq, nearestSignificand, hshift, Nat.pow_zero, Nat.mul_one, roundQuotient,
    hrest, if_pos h, hnone, Nat.zero_mul, Nat.zero_min]

end Range

/-! ## Decimals -/

namespace DecimalLiteral

/-- A decimal is the quotient of this number and `denominator`. -/
def numerator (d : DecimalLiteral) : Nat :=
  Nat.ofDigitChars 10 d.digits 0 * 10 ^ d.exponent.toNat

def denominator (d : DecimalLiteral) : Nat :=
  10 ^ (-d.exponent).toNat

variable {d : DecimalLiteral}

theorem denominator_pos (d : DecimalLiteral) : 0 < d.denominator :=
  Nat.pow_pos (by decide)

section Order

variable {n length : Nat} {exponent : Int}

/-- Decimals of an order above this one are infinite. -/
def greatestOrder : Nat := 310

/-- Ten to this power, and more, divides what is read as zero. -/
def vanishingOrder : Nat := 331

theorem two_pow_mul_le_of_order (hn : 10 ^ length ≤ 10 * n) (h : greatestOrder < length + exponent) :
    10 ^ (-exponent).toNat * 2 ^ overflowExponent ≤ n * 10 ^ exponent.toNat := by
  have hlimit : 10 * 2 ^ overflowExponent ≤ 10 ^ (greatestOrder + 1) := by
    decide +kernel
  have hexponents : (-exponent).toNat + (greatestOrder + 1) ≤ length + exponent.toNat := by omega
  refine Nat.le_of_mul_le_mul_left ?_ (Nat.succ_pos 9)
  calc
    10 * (10 ^ (-exponent).toNat * 2 ^ overflowExponent)
    _ = 10 ^ (-exponent).toNat * (10 * 2 ^ overflowExponent) := Nat.mul_left_comm _ _ _
    _ ≤ 10 ^ (-exponent).toNat * 10 ^ (greatestOrder + 1) := Nat.mul_le_mul_left _ hlimit
    _ = 10 ^ ((-exponent).toNat + (greatestOrder + 1)) := (Nat.pow_add _ _ _).symm
    _ ≤ 10 ^ (length + exponent.toNat) := Nat.pow_le_pow_right (by decide) hexponents
    _ = 10 ^ length * 10 ^ exponent.toNat := Nat.pow_add _ _ _
    _ ≤ 10 * n * 10 ^ exponent.toNat := Nat.mul_le_mul_right _ hn
    _ = 10 * (n * 10 ^ exponent.toNat) := Nat.mul_assoc _ _ _

theorem two_mul_units_lt_of_order (hn : n < 10 ^ length) (h : length + exponent ≤ -vanishingOrder) :
    2 * (n * 10 ^ exponent.toNat * unitsPerOne) < 10 ^ (-exponent).toNat := by
  have hlimit : 2 * unitsPerOne ≤ 10 ^ vanishingOrder := by
    decide +kernel
  have hwhole : exponent.toNat = 0 := by omega
  have hexponents : vanishingOrder + length ≤ (-exponent).toNat := by omega
  rw [hwhole, Nat.pow_zero, Nat.mul_one]
  calc
    2 * (n * unitsPerOne) = 2 * unitsPerOne * n := by
      rw [Nat.mul_assoc, Nat.mul_comm n]
    _ ≤ 10 ^ vanishingOrder * n := Nat.mul_le_mul_right _ hlimit
    _ < 10 ^ vanishingOrder * 10 ^ length :=
      Nat.mul_lt_mul_of_pos_left hn (Nat.pow_pos (Nat.succ_pos 9))
    _ = 10 ^ (vanishingOrder + length) := (Nat.pow_add _ _ _).symm
    _ ≤ 10 ^ (-exponent).toNat := Nat.pow_le_pow_right (by decide) hexponents

end Order

/-- A decimal stands for the value nearest to it. -/
theorem magnitude_eq (hdigits : ∀ c ∈ d.digits, c.isDigit = true) :
    d.magnitude = nearestMagnitude d.numerator d.denominator := by
  unfold magnitude
  simp only
  have hvalue := Numeral.ofDigitChars_dropZeros d.digits
  have hsignificant : ∀ c ∈ d.digits.dropWhile (· == '0'), c.isDigit = true :=
    fun c hc => hdigits c ((List.dropWhile_sublist _).subset hc)
  have hhead : (d.digits.dropWhile (· == '0')).head? ≠ some '0' := by
    intro hhead
    have hnot := List.head?_dropWhile_not (· == '0') d.digits
    rw [hhead] at hnot
    cases hnot
  -- Of the digits only the number, the bounds on it and the first one matter from here on.
  generalize d.digits.dropWhile (· == '0') = significant at *
  have hmost := Numeral.ten_pow_length_le hsignificant hhead
  have hleast := Numeral.ofDigitChars_lt hsignificant
  rw [hvalue] at hmost hleast ⊢
  have hnumerator : d.numerator = Nat.ofDigitChars 10 d.digits 0 * 10 ^ d.exponent.toNat := rfl
  generalize Nat.ofDigitChars 10 d.digits 0 = n at *
  by_cases hzero : n = 0
  · rw [if_pos hzero, hnumerator, hzero, Nat.zero_mul, nearestMagnitude_eq_zero]
    simpa using d.denominator_pos
  rw [if_neg hzero]
  by_cases hhigh : (significant.length : Int) + d.exponent > 310
  · have hlarge := two_pow_mul_le_of_order (by omega : 10 ^ significant.length ≤ 10 * n) hhigh
    rw [if_pos hhigh, hnumerator, nearestMagnitude_eq_infinite d.denominator_pos hlarge]
  rw [if_neg hhigh]
  by_cases hlow : (significant.length : Int) + d.exponent < -330
  · have hsmall : 2 * (n * 10 ^ d.exponent.toNat * unitsPerOne) < d.denominator :=
      two_mul_units_lt_of_order hleast (Int.le_sub_one_of_lt hlow)
    rw [if_pos hlow, hnumerator, nearestMagnitude_eq_zero hsmall]
  rw [if_neg hlow]
  by_cases hwhole : d.exponent ≥ 0
  · have hone : d.denominator = 1 := by
      rw [denominator, Int.toNat_of_nonpos (by omega), Nat.pow_zero]
    rw [if_pos hwhole, hnumerator, hone]
    rfl
  · have hunscaled : d.numerator = n := by
      rw [hnumerator, Int.toNat_of_nonpos (by omega), Nat.pow_zero, Nat.mul_one]
    rw [if_neg hwhole, hunscaled]
    rfl

end DecimalLiteral
end DecisionForest
