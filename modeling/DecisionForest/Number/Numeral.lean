/-!
# Numerals

Unsigned decimal numerals as they stand in model text, in rows and in variables.

- `Numeral.readNat?` reads a numeral of any size: an optional plus sign, then one or more ASCII
  digits; leading zeros are allowed and a minus sign is not,
- `Numeral.readUInt32?` and `Numeral.readUInt64?` refuse values that do not fit the word,
- `Numeral.digits` writes the digits of a number without leading zeros.
-/

namespace DecisionForest
namespace Numeral

/-! ## Reading -/

/-- The characters after an optional plus sign. -/
def dropPlus : List Char → List Char
  | '+' :: rest => rest
  | cs => cs

/-- The value of a text made of one or more ASCII digits. -/
def readDigits? (cs : List Char) : Option Nat :=
  if cs ≠ [] ∧ cs.all Char.isDigit then some (Nat.ofDigitChars 10 cs 0) else none

def readNat? (cs : List Char) : Option Nat :=
  readDigits? (dropPlus cs)

def readUInt32? (cs : List Char) : Option UInt32 :=
  match readNat? cs with
  | some n => if n < UInt32.size then some (UInt32.ofNat n) else none
  | none => none

def readUInt64? (cs : List Char) : Option UInt64 :=
  match readNat? cs with
  | some n => if n < UInt64.size then some (UInt64.ofNat n) else none
  | none => none

/-! ## Writing -/

def digits (n : Nat) : List Char :=
  Nat.toDigits 10 n

/-- The last `width` digits of `n`, with leading zeros. -/
def padded : Nat → Nat → List Char
  | 0, _ => []
  | width + 1, n => padded width (n / 10) ++ [Nat.digitChar (n % 10)]

theorem readDigits?_digits (n : Nat) : readDigits? (digits n) = some n := by
  have hall : (digits n).all Char.isDigit = true := by
    rw [List.all_eq_true]
    intro c hc
    exact Nat.isDigit_of_mem_toDigits (by decide) (by decide) hc
  have hne : digits n ≠ [] := Nat.toDigits_ne_nil
  simp only [readDigits?, hne, hall, ne_eq, not_false_eq_true, and_self, if_true]
  exact congrArg some (Nat.ofDigitChars_toDigits (by decide) (by decide))

end Numeral
end DecisionForest
