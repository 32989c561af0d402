import Mathlib
import DecisionForest.Number.Datum

/-!
# Encodings are read as they were made

A floating-point number stands for a bit pattern, but all patterns that are not numbers stand for the
same one. So `Datum.ofFloat` gets back what `encode` was given up to the magnitude of infinity, which
is `Datum.ofFloat_encode`.
-/

namespace DecisionForest

open Float.Model (Format)

variable {bits : UInt64}

/-- The bits of a number, or of an infinity. -/
theorem valid_of_le (h : bits.toNat % signWeight ≤ infiniteMagnitude) :
    Format.binary64.Valid bits.toBitVec where
  eq_packedNaN := by
    intro hexponent hmantissa
    have hones : bits.toNat / 2 ^ 52 % 2 ^ 11 = 2 ^ 11 - 1 := by
      have hnat := congrArg BitVec.toNat hexponent
      simpa [Float.Model.UnpackedFloat.unpackExponent, Nat.shiftRight_eq_div_pow] using hnat
    have hsome : bits.toNat % 2 ^ 52 ≠ 0 := by
      intro hzero
      apply hmantissa
      apply BitVec.eq_of_toNat_eq
      simpa [Float.Model.UnpackedFloat.unpackMantissa] using hzero
    -- A mantissa above that of infinity makes the magnitude larger.
    have hlarge : bits.toNat % 2 ^ 63 > 2047 * 2 ^ 52 := by omega
    exact absurd h (Nat.not_le.2 hlarge)

/-- Valid bits are those of the number that they stand for. -/
theorem toBits_ofBits (h : Format.binary64.Valid bits.toBitVec) :
    (Float.ofBits bits).toBits = bits := by
  have hbits : Float.ofBits bits = .ofModel ⟨bits, h⟩ := Float.ofBits_toBits (.ofModel ⟨bits, h⟩)
  rw [hbits]
  rfl

theorem Datum.ofFloat_encode (negative : Bool) {magnitude : Nat}
    (h : magnitude ≤ infiniteMagnitude) :
    Datum.ofFloat (encode negative magnitude) = Datum.ofMagnitude negative magnitude := by
  have hsmall : magnitude < signWeight := Nat.lt_of_le_of_lt h (by decide)
  have hword : 2 * signWeight = UInt64.size := by decide
  have hbits : ∀ n, n < 2 * signWeight → n % signWeight = magnitude →
      decide (n ≥ signWeight) = negative →
      Datum.ofFloat (Float.ofBits (UInt64.ofNat n)) = Datum.ofMagnitude negative magnitude := by
    intro n hn hmod hsign
    have hnat : (UInt64.ofNat n).toNat = n := UInt64.toNat_ofNat_of_lt (hword ▸ hn)
    have hvalid : Format.binary64.Valid (UInt64.ofNat n).toBitVec := by
      apply valid_of_le
      rw [hnat, hmod]
      exact h
    rw [Datum.ofFloat, toBits_ofBits hvalid, hnat, hmod, hsign]
  cases negative with
  | false =>
      rw [encode, if_neg Bool.false_ne_true]
      exact hbits magnitude (by omega) (Nat.mod_eq_of_lt hsmall) (by simpa using hsmall)
  | true =>
      have hmod : (magnitude + signWeight) % signWeight = magnitude := by
        rw [Nat.add_mod_right, Nat.mod_eq_of_lt hsmall]
      rw [encode, if_pos rfl]
      exact hbits (magnitude + signWeight) (by omega) hmod (by simp)

end DecisionForest
