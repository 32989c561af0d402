import DecisionForest.Number.Datum

/-!
# Zeros

Equality with zero is decided by the value and not by the pattern: `beq_zero_iff` says that it holds
of the two zeros alone.
-/

namespace DecisionForest

open Float.Model (Format UnpackedFloat)

/-- Of the finite values only the two zeros have no significand. -/
theorem Datum.exists_ofMagnitude_eq_zero_iff {negative : Bool} {magnitude : Nat} :
    (∃ n, ofMagnitude negative magnitude = .finite n 0 0) ↔ magnitude = 0 := by
  have hweight : 0 < exponentWeight := by decide
  have hinfinite : 0 < infiniteMagnitude := by decide
  unfold ofMagnitude
  split
  · simp
    omega
  · split
    · simp
      omega
    · split
      · simp
      · simp
        omega

/-- The patterns of the two zeros differ in the sign alone. -/
theorem unpack_eq_zero_iff {x : Float.Model} :
    (∃ s, x.unpack = .zero s) ↔ x.toBits.toNat % signWeight = 0 := by
  have hfields : x.toBits.toNat % signWeight = 0 ↔
      x.toBits.toNat / 2 ^ 52 % 2 ^ 11 = 0 ∧ x.toBits.toNat % 2 ^ 52 = 0 := by
    have hweight : signWeight = 2 ^ 52 * 2 ^ 11 := by decide
    rw [hweight, Nat.mod_mul]
    omega
  have hexponent : @UnpackedFloat.unpackExponent Format.binary64 x.toBits.toBitVec = 0#11 ↔
      x.toBits.toNat / 2 ^ 52 % 2 ^ 11 = 0 := by
    rw [← BitVec.toNat_inj]
    simp [UnpackedFloat.unpackExponent, Nat.shiftRight_eq_div_pow]
  have hmantissa : @UnpackedFloat.unpackMantissa Format.binary64 x.toBits.toBitVec = 0#52 ↔
      x.toBits.toNat % 2 ^ 52 = 0 := by
    rw [← BitVec.toNat_inj]
    simp [UnpackedFloat.unpackMantissa]
  rw [hfields, ← hexponent, ← hmantissa]
  unfold Float.Model.unpack UnpackedFloat.unpack
  dsimp only
  -- The cases are those of the exponent, and of the mantissa in them.
  by_cases hones : @UnpackedFloat.unpackExponent Format.binary64 x.toBits.toBitVec = -1#11
  · rw [if_pos hones]
    refine iff_of_false ?_ fun hzero => ?_
    · rintro ⟨s, hs⟩
      split at hs <;> cases hs
    · rw [hones] at hzero
      exact absurd hzero.1 (by decide)
  · rw [if_neg hones]
    by_cases hleast : @UnpackedFloat.unpackExponent Format.binary64 x.toBits.toBitVec = 0#11
    · rw [if_pos hleast]
      by_cases hnone : @UnpackedFloat.unpackMantissa Format.binary64 x.toBits.toBitVec = 0#52
      · rw [dif_pos hnone]
        exact iff_of_true ⟨_, rfl⟩ ⟨hleast, hnone⟩
      · rw [dif_neg hnone]
        exact iff_of_false nofun fun hzero => hnone hzero.2
    · rw [if_neg hleast]
      exact iff_of_false nofun fun hzero => hleast hzero.1

theorem compare_zero_iff {u : UnpackedFloat} {s : UnpackedFloat.Sign} :
    (u.compare (.zero s) == some .eq) = true ↔ ∃ s', u = .zero s' := by
  cases u with
  | zero s' =>
      exact iff_of_true rfl ⟨s', rfl⟩
  | notANumber =>
      exact iff_of_false Bool.false_ne_true nofun
  | infinity s' =>
      refine iff_of_false ?_ nofun
      cases s' <;> exact Bool.false_ne_true
  | finite s' m e hm =>
      refine iff_of_false ?_ nofun
      cases s' <;> exact Bool.false_ne_true

/-- One of the two zeros. -/
def IsZero (x : Float) : Prop :=
  ∃ negative, Datum.ofFloat x = .finite negative 0 0

theorem beq_zero_iff {x : Float} : (x == 0.0) = true ↔ IsZero x := by
  have hzero : (0.0 : Float).toModel.unpack = .zero .positive := rfl
  have hbeq : (x == 0.0) = (x.toModel.unpack.compare (.zero .positive) == some .eq) := by
    rw [← hzero]
    rfl
  rw [hbeq, compare_zero_iff, unpack_eq_zero_iff]
  exact Datum.exists_ofMagnitude_eq_zero_iff.symm

theorem beq_zero_eq_false {x : Float} (h : ¬ IsZero x) : (x == 0.0) = false :=
  Bool.eq_false_iff.2 fun hbeq => h (beq_zero_iff.1 hbeq)

end DecisionForest
