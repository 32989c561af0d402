import Mathlib.Data.Nat.Dist
import DecisionForest.Number.Datum

/-!
# Nearest values

`roundQuotient` gives the integer nearest to a quotient, and with it `nearestMagnitude` gives the
value nearest to a quotient, among all that have an encoding. Values are counted in units, so their
distances are distances of natural numbers.

- `dist_roundQuotient_le` compares a rounded quotient with any other integer, and
  `roundQuotient_eq_of_dist_lt` says that no other integer is as near,
- `Encodable` holds of the significands and shifts of finite values,
- `dist_nearestSignificand_le` compares the nearest value with any other finite one,
- `exists_nearestMagnitude` says that it is finite where some finite value is near.
-/

namespace DecisionForest

/-! ## Nearest integers -/

section Quotient

variable {num den k : Nat}

/-- Two different multiples are not both less than half a step away. -/
theorem le_dist_add_dist (num den : Nat) {k l : Nat} (h : k ≠ l) :
    den ≤ Nat.dist num (den * k) + Nat.dist num (den * l) :=
  calc
    den ≤ den * Nat.dist k l := Nat.le_mul_of_pos_right den (Nat.dist_pos_of_ne h)
    _ = Nat.dist (den * k) (den * l) := (Nat.dist_mul_left den k l).symm
    _ ≤ Nat.dist (den * k) num + Nat.dist num (den * l) :=
      Nat.dist.triangle_inequality (den * k) num (den * l)
    _ = Nat.dist num (den * k) + Nat.dist num (den * l) := by rw [Nat.dist_comm (den * k)]

theorem two_mul_dist_roundQuotient_le (num : Nat) (hden : 0 < den) :
    2 * Nat.dist num (den * roundQuotient num den) ≤ den := by
  obtain ⟨habove, hbelow⟩ := roundQuotient_near num hden
  unfold Nat.dist
  omega

theorem dist_roundQuotient_le (num : Nat) (hden : 0 < den) (k : Nat) :
    Nat.dist num (den * roundQuotient num den) ≤ Nat.dist num (den * k) := by
  by_cases hk : roundQuotient num den = k
  · rw [hk]
  · have hhalf := two_mul_dist_roundQuotient_le num hden
    have happart := le_dist_add_dist num den hk
    omega

/-- An integer that is less than half a step away is the rounded quotient. -/
theorem roundQuotient_eq_of_dist_lt (h : 2 * Nat.dist num (den * k) < den) :
    roundQuotient num den = k := by
  by_contra hk
  have hhalf := two_mul_dist_roundQuotient_le num (Nat.zero_lt_of_lt h)
  have happart := le_dist_add_dist num den hk
  omega

theorem roundQuotient_le (hden : 0 < den) (h : num ≤ den * k) : roundQuotient num den ≤ k := by
  by_contra hk
  have hstep : den * (k + 1) ≤ den * roundQuotient num den :=
    Nat.mul_le_mul_left den (Nat.lt_of_not_le hk)
  have hhalf := (roundQuotient_near num hden).2
  rw [Nat.mul_succ] at hstep
  omega

theorem le_roundQuotient (hden : 0 < den) (h : den * k ≤ num) : k ≤ roundQuotient num den := by
  by_contra hk
  have hstep : den * (roundQuotient num den + 1) ≤ den * k :=
    Nat.mul_le_mul_left den (Nat.lt_of_not_le hk)
  have hhalf := (roundQuotient_near num hden).1
  rw [Nat.mul_succ] at hstep
  omega

end Quotient

/-! ## Finite values -/

theorem exponentWeight_eq : exponentWeight = 2 ^ 52 :=
  rfl

theorem infiniteMagnitude_eq : infiniteMagnitude = 2047 * exponentWeight :=
  rfl

theorem unitsPerOne_pos : 0 < unitsPerOne := by
  decide +kernel

/-- The shift of the largest finite values. -/
def greatestShift : Nat := 2045

/-- A significand and a shift that a finite value has. -/
structure Encodable (significand shift : Nat) : Prop where
  lt : significand < 2 * exponentWeight
  normal : shift = 0 ∨ exponentWeight ≤ significand
  le : shift ≤ greatestShift

section Encodable

variable {negative negative' : Bool} {significand shift magnitude : Nat}

theorem Encodable.magnitude_lt (h : Encodable significand shift) :
    shift * exponentWeight + significand < infiniteMagnitude := by
  obtain ⟨hlt, _, hle⟩ := h
  unfold greatestShift at hle
  rw [exponentWeight_eq] at *
  rw [infiniteMagnitude_eq, exponentWeight_eq]
  omega

theorem Datum.ofMagnitude_of_encodable (negative : Bool) (h : Encodable significand shift) :
    ofMagnitude negative (shift * exponentWeight + significand) =
      .finite negative significand shift := by
  have hfinite := h.magnitude_lt
  have hnot : ¬ shift * exponentWeight + significand > infiniteMagnitude := by omega
  obtain ⟨hlt, hnormal, _⟩ := h
  unfold ofMagnitude
  rw [if_neg hnot, if_neg (Nat.ne_of_lt hfinite)]
  rw [exponentWeight_eq] at *
  by_cases hsmall : shift * 2 ^ 52 + significand < 2 ^ 52
  · have hzero : shift = 0 := by omega
    rw [if_pos hsmall, hzero, Nat.zero_mul, Nat.zero_add]
  · -- The lowest bit of the exponent is the hidden one of the significand.
    have hdiv : (shift * 2 ^ 52 + significand) / 2 ^ 52 - 1 = shift := by omega
    have hmod : (shift * 2 ^ 52 + significand) % 2 ^ 52 + 2 ^ 52 = significand := by omega
    rw [if_neg hsmall, hdiv, hmod]

theorem Datum.encodable_of_ofMagnitude
    (h : ofMagnitude negative magnitude = .finite negative' significand shift) :
    Encodable significand shift := by
  unfold ofMagnitude at h
  rw [infiniteMagnitude_eq, exponentWeight_eq] at h
  split at h
  · cases h
  · split at h
    · cases h
    · split at h
      · -- There is no hidden bit, and the shift is the least one.
        cases h
        have hlt : significand < 2 * 2 ^ 52 := by omega
        exact ⟨hlt, Or.inl rfl, Nat.zero_le greatestShift⟩
      · cases h
        have hlt : magnitude % 2 ^ 52 + 2 ^ 52 < 2 * 2 ^ 52 := by omega
        have hle : magnitude / 2 ^ 52 - 1 ≤ greatestShift := by
          unfold greatestShift
          omega
        exact ⟨hlt, Or.inr (Nat.le_add_left _ _), hle⟩

end Encodable

/-! ## The nearest finite value -/

/-- The shift at which a significand for `num / den` has 53 bits, if there is one. -/
def nearestShift (num den : Nat) : Nat :=
  Nat.log2 (num * unitsPerOne / den) - 52

def nearestSignificand (num den : Nat) : Nat :=
  roundQuotient (num * unitsPerOne) (den * 2 ^ nearestShift num den)

section Nearest

variable {num den significand shift : Nat}

theorem nearestMagnitude_eq (num den : Nat) :
    nearestMagnitude num den =
      min (nearestShift num den * exponentWeight + nearestSignificand num den) infiniteMagnitude :=
  rfl

theorem lt_nearestShift (num : Nat) (hden : 0 < den) :
    num * unitsPerOne < den * 2 ^ nearestShift num den * (2 * exponentWeight) := by
  have hlog : num * unitsPerOne / den < 2 ^ (Nat.log2 (num * unitsPerOne / den) + 1) :=
    Nat.lt_log2_self
  have hpow : 2 ^ (Nat.log2 (num * unitsPerOne / den) + 1) ≤ 2 ^ (nearestShift num den + 53) := by
    apply Nat.pow_le_pow_right (by decide)
    unfold nearestShift
    omega
  have hquotient : num * unitsPerOne / den < 2 ^ (nearestShift num den + 53) :=
    Nat.lt_of_lt_of_le hlog hpow
  calc
    num * unitsPerOne < 2 ^ (nearestShift num den + 53) * den :=
      (Nat.div_lt_iff_lt_mul hden).1 hquotient
    _ = den * 2 ^ nearestShift num den * 2 ^ 53 := by
      rw [Nat.pow_add, Nat.mul_comm _ den, Nat.mul_assoc]

theorem nearestShift_le (num : Nat) (hden : 0 < den) (hshift : nearestShift num den ≠ 0) :
    den * 2 ^ nearestShift num den * exponentWeight ≤ num * unitsPerOne := by
  have hlog : Nat.log2 (num * unitsPerOne / den) = nearestShift num den + 52 := by
    unfold nearestShift at *
    omega
  have hne : num * unitsPerOne / den ≠ 0 := by
    intro hzero
    rw [hzero, Nat.log2_zero] at hlog
    omega
  have hquotient : 2 ^ (nearestShift num den + 52) ≤ num * unitsPerOne / den := by
    rw [← hlog]
    exact Nat.log2_self_le hne
  calc
    den * 2 ^ nearestShift num den * 2 ^ 52 = 2 ^ (nearestShift num den + 52) * den := by
      rw [Nat.pow_add, Nat.mul_comm _ den, Nat.mul_assoc]
    _ ≤ num * unitsPerOne := (Nat.le_div_iff_mul_le hden).1 hquotient

theorem nearestSignificand_le (num : Nat) (hden : 0 < den) :
    nearestSignificand num den ≤ 2 * exponentWeight :=
  roundQuotient_le (Nat.mul_pos hden (Nat.two_pow_pos _)) (Nat.le_of_lt (lt_nearestShift num hden))

theorem le_nearestSignificand (num : Nat) (hden : 0 < den) (hshift : nearestShift num den ≠ 0) :
    exponentWeight ≤ nearestSignificand num den :=
  le_roundQuotient (Nat.mul_pos hden (Nat.two_pow_pos _)) (nearestShift_le num hden hshift)

theorem mul_two_pow_succ (n t : Nat) : n * 2 ^ (t + 1) = 2 * n * 2 ^ t := by
  rw [Nat.pow_succ, Nat.mul_comm 2 n, Nat.mul_assoc, Nat.mul_comm 2]

/-- A value of a smaller shift is below all values of 53 bits. -/
theorem mul_pow_le_of_lt {t : Nat} (h : Encodable significand shift) (hshift : shift < t) :
    significand * 2 ^ shift ≤ exponentWeight * 2 ^ t :=
  calc
    significand * 2 ^ shift ≤ 2 * exponentWeight * 2 ^ shift :=
      Nat.mul_le_mul_right _ (Nat.le_of_lt h.lt)
    _ = exponentWeight * 2 ^ (shift + 1) := (mul_two_pow_succ exponentWeight shift).symm
    _ ≤ exponentWeight * 2 ^ t :=
      Nat.mul_le_mul_left _ (Nat.pow_le_pow_right (by decide) hshift)

/-- No finite value is nearer. -/
theorem dist_nearestSignificand_le (num : Nat) (hden : 0 < den) (h : Encodable significand shift) :
    Nat.dist (num * unitsPerOne)
        (den * (nearestSignificand num den * 2 ^ nearestShift num den)) ≤
      Nat.dist (num * unitsPerOne) (den * (significand * 2 ^ shift)) := by
  have hstep : 0 < den * 2 ^ nearestShift num den := Nat.mul_pos hden (Nat.two_pow_pos _)
  have hmultiple : ∀ k, den * (k * 2 ^ nearestShift num den) = den * 2 ^ nearestShift num den * k := by
    intro k
    rw [Nat.mul_comm k, Nat.mul_assoc]
  rw [hmultiple]
  by_cases hshift : nearestShift num den ≤ shift
  · -- The other value is a multiple of the same power.
    have hsplit : significand * 2 ^ shift =
        significand * 2 ^ (shift - nearestShift num den) * 2 ^ nearestShift num den := by
      rw [Nat.mul_assoc, ← Nat.pow_add, Nat.sub_add_cancel hshift]
    rw [hsplit, hmultiple]
    exact dist_roundQuotient_le _ hstep _
  · -- The other value is below the least one of 53 bits, which is below the quotient.
    have hsmaller : den * (significand * 2 ^ shift) ≤
        den * 2 ^ nearestShift num den * exponentWeight := by
      rw [← hmultiple]
      exact Nat.mul_le_mul_left den (mul_pow_le_of_lt h (Nat.lt_of_not_le hshift))
    have hbelow := nearestShift_le num hden (by omega)
    have hnearest := dist_roundQuotient_le (num * unitsPerOne) hstep exponentWeight
    calc
      Nat.dist (num * unitsPerOne) (den * 2 ^ nearestShift num den * nearestSignificand num den) ≤
          Nat.dist (num * unitsPerOne) (den * 2 ^ nearestShift num den * exponentWeight) := hnearest
      _ ≤ Nat.dist (num * unitsPerOne) (den * (significand * 2 ^ shift)) := by
        unfold Nat.dist
        omega

/-! ## Encodings of nearest values -/

/-- A significand that has been rounded up to 54 bits is one of 53 bits at the next shift. -/
theorem exists_encodable (hle : significand ≤ 2 * exponentWeight)
    (hnormal : shift = 0 ∨ exponentWeight ≤ significand)
    (hfinite : significand * 2 ^ shift < 2 * exponentWeight * 2 ^ greatestShift) :
    ∃ significand' shift', Encodable significand' shift' ∧
      shift' * exponentWeight + significand' = shift * exponentWeight + significand ∧
      significand' * 2 ^ shift' = significand * 2 ^ shift := by
  have hshift : shift ≤ greatestShift := by
    by_contra hlarge
    have hmany : exponentWeight ≤ significand := hnormal.resolve_left (by omega)
    have hpow : 2 ^ (greatestShift + 1) ≤ 2 ^ shift :=
      Nat.pow_le_pow_right (by decide) (Nat.lt_of_not_le hlarge)
    have hmul : exponentWeight * 2 ^ (greatestShift + 1) ≤ significand * 2 ^ shift :=
      Nat.mul_le_mul hmany hpow
    rw [mul_two_pow_succ] at hmul
    exact Nat.not_lt.2 hmul hfinite
  rcases Nat.lt_or_eq_of_le hle with hlt | rfl
  · exact ⟨significand, shift, ⟨hlt, hnormal, hshift⟩, rfl, rfl⟩
  · have hne : shift ≠ greatestShift := by
      rintro rfl
      exact Nat.lt_irrefl _ hfinite
    refine ⟨exponentWeight, shift + 1, ⟨?_, Or.inr (Nat.le_refl _), by omega⟩, ?_, ?_⟩
    · rw [exponentWeight_eq]
      decide
    · rw [Nat.add_mul]
      omega
    · exact mul_two_pow_succ exponentWeight shift

theorem Encodable.add_unitsPerOne_lt (h : Encodable significand shift) :
    significand * 2 ^ shift + unitsPerOne < 2 * exponentWeight * 2 ^ greatestShift := by
  have hone : unitsPerOne < 2 ^ greatestShift := by
    decide +kernel
  have hmul : significand * 2 ^ shift ≤ (2 * exponentWeight - 1) * 2 ^ greatestShift :=
    Nat.mul_le_mul (Nat.le_sub_one_of_lt h.lt) (Nat.pow_le_pow_right (by decide) h.le)
  have hlast : (2 * exponentWeight - 1) * 2 ^ greatestShift + 2 ^ greatestShift =
      2 * exponentWeight * 2 ^ greatestShift := by
    have hpred : (2 * exponentWeight - 1).succ = 2 * exponentWeight :=
      Nat.succ_pred_eq_of_pos (Nat.zero_lt_of_lt h.lt)
    rw [← Nat.succ_mul, hpred]
  omega

/-- Within half of one by `den` around a finite value, what is nearest is finite and as near. -/
theorem exists_nearestMagnitude (hden : 0 < den) (h : Encodable significand shift)
    (hnear : 2 * Nat.dist (num * unitsPerOne) (den * (significand * 2 ^ shift)) ≤ unitsPerOne) :
    ∃ significand' shift', Encodable significand' shift' ∧
      nearestMagnitude num den = shift' * exponentWeight + significand' ∧
      Nat.dist (num * unitsPerOne) (den * (significand' * 2 ^ shift')) ≤
        Nat.dist (num * unitsPerOne) (den * (significand * 2 ^ shift)) := by
  have hnearest := dist_nearestSignificand_le num hden h
  have hnormal : nearestShift num den = 0 ∨ exponentWeight ≤ nearestSignificand num den := by
    by_cases hshift : nearestShift num den = 0
    · exact Or.inl hshift
    · exact Or.inr (le_nearestSignificand num hden hshift)
  have hfinite : nearestSignificand num den * 2 ^ nearestShift num den <
      2 * exponentWeight * 2 ^ greatestShift := by
    have hscaled : den * (nearestSignificand num den * 2 ^ nearestShift num den) ≤
        den * (significand * 2 ^ shift + unitsPerOne) := by
      have hone : unitsPerOne ≤ den * unitsPerOne := Nat.le_mul_of_pos_left _ hden
      rw [Nat.mul_add]
      unfold Nat.dist at *
      omega
    exact Nat.lt_of_le_of_lt (Nat.le_of_mul_le_mul_left hscaled hden) h.add_unitsPerOne_lt
  obtain ⟨significand', shift', hencodable, hmagnitude, hunits⟩ :=
    exists_encodable (nearestSignificand_le num hden) hnormal hfinite
  refine ⟨significand', shift', hencodable, ?_, ?_⟩
  · rw [nearestMagnitude_eq, ← hmagnitude]
    exact Nat.min_eq_left (Nat.le_of_lt hencodable.magnitude_lt)
  · rw [hunits]
    exact hnearest

end Nearest

end DecisionForest
