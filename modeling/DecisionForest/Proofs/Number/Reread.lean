import DecisionForest.Proofs.Number.Encoding
import DecisionForest.Proofs.Number.Nearest
import DecisionForest.Proofs.Number.RoundTrip

/-!
# Written values are read as values near by

A value with fixed places is rounded when it is written, and again when it is read. The value that is
read is no farther from the written number than the one that was written, as that one is a value too.
So it is rounded to the same number when it is written again, unless it lies exactly as far on the
other side of it. Then the two values would differ by one unit of the last place, which is no multiple
of the least positive value.

- `Datum.Near` relates values of one kind and sign at a distance of at most a tolerance,
- `dist_le_of_nearer` and `roundQuotient_of_nearer` are the two facts about distances,
- `exists_ofFloat_reread` finds the value that is read,
- `near_reread` and `writeFixed_reread` say that it is near and that it is written alike.
-/

namespace DecisionForest

/-! ## Distances of values -/

namespace Datum

/-- The number that a finite value is. -/
def value (negative : Bool) (significand shift : Nat) : ℚ :=
  (if negative then -1 else 1) * ((significand * 2 ^ shift : Nat) / (unitsPerOne : ℚ))

/-- Values of the same kind, with the same sign, finite ones not farther apart than `tolerance`. -/
inductive Near (tolerance : ℚ) : Datum → Datum → Prop where
  | notANumber : Near tolerance .notANumber .notANumber
  | infinite (negative : Bool) : Near tolerance (.infinite negative) (.infinite negative)
  | finite {negative : Bool} {significand shift significand' shift' : Nat}
      (h : |value negative significand' shift' - value negative significand shift| ≤ tolerance) :
      Near tolerance (.finite negative significand shift) (.finite negative significand' shift')

theorem cast_dist (m n : Nat) : ((Nat.dist m n : Nat) : ℚ) = |(n : ℚ) - m| := by
  rcases Nat.le_total m n with h | h
  · have hnonneg : (0 : ℚ) ≤ n - m := sub_nonneg.2 (Nat.cast_le.2 h)
    rw [Nat.dist_eq_sub_of_le h, Nat.cast_sub h, abs_of_nonneg hnonneg]
  · have hnonneg : (0 : ℚ) ≤ m - n := sub_nonneg.2 (Nat.cast_le.2 h)
    rw [Nat.dist_eq_sub_of_le_right h, Nat.cast_sub h, abs_sub_comm, abs_of_nonneg hnonneg]

/-- The distance of two values of one sign is that of their units. -/
theorem abs_value_sub_value (negative : Bool) (significand shift significand' shift' : Nat) :
    |value negative significand' shift' - value negative significand shift| =
      (Nat.dist (significand * 2 ^ shift) (significand' * 2 ^ shift') : Nat) / (unitsPerOne : ℚ) := by
  have hunits : (0 : ℚ) < unitsPerOne := Nat.cast_pos.2 unitsPerOne_pos
  have hsign : |(if negative then -1 else 1 : ℚ)| = 1 := by
    cases negative <;> simp
  rw [value, value, ← mul_sub, ← sub_div, abs_mul, hsign, one_mul, abs_div, abs_of_pos hunits,
    cast_dist]

end Datum

/-! ## Numbers that are rounded twice -/

section Twice

variable {den n units units' : Nat}

theorem dist_le_of_nearer (hnear : 2 * Nat.dist (n * unitsPerOne) (den * units) ≤ unitsPerOne)
    (hnearer : Nat.dist (n * unitsPerOne) (den * units') ≤ Nat.dist (n * unitsPerOne) (den * units)) :
    den * Nat.dist units units' ≤ unitsPerOne := by
  have htriangle :=
    Nat.dist.triangle_inequality (den * units) (n * unitsPerOne) (den * units')
  rw [Nat.dist_comm _ (n * unitsPerOne), Nat.dist_mul_left] at htriangle
  omega

/-- A value that is not farther away than the one that was rounded is rounded to the same number. -/
theorem roundQuotient_of_nearer (hden : ¬ den ∣ unitsPerOne)
    (hround : roundQuotient (units * den) unitsPerOne = n)
    (hnear : 2 * Nat.dist (n * unitsPerOne) (den * units) ≤ unitsPerOne)
    (hnearer : Nat.dist (n * unitsPerOne) (den * units') ≤ Nat.dist (n * unitsPerOne) (den * units)) :
    roundQuotient (units' * den) unitsPerOne = n := by
  by_cases hless : 2 * Nat.dist (n * unitsPerOne) (den * units') < unitsPerOne
  · apply roundQuotient_eq_of_dist_lt
    rw [Nat.mul_comm units', Nat.mul_comm unitsPerOne, Nat.dist_comm]
    exact hless
  · -- Both are half a unit of the last place away, but not on different sides.
    have hside : den * units = den * units' ∨ Nat.dist (den * units) (den * units') = unitsPerOne := by
      unfold Nat.dist at *
      omega
    rcases hside with hsame | happart
    · rw [Nat.mul_comm units', ← hsame, Nat.mul_comm den]
      exact hround
    · rw [Nat.dist_mul_left] at happart
      exact absurd ⟨_, happart.symm⟩ hden

/-- Five divides no power of two, so no value is one unit of the last place from another one. -/
theorem not_pow_dvd_unitsPerOne : ¬ Nat.pow 10 basePlaces ∣ unitsPerOne := by
  decide +kernel

end Twice

/-! ## Base values -/

/-- The digits of a finite base value, as a number of units of the last place. -/
def writtenUnits (significand shift : Nat) : Nat :=
  roundQuotient (significand * Nat.pow 2 shift * Nat.pow 10 basePlaces) unitsPerOne

theorem writeFixed_finite (negative : Bool) (significand shift : Nat) :
    Datum.writeFixed basePlaces (.finite negative significand shift) =
      signText negative ++ placesText basePlaces (writtenUnits significand shift) :=
  rfl

theorem two_mul_dist_writtenUnits_le (significand shift : Nat) :
    2 * Nat.dist (writtenUnits significand shift * unitsPerOne)
      (Nat.pow 10 basePlaces * (significand * 2 ^ shift)) ≤ unitsPerOne := by
  have hhalf : 2 * Nat.dist (significand * 2 ^ shift * Nat.pow 10 basePlaces)
      (unitsPerOne * writtenUnits significand shift) ≤ unitsPerOne :=
    two_mul_dist_roundQuotient_le _ unitsPerOne_pos
  rw [Nat.dist_comm, Nat.mul_comm unitsPerOne, Nat.mul_comm _ (Nat.pow 10 basePlaces)] at hhalf
  exact hhalf

theorem reread_eq {x y : Float} (h : Literal (writeFixed basePlaces x) y) : reread x = y :=
  (literal_writeFixed x).unique h

theorem ofFloat_reread_notANumber {x : Float} (hx : Datum.ofFloat x = .notANumber) :
    Datum.ofFloat (reread x) = .notANumber := by
  have hliteral : Literal (writeFixed basePlaces x) (0.0 / 0.0) := by
    rw [writeFixed, hx]
    exact literal_notANumber
  rw [reread_eq hliteral]
  decide +kernel

theorem ofFloat_reread_infinite {x : Float} {negative : Bool}
    (hx : Datum.ofFloat x = .infinite negative) : Datum.ofFloat (reread x) = .infinite negative := by
  have hliteral : Literal (writeFixed basePlaces x) (encode negative infiniteMagnitude) := by
    rw [writeFixed, hx]
    exact literal_infinite negative
  rw [reread_eq hliteral, Datum.ofFloat_encode negative (Nat.le_refl _)]
  simp [Datum.ofMagnitude]

/-- What is read for a finite value is finite, of the same sign and as near to what was written. -/
theorem exists_ofFloat_reread {x : Float} {negative : Bool} {significand shift : Nat}
    (hx : Datum.ofFloat x = .finite negative significand shift) :
    ∃ significand' shift', Datum.ofFloat (reread x) = .finite negative significand' shift' ∧
      Nat.dist (writtenUnits significand shift * unitsPerOne)
          (Nat.pow 10 basePlaces * (significand' * 2 ^ shift')) ≤
        Nat.dist (writtenUnits significand shift * unitsPerOne)
          (Nat.pow 10 basePlaces * (significand * 2 ^ shift)) := by
  have hencodable : Encodable significand shift := Datum.encodable_of_ofMagnitude hx
  have hden : 0 < Nat.pow 10 basePlaces := Nat.pow_pos (Nat.succ_pos 9)
  obtain ⟨significand', shift', hencodable', hmagnitude, hnearer⟩ :=
    exists_nearestMagnitude hden hencodable (two_mul_dist_writtenUnits_le significand shift)
  have hliteral : Literal (writeFixed basePlaces x)
      (encode negative (shift' * exponentWeight + significand')) := by
    rw [writeFixed, hx, writeFixed_finite, ← hmagnitude]
    exact literal_placesText negative basePlaces _
  refine ⟨significand', shift', ?_, hnearer⟩
  rw [reread_eq hliteral, Datum.ofFloat_encode negative (Nat.le_of_lt hencodable'.magnitude_lt)]
  exact Datum.ofMagnitude_of_encodable negative hencodable'

/-- A value is off by one unit of the last place at most once it is written and read. -/
theorem near_reread (x : Float) :
    Datum.Near (1 / 10 ^ basePlaces) (Datum.ofFloat x) (Datum.ofFloat (reread x)) := by
  cases hx : Datum.ofFloat x with
  | notANumber =>
      rw [ofFloat_reread_notANumber hx]
      exact .notANumber
  | infinite negative =>
      rw [ofFloat_reread_infinite hx]
      exact .infinite negative
  | finite negative significand shift =>
      obtain ⟨significand', shift', hreread, hnearer⟩ := exists_ofFloat_reread hx
      have hdist := dist_le_of_nearer (two_mul_dist_writtenUnits_le significand shift) hnearer
      have hcast : (10 : ℚ) ^ basePlaces *
          (Nat.dist (significand * 2 ^ shift) (significand' * 2 ^ shift') : Nat) ≤ unitsPerOne := by
        exact_mod_cast hdist
      have hunits : (0 : ℚ) < unitsPerOne := Nat.cast_pos.2 unitsPerOne_pos
      rw [hreread]
      apply Datum.Near.finite
      rw [Datum.abs_value_sub_value, div_le_div_iff₀ hunits (by positivity)]
      linarith

/-- A value that has been written and read is written as before. -/
theorem writeFixed_reread (x : Float) :
    writeFixed basePlaces (reread x) = writeFixed basePlaces x := by
  unfold writeFixed
  cases hx : Datum.ofFloat x with
  | notANumber =>
      rw [ofFloat_reread_notANumber hx]
  | infinite negative =>
      rw [ofFloat_reread_infinite hx]
  | finite negative significand shift =>
      obtain ⟨significand', shift', hreread, hnearer⟩ := exists_ofFloat_reread hx
      have hsame : writtenUnits significand' shift' = writtenUnits significand shift :=
        roundQuotient_of_nearer not_pow_dvd_unitsPerOne rfl
          (two_mul_dist_writtenUnits_le significand shift) hnearer
      rw [hreread, writeFixed_finite, writeFixed_finite, hsame]

-- One by 256 lies halfway between two numbers with seven places, and goes to the even one.
example : writeFixed basePlaces 0.00390625 = "0.0039062".toList := by
  decide +kernel

end DecisionForest
