import DecisionForest.Number.Quotient

/-!
# Finite values as multiples of the least one

Every finite binary64 value is a whole number of units of `2⁻¹⁰⁷⁴`, the least positive one, so exact
decimal arithmetic on values is arithmetic on natural numbers.

- `Datum` is what an encoding stands for: not a number, an infinity, or a sign with
  `significand * 2 ^ shift` units,
- `Datum.ofFloat` reads an encoding,
- `nearestMagnitude num den` is the encoding of the value nearest to `num / den`, ties to even,
- `encode` puts a sign in front of such an encoding.
-/

namespace DecisionForest

/-! ## Layout of an encoding -/

/-- The number of units in one. -/
def unitsPerOne : Nat := Nat.pow 2 1074

/-- The weight of the lowest exponent bit. -/
def exponentWeight : Nat := Nat.pow 2 52

/-- The encoding of positive infinity, which follows those of the finite magnitudes. -/
def infiniteMagnitude : Nat := 2047 * exponentWeight

def signWeight : Nat := Nat.pow 2 63

/-- The value with a given sign and a magnitude's encoding. -/
def encode (negative : Bool) (magnitude : Nat) : Float :=
  Float.ofBits (UInt64.ofNat (if negative then magnitude + signWeight else magnitude))

/-! ## Reading an encoding -/

inductive Datum where
  | notANumber
  | infinite (negative : Bool)
  | finite (negative : Bool) (significand shift : Nat)
  deriving DecidableEq, Repr

namespace Datum

/-- The lowest exponent has no hidden bit and the spacing of the next one. -/
def ofMagnitude (negative : Bool) (magnitude : Nat) : Datum :=
  if magnitude > infiniteMagnitude then .notANumber
  else if magnitude = infiniteMagnitude then .infinite negative
  else if magnitude < exponentWeight then .finite negative magnitude 0
  else .finite negative (magnitude % exponentWeight + exponentWeight)
    (magnitude / exponentWeight - 1)

def ofFloat (x : Float) : Datum :=
  let bits := x.toBits.toNat
  ofMagnitude (decide (bits ≥ signWeight)) (bits % signWeight)

end Datum

/-! ## Rounding to an encoding -/

/--
The encoding of the finite magnitude nearest to `num / den`, or of infinity past the largest.

A significand has 53 bits unless the value is below the least normal one, so the spacing around
`num / den` is `2 ^ shift` units. Encodings count magnitudes in order, and a significand that rounds
up to `2 ^ 53` carries into the exponent by itself.
-/
def nearestMagnitude (num den : Nat) : Nat :=
  let units := num * unitsPerOne
  let shift := Nat.log2 (units / den) - 52
  min (shift * exponentWeight + roundQuotient units (den * Nat.pow 2 shift)) infiniteMagnitude

end DecisionForest
