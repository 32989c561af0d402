import DecisionForest.Number.Datum
import DecisionForest.Number.Fixed

/-!
# Shortest digits

`writeShortest x` writes a value with the fewest digits that read back as it, in positional notation
without an exponent.

The reals that round to a value form an interval around it, with its ends exactly when the
significand is even. A grid of powers of ten is coarse enough for few digits and fine enough for
many; the coarsest grid with a point in the interval gives the digits. If one point of a grid lies
in the interval, so does one of the two around the value: of two such points the nearer is taken,
and of two equally near ones the larger.
-/

namespace DecisionForest

/-! ## The interval of a value -/

/-- A value and the ends of its interval over a common denominator. -/
structure RoundingInterval where
  value : Nat
  low : Nat
  high : Nat
  den : Nat
  closed : Bool
  deriving Repr

namespace RoundingInterval

/-- The neighbour below a power of two is half as far as the one above, the least normal apart. -/
def ofFinite (significand shift : Nat) : RoundingInterval :=
  let value := 4 * significand * Nat.pow 2 shift
  let gap := 2 * Nat.pow 2 shift
  let below := if significand = exponentWeight ∧ shift > 0 then Nat.pow 2 shift else gap
  { value := value
    low := value - below
    high := value + gap
    den := 4 * unitsPerOne
    closed := significand % 2 == 0 }

def contains (i : RoundingInterval) (num den : Nat) : Bool :=
  if i.closed then
    decide (i.low * den ≤ num * i.den) && decide (num * i.den ≤ i.high * den)
  else
    decide (i.low * den < num * i.den) && decide (num * i.den < i.high * den)

/-- An exponent `p` with the value below `10 ^ p`, at most one more than needed. -/
def order (i : RoundingInterval) : Int :=
  if i.value ≥ i.den then (Nat.toDigits 10 (i.value / i.den)).length
  else 1 - ((Nat.toDigits 10 (i.den / i.value)).length : Int)

/-- The point of the grid of multiples of `10 ^ exponent` that stands for the value, if any. -/
def gridPoint? (i : RoundingInterval) (exponent : Int) : Option Nat :=
  let up := Nat.pow 10 exponent.toNat
  let down := Nat.pow 10 (-exponent).toNat
  let c := i.value * down / (i.den * up)
  let lower := i.contains (c * up) down
  let upper := i.contains ((c + 1) * up) down
  if lower ∧ upper then
    -- twice the value against the sum of the two points
    if 2 * i.value * down < (2 * c + 1) * up * i.den then some c else some (c + 1)
  else if lower then some c
  else if upper then some (c + 1)
  else none

/-- The coarsest of `count` grids, each ten times finer than the one before, with a point. -/
def coarsest? (i : RoundingInterval) (exponent : Int) : Nat → Option (Nat × Int)
  | 0 => none
  | count + 1 =>
    match i.gridPoint? exponent with
    | some c => some (c, exponent)
    | none => i.coarsest? (exponent - 1) count

/-- Seventeen digits tell any two values apart, and the order may be one too large. -/
def digits (i : RoundingInterval) : Nat × Int :=
  (i.coarsest? (i.order - 1) 19).getD (0, 0)

end RoundingInterval

/-! ## Positional text -/

/-- Digits without the zeros at their end, and the exponent of the last one kept. -/
def stripZeros (cs : List Char) (exponent : Int) : List Char × Int :=
  let kept := (cs.reverse.dropWhile (· == '0')).reverse
  (kept, exponent + (cs.length - kept.length : Nat))

/-- The digits `cs` times `10 ^ exponent`, written out. -/
def positional (cs : List Char) (exponent : Int) : List Char :=
  if exponent ≥ 0 then cs ++ List.replicate exponent.toNat '0'
  else
    let places := (-exponent).toNat
    if cs.length > places then
      cs.take (cs.length - places) ++ '.' :: cs.drop (cs.length - places)
    else '0' :: '.' :: List.replicate (places - cs.length) '0' ++ cs

def Datum.writeShortest : Datum → List Char
  | .notANumber => "NaN".toList
  | .infinite negative => signText negative ++ "inf".toList
  | .finite negative significand shift =>
    if significand = 0 then signText negative ++ ['0']
    else
      let (c, exponent) := (RoundingInterval.ofFinite significand shift).digits
      let (cs, e) := stripZeros (Numeral.digits c) exponent
      signText negative ++ positional cs e

def writeShortest (x : Float) : List Char :=
  (Datum.ofFloat x).writeShortest

end DecisionForest
