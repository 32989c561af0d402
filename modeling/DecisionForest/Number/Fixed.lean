import DecisionForest.Number.Datum
import DecisionForest.Number.Numeral

/-!
# Fixed places

`writeFixed places x` writes a value with a fixed number of digits after the point. The exact value
is rounded to nearest, and a value halfway between two texts takes the one whose last digit is even.
A negative value keeps its sign when all digits are zero.
-/

namespace DecisionForest

def signText (negative : Bool) : List Char :=
  if negative then ['-'] else []

/-- The digits of `n` units of the last place. -/
def placesText (places n : Nat) : List Char :=
  Numeral.digits (n / Nat.pow 10 places) ++ '.' :: Numeral.padded places n

def Datum.writeFixed (places : Nat) : Datum → List Char
  | .notANumber => "NaN".toList
  | .infinite negative => signText negative ++ "inf".toList
  | .finite negative significand shift =>
    signText negative ++
      placesText places
        (roundQuotient (significand * Nat.pow 2 shift * Nat.pow 10 places) unitsPerOne)

def writeFixed (places : Nat) (x : Float) : List Char :=
  (Datum.ofFloat x).writeFixed places

end DecisionForest
