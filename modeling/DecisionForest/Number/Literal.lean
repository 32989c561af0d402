import DecisionForest.Number.Datum

/-!
# Number literals

The literals accepted for base values, labels and row values, and the value each stands for.

A literal is an optional sign followed by `inf`, `infinity` or `nan` in any letter case, or by a
decimal: digits with at most one point, at least one digit among them, and an optional exponent `e`
or `E` with an optional sign and one or more digits. Its value is the nearest binary64 one.

- `DecimalLiteral` is a decimal as an integer and a power of ten,
- `DecimalLiteral.read?` splits a text into one,
- `DecimalLiteral.magnitude` rounds it,
- `readFloat?` reads a whole literal.
-/

namespace DecisionForest

/-! ## Decimals -/

/-- The decimal `digits * 10 ^ exponent`, with the digits as written. -/
structure DecimalLiteral where
  digits : List Char
  exponent : Int
  deriving DecidableEq, Repr

namespace DecimalLiteral

/-- The text after the mantissa: nothing, or an exponent that takes up all of it. -/
def readExponent? : List Char → Option Int
  | [] => some 0
  | mark :: rest =>
    if mark = 'e' ∨ mark = 'E' then
      let (negative, ds) := match rest with
        | '-' :: ds => (true, ds)
        | '+' :: ds => (false, ds)
        | ds => (false, ds)
      if ds ≠ [] ∧ ds.all Char.isDigit then
        let n : Int := Nat.ofDigitChars 10 ds 0
        some (if negative then -n else n)
      else none
    else none

/-- The fractional digits after a point, and what follows them. -/
def splitFraction : List Char → List Char × List Char
  | '.' :: rest => (rest.takeWhile Char.isDigit, rest.dropWhile Char.isDigit)
  | rest => ([], rest)

def read? (cs : List Char) : Option DecimalLiteral :=
  let whole := cs.takeWhile Char.isDigit
  let (fraction, rest) := splitFraction (cs.dropWhile Char.isDigit)
  if whole = [] ∧ fraction = [] then none
  else match readExponent? rest with
    | some e => some ⟨whole ++ fraction, e - fraction.length⟩
    | none => none

/--
The encoding of the magnitude nearest to the decimal.

The first two tests answer without large powers: from `10 ^ 310` upward everything is infinite, and
below `10 ^ -330` everything is zero.
-/
def magnitude (d : DecimalLiteral) : Nat :=
  let significant := d.digits.dropWhile (· == '0')
  let order : Int := significant.length + d.exponent
  let n := Nat.ofDigitChars 10 significant 0
  if n = 0 then 0
  else if order > 310 then infiniteMagnitude
  else if order < -330 then 0
  else if d.exponent ≥ 0 then nearestMagnitude (n * Nat.pow 10 d.exponent.toNat) 1
  else nearestMagnitude n (Nat.pow 10 (-d.exponent).toNat)

end DecimalLiteral

/-! ## Literals -/

/-- Names of the values that no decimal has. -/
def readSpecial? (negative : Bool) (cs : List Char) : Option Float :=
  let name := cs.map Char.toLower
  if name = "inf".toList ∨ name = "infinity".toList then some (encode negative infiniteMagnitude)
  else if name = "nan".toList then some (0.0 / 0.0)
  else none

def readUnsigned? (negative : Bool) (cs : List Char) : Option Float :=
  match readSpecial? negative cs with
  | some x => some x
  | none => (DecimalLiteral.read? cs).map fun d => encode negative d.magnitude

def readFloat? : List Char → Option Float
  | '-' :: cs => readUnsigned? true cs
  | '+' :: cs => readUnsigned? false cs
  | cs => readUnsigned? false cs

end DecisionForest
