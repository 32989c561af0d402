import DecisionForest.Number.Literal
import DecisionForest.Json.Reader
import DecisionForest.Toml.Basic

/-!
# Numbers and moments of TOML

- `Toml.readMoment` reads a date, a time, or both with an optional offset,
- `Toml.readFloat` reads a number with a fraction or an exponent, an infinity or a not-a-number; one
  that overflows to positive infinity is refused,
- `Toml.readInteger` reads a signed 64-bit integer in decimal, hexadecimal, octal or binary,
- `Toml.readNumber` reads any of these.

A single underscore may stand between two digits.
-/

namespace DecisionForest
namespace Toml

/-- The characters of `cs` before its end `rest`. -/
def consumed (cs rest : List Char) : List Char :=
  cs.take (cs.length - rest.length)

/-! ## Digits -/

/-- Further digits, without the underscores between them. -/
def moreDigits (isDigit : Char → Bool) : List Char → Option (List Char × List Char)
  | ['_'] => none
  | '_' :: c :: rest =>
    if isDigit c then (moreDigits isDigit rest).map fun (ds, rest) => (c :: ds, rest) else none
  | c :: rest =>
    if isDigit c then (moreDigits isDigit rest).map fun (ds, rest) => (c :: ds, rest)
    else some ([], c :: rest)
  | [] => some ([], [])

/-- One or more digits. -/
def someDigits (isDigit : Char → Bool) : List Char → Option (List Char × List Char)
  | c :: rest =>
    if isDigit c then (moreDigits isDigit rest).map fun (ds, rest) => (c :: ds, rest) else none
  | [] => none

/-- A decimal without a zero in front of other digits. -/
def wholeDigits : List Char → Option (List Char × List Char)
  | '0' :: rest => some (['0'], rest)
  | cs => someDigits Char.isDigit cs

/-- The sign in front of a number, as text. -/
def readSign : List Char → List Char × List Char
  | '+' :: rest => (['+'], rest)
  | '-' :: rest => (['-'], rest)
  | cs => ([], cs)

/-! ## Moments -/

def digitValue (c : Char) : Nat :=
  c.toNat - '0'.toNat

/-- Exactly two digits, with a value between two bounds. -/
def readPair (low high : Nat) : List Char → Option (Nat × List Char)
  | a :: b :: rest =>
    let n := 10 * digitValue a + digitValue b
    if a.isDigit ∧ b.isDigit ∧ low ≤ n ∧ n ≤ high then some (n, rest) else none
  | _ => none

def readChar (c : Char) : List Char → Option (List Char)
  | d :: rest => if d = c then some rest else none
  | [] => none

def isLeapYear (year : Nat) : Bool :=
  year % 4 == 0 && (year % 100 != 0 || year % 400 == 0)

def daysInMonth (year month : Nat) : Nat :=
  if month = 2 then (if isLeapYear year then 29 else 28)
  else if month ∈ [4, 6, 9, 11] then 30
  else 31

def readDate (cs : List Char) : Option (List Char) := do
  let (century, rest) ← readPair 0 99 cs
  let (year, rest) ← readPair 0 99 rest
  let (month, rest) ← readPair 1 12 (← readChar '-' rest)
  let (_, rest) ← readPair 1 (daysInMonth (100 * century + year) month) (← readChar '-' rest)
  return rest

/-- A fraction of a second, or nothing. -/
def readFraction : List Char → Option (List Char)
  | '.' :: c :: rest => if c.isDigit then some (rest.dropWhile Char.isDigit) else none
  | ['.'] => none
  | cs => some cs

def readTime (cs : List Char) : Option (List Char) := do
  let (_, rest) ← readPair 0 23 cs
  let (_, rest) ← readPair 0 59 (← readChar ':' rest)
  let (_, rest) ← readPair 0 60 (← readChar ':' rest)
  readFraction rest

/-- An offset from universal time, or nothing. -/
def readOffset : List Char → Option (List Char)
  | c :: rest =>
    if c = 'Z' ∨ c = 'z' then some rest
    else if c = '+' ∨ c = '-' then do
      let (_, rest) ← readPair 0 23 rest
      let (_, rest) ← readPair 0 59 (← readChar ':' rest)
      return rest
    else some (c :: rest)
  | [] => some []

/-- A time after a date, or nothing. -/
def readTimeOfDay : List Char → Option (List Char)
  | c :: rest =>
    if c = 'T' ∨ c = 't' ∨ (c = ' ' ∧ (rest.head?.any Char.isDigit)) then
      (readTime rest).bind readOffset
    else some (c :: rest)
  | [] => some []

def readMoment (cs : List Char) : Option (Toml × List Char) :=
  let rest? := match readDate cs with
    | some rest => readTimeOfDay rest
    | none => readTime cs
  rest?.map fun rest => (.moment (consumed cs rest), rest)

/-! ## Floats -/

/-- A mark and digits, which may start with zeros. -/
def readExponent : List Char → Option (List Char × List Char)
  | c :: rest =>
    if c = 'e' ∨ c = 'E' then
      let (sign, rest) := readSign rest
      (someDigits Char.isDigit rest).map fun (ds, rest) => ('e' :: sign ++ ds, rest)
    else none
  | [] => none

/-- A fraction, an exponent, or a fraction with an exponent. -/
def readFractionOrExponent (cs : List Char) : Option (List Char × List Char) :=
  match cs with
  | '.' :: rest => do
    let (fraction, rest) ← someDigits Char.isDigit rest
    match rest with
    | c :: _ =>
      if c = 'e' ∨ c = 'E' then
        let (exponent, rest) ← readExponent rest
        return ('.' :: fraction ++ exponent, rest)
      else return ('.' :: fraction, rest)
    | [] => return ('.' :: fraction, rest)
  | _ => readExponent cs

def isPositiveInfinity (literal : List Char) : Bool :=
  match readFloat? literal with
  | some x => Datum.ofFloat x = .infinite false
  | none => false

def readFloat (cs : List Char) : Option (Toml × List Char) :=
  let (sign, body) := readSign cs
  match body with
  | 'i' :: 'n' :: 'f' :: rest => some (.float (sign ++ ['i', 'n', 'f']), rest)
  | 'n' :: 'a' :: 'n' :: rest => some (.float (sign ++ ['n', 'a', 'n']), rest)
  | _ => do
    let (whole, rest) ← wholeDigits body
    let (fraction, rest) ← readFractionOrExponent rest
    let literal := sign ++ whole ++ fraction
    if isPositiveInfinity literal then none else return (.float literal, rest)

/-! ## Integers -/

/-- The least integer out of range. -/
def integerLimit : Nat := Nat.pow 2 63

def integer? (n : Int) : Option Toml :=
  if -integerLimit ≤ n ∧ n < integerLimit then some (.integer n) else none

/-- An integer in a base whose digits `isDigit` tells. -/
def readBased (base : Nat) (isDigit : Char → Bool) (cs : List Char) :
    Option (Toml × List Char) := do
  let (ds, rest) ← someDigits isDigit cs
  let n ← ds.foldlM (fun n c => (Json.hexDigit? c).map (base * n + ·)) 0
  let v ← integer? n
  return (v, rest)

def isOctal (c : Char) : Bool :=
  decide ('0' ≤ c) && decide (c ≤ '7')

def isBinary (c : Char) : Bool :=
  c == '0' || c == '1'

def readInteger : List Char → Option (Toml × List Char)
  | '0' :: 'x' :: rest => readBased 16 (fun c => (Json.hexDigit? c).isSome) rest
  | '0' :: 'o' :: rest => readBased 8 isOctal rest
  | '0' :: 'b' :: rest => readBased 2 isBinary rest
  | cs => do
    let (sign, body) := readSign cs
    let (ds, rest) ← wholeDigits body
    let n : Int := Nat.ofDigitChars 10 ds 0
    let v ← integer? (if sign = ['-'] then -n else n)
    return (v, rest)

/-! ## All of them -/

def readNumber (cs : List Char) : Option (Toml × List Char) :=
  (readMoment cs).orElse fun _ => (readFloat cs).orElse fun _ => readInteger cs

end Toml
end DecisionForest
