import DecisionForest.Json.Basic

/-!
# Reading JSON

The grammar of JSON over characters. Each reader takes the text from where a phrase starts and gives
the phrase's value with the text after it.

- `Json.readText` reads the rest of a text after its opening quote,
- `Json.readNumber` reads a number,
- `Json.readValue` reads any value, for nesting up to a given fuel,
- `Json.parse?` reads a document, which is one value and blanks around it; its fuel is enough for
  every nesting that the text has room for.
-/

namespace DecisionForest
namespace Json

/-! ## Blanks -/

def isBlank (c : Char) : Bool :=
  c == ' ' || c == '\n' || c == '\r' || c == '\t'

def skipBlanks (cs : List Char) : List Char :=
  cs.dropWhile isBlank

/-! ## Texts -/

def hexDigit? (c : Char) : Option Nat :=
  if '0' ≤ c ∧ c ≤ '9' then some (c.toNat - '0'.toNat)
  else if 'a' ≤ c ∧ c ≤ 'f' then some (c.toNat - 'a'.toNat + 10)
  else if 'A' ≤ c ∧ c ≤ 'F' then some (c.toNat - 'A'.toNat + 10)
  else none

/-- The number written by hexadecimal digits. -/
def hexNumber? (cs : List Char) : Option Nat :=
  cs.foldlM (fun n c => (hexDigit? c).map (16 * n + ·)) 0

def isHighSurrogate (n : Nat) : Bool :=
  decide (0xD800 ≤ n) && decide (n ≤ 0xDBFF)

def isLowSurrogate (n : Nat) : Bool :=
  decide (0xDC00 ≤ n) && decide (n ≤ 0xDFFF)

def joinSurrogates (high low : Nat) : Char :=
  Char.ofNat (0x10000 + (high - 0xD800) * 0x400 + (low - 0xDC00))

/-- The character that a letter after a backslash stands for. -/
def simpleEscape? : Char → Option Char
  | '"' => some '"'
  | '\\' => some '\\'
  | '/' => some '/'
  | 'b' => some '\x08'
  | 'f' => some '\x0c'
  | 'n' => some '\n'
  | 'r' => some '\r'
  | 't' => some '\t'
  | _ => none

/-- A character in front of what was read after it. -/
def prepend (c : Char) : Option (List Char) × List Char → Option (List Char) × List Char
  | (content, rest) => (content.map (c :: ·), rest)

/-- What was read after half of a surrogate pair. -/
def broken : Option (List Char) × List Char → Option (List Char) × List Char
  | (_, rest) => (none, rest)

def readText : List Char → Option (Option (List Char) × List Char)
  | '"' :: rest => some (some [], rest)
  | '\\' :: 'u' :: a :: b :: c :: d :: '\\' :: 'u' :: e :: f :: g :: h :: rest =>
    match hexNumber? [a, b, c, d] with
    | none => none
    | some n =>
      match hexNumber? [e, f, g, h] with
      | none => none
      | some m =>
        if isHighSurrogate n ∧ isLowSurrogate m then
          (readText rest).map (prepend (joinSurrogates n m))
        else if isHighSurrogate n ∨ isLowSurrogate n then
          (readText ('\\' :: 'u' :: e :: f :: g :: h :: rest)).map broken
        else (readText ('\\' :: 'u' :: e :: f :: g :: h :: rest)).map (prepend (Char.ofNat n))
  | '\\' :: 'u' :: a :: b :: c :: d :: rest =>
    match hexNumber? [a, b, c, d] with
    | none => none
    | some n =>
      if isHighSurrogate n ∨ isLowSurrogate n then (readText rest).map broken
      else (readText rest).map (prepend (Char.ofNat n))
  | '\\' :: e :: rest =>
    match simpleEscape? e with
    | none => none
    | some c => (readText rest).map (prepend c)
  | c :: rest => if c.toNat < 0x20 ∨ c = '\\' then none else (readText rest).map (prepend c)
  | [] => none

/-! ## Numbers -/

/-- One or more digits. -/
def readDigits (cs : List Char) : Option (List Char × List Char) :=
  match cs.takeWhile Char.isDigit with
  | [] => none
  | ds => some (ds, cs.dropWhile Char.isDigit)

/-- Digits without a zero in front of others. -/
def readWhole : List Char → Option (List Char × List Char)
  | '0' :: rest => some (['0'], rest)
  | cs => readDigits cs

/-- A point and digits, or nothing. -/
def readFraction : List Char → Option (List Char × List Char)
  | '.' :: rest => (readDigits rest).map fun (ds, rest) => ('.' :: ds, rest)
  | cs => some ([], cs)

def isExponentMark (c : Char) : Bool :=
  c == 'e' || c == 'E'

/-- An exponent, or nothing. -/
def readExponent : List Char → Option (List Char × List Char)
  | [] => some ([], [])
  | mark :: rest =>
    if isExponentMark mark then
      match rest with
      | '+' :: rest => (readDigits rest).map fun (ds, rest) => (mark :: '+' :: ds, rest)
      | '-' :: rest => (readDigits rest).map fun (ds, rest) => (mark :: '-' :: ds, rest)
      | rest => (readDigits rest).map fun (ds, rest) => (mark :: ds, rest)
    else some ([], mark :: rest)

def readUnsigned (cs : List Char) : Option (Json × List Char) := do
  let (whole, rest) ← readWhole cs
  let (fraction, rest) ← readFraction rest
  let (exponent, rest) ← readExponent rest
  if fraction = [] ∧ exponent = [] then
    return (.natural (Nat.ofDigitChars 10 whole 0), rest)
  else return (.number (whole ++ fraction ++ exponent), rest)

def readNumber : List Char → Option (Json × List Char)
  | '-' :: cs => (readUnsigned cs).map fun (v, rest) => (.number ('-' :: compact v), rest)
  | cs => readUnsigned cs

/-! ## Values -/

/-- A key with its colon. -/
def readKey (cs : List Char) : Option (Option (List Char) × List Char) :=
  match skipBlanks cs with
  | '"' :: rest =>
    match readText rest with
    | none => none
    | some (key, rest) =>
      match skipBlanks rest with
      | ':' :: rest => some (key, rest)
      | _ => none
  | _ => none

mutual

def readValue : Nat → List Char → Option (Json × List Char)
  | 0, _ => none
  | fuel + 1, cs =>
    match skipBlanks cs with
    | 'n' :: 'u' :: 'l' :: 'l' :: rest => some (.null, rest)
    | 't' :: 'r' :: 'u' :: 'e' :: rest => some (.bool true, rest)
    | 'f' :: 'a' :: 'l' :: 's' :: 'e' :: rest => some (.bool false, rest)
    | '"' :: rest => (readText rest).map fun (content, rest) => (.text content, rest)
    | '[' :: rest =>
      match skipBlanks rest with
      | ']' :: rest => some (.array [], rest)
      | rest => (readItems fuel rest).map fun (items, rest) => (.array items, rest)
    | '{' :: rest =>
      match skipBlanks rest with
      | '}' :: rest => some (.object [], rest)
      | rest => (readEntries fuel rest).map fun (entries, rest) => (.object entries, rest)
    | rest => readNumber rest

/-- One or more values up to the bracket that closes an array. -/
def readItems : Nat → List Char → Option (List Json × List Char)
  | 0, _ => none
  | fuel + 1, cs =>
    match readValue fuel cs with
    | none => none
    | some (v, rest) =>
      match skipBlanks rest with
      | ']' :: rest => some ([v], rest)
      | ',' :: rest => (readItems fuel rest).map fun (items, rest) => (v :: items, rest)
      | _ => none

/-- One or more entries up to the brace that closes an object. -/
def readEntries : Nat → List Char → Option (List (Option (List Char) × Json) × List Char)
  | 0, _ => none
  | fuel + 1, cs =>
    match readKey cs with
    | none => none
    | some (key, rest) =>
      match readValue fuel rest with
      | none => none
      | some (v, rest) =>
        match skipBlanks rest with
        | '}' :: rest => some ([(key, v)], rest)
        | ',' :: rest =>
          (readEntries fuel rest).map fun (entries, rest) => ((key, v) :: entries, rest)
        | _ => none

end

/-- Every call that nests deeper or goes on to the next item has read at least one more character
since the call before the last. -/
def parse? (cs : List Char) : Option Json :=
  match readValue (2 * cs.length + 2) cs with
  | some (v, rest) => if skipBlanks rest = [] then some v else none
  | none => none

end Json
end DecisionForest
