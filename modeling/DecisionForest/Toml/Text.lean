import DecisionForest.Json.Reader
import DecisionForest.Toml.Basic

/-!
# Texts and keys of TOML

Each reader takes the characters from where a phrase starts and gives what it read with the
characters after it.

- `Toml.readBasic` and `Toml.readLiteral` read the rest of a text after its opening quote,
- `Toml.readLongBasic` and `Toml.readLongLiteral` read the rest of a text of several lines,
- `Toml.readText` reads any text, `Toml.readKeys` a dotted key.
-/

namespace DecisionForest
namespace Toml

/-! ## Characters -/

def isBlank (c : Char) : Bool :=
  c == ' ' || c == '\t'

def skipBlanks (cs : List Char) : List Char :=
  cs.dropWhile isBlank

/-- The characters that stand for themselves in texts and comments. -/
def isPlain (c : Char) : Bool :=
  c == '\t' || (decide (0x20 ≤ c.toNat) && decide (c.toNat ≠ 0x7F))

/-- The text after a line end, if one stands here. -/
def lineEnd? : List Char → Option (List Char)
  | '\n' :: rest => some rest
  | '\r' :: '\n' :: rest => some rest
  | _ => none

/-- A line end after blanks. -/
def endsLine (cs : List Char) : Bool :=
  (lineEnd? (skipBlanks cs)).isSome

/-! ## Escapes -/

/-- The character that a letter after a backslash stands for. -/
def simpleEscape? : Char → Option Char
  | '"' => some '"'
  | '\\' => some '\\'
  | 'b' => some '\x08'
  | 'f' => some '\x0c'
  | 'n' => some '\n'
  | 'r' => some '\r'
  | 't' => some '\t'
  | _ => none

/-- The character with a code written in hexadecimal digits. -/
def charOfHex? (cs : List Char) : Option Char :=
  (Json.hexNumber? cs).bind fun n => if n.isValidChar then some (Char.ofNat n) else none

/-- A character in front of what was read after it. -/
def prepend (c : Char) : List Char × List Char → List Char × List Char
  | (content, rest) => (c :: content, rest)

/-! ## Texts on one line -/

def readBasic : List Char → Option (List Char × List Char)
  | '"' :: rest => some ([], rest)
  | '\\' :: 'u' :: a :: b :: c :: d :: rest =>
    (charOfHex? [a, b, c, d]).bind fun x => (readBasic rest).map (prepend x)
  | '\\' :: 'U' :: a :: b :: c :: d :: e :: f :: g :: h :: rest =>
    (charOfHex? [a, b, c, d, e, f, g, h]).bind fun x => (readBasic rest).map (prepend x)
  | '\\' :: e :: rest => (simpleEscape? e).bind fun x => (readBasic rest).map (prepend x)
  | c :: rest => if isPlain c ∧ c ≠ '\\' then (readBasic rest).map (prepend c) else none
  | [] => none

def readLiteral : List Char → Option (List Char × List Char)
  | '\'' :: rest => some ([], rest)
  | c :: rest => if isPlain c then (readLiteral rest).map (prepend c) else none
  | [] => none

/-! ## Texts on several lines -/

/-- Up to two quotes may stand in front of the three that close the text. A backslash at the end of
a line skips all blanks and line ends after it. -/
def readLongBasic : Bool → List Char → Option (List Char × List Char)
  | true, ' ' :: rest => readLongBasic true rest
  | true, '\t' :: rest => readLongBasic true rest
  | true, '\n' :: rest => readLongBasic true rest
  | true, '\r' :: '\n' :: rest => readLongBasic true rest
  | _, '"' :: '"' :: '"' :: '"' :: '"' :: rest => some (['"', '"'], rest)
  | _, '"' :: '"' :: '"' :: '"' :: rest => some (['"'], rest)
  | _, '"' :: '"' :: '"' :: rest => some ([], rest)
  | _, '\\' :: 'u' :: a :: b :: c :: d :: rest =>
    (charOfHex? [a, b, c, d]).bind fun x => (readLongBasic false rest).map (prepend x)
  | _, '\\' :: 'U' :: a :: b :: c :: d :: e :: f :: g :: h :: rest =>
    (charOfHex? [a, b, c, d, e, f, g, h]).bind fun x => (readLongBasic false rest).map (prepend x)
  | _, '\\' :: e :: rest =>
    if endsLine (e :: rest) then readLongBasic true (e :: rest)
    else (simpleEscape? e).bind fun x => (readLongBasic false rest).map (prepend x)
  | _, '\r' :: '\n' :: rest => (readLongBasic false rest).map (prepend '\n')
  | _, c :: rest =>
    if (isPlain c ∧ c ≠ '\\') ∨ c = '\n' then (readLongBasic false rest).map (prepend c) else none
  | _, [] => none

def readLongLiteral : List Char → Option (List Char × List Char)
  | '\'' :: '\'' :: '\'' :: '\'' :: '\'' :: rest => some (['\'', '\''], rest)
  | '\'' :: '\'' :: '\'' :: '\'' :: rest => some (['\''], rest)
  | '\'' :: '\'' :: '\'' :: rest => some ([], rest)
  | '\r' :: '\n' :: rest => (readLongLiteral rest).map (prepend '\n')
  | c :: rest => if isPlain c ∨ c = '\n' then (readLongLiteral rest).map (prepend c) else none
  | [] => none

/-- A line end directly after the opening quotes does not count. -/
def skipLineEnd (cs : List Char) : List Char :=
  (lineEnd? cs).getD cs

def readText : List Char → Option (List Char × List Char)
  | '"' :: '"' :: '"' :: rest => readLongBasic false (skipLineEnd rest)
  | '\'' :: '\'' :: '\'' :: rest => readLongLiteral (skipLineEnd rest)
  | '"' :: rest => readBasic rest
  | '\'' :: rest => readLiteral rest
  | _ => none

/-! ## Keys -/

def isBare (c : Char) : Bool :=
  c.isAlphanum || c == '_' || c == '-'

def readKey : List Char → Option (Key × List Char)
  | '"' :: rest => readBasic rest
  | '\'' :: rest => readLiteral rest
  | cs =>
    match cs.takeWhile isBare with
    | [] => none
    | key => some (key, cs.dropWhile isBare)

/-- The parts of a dotted key, with blanks around each. -/
def readKeys : Nat → List Char → Option (List Key × List Char)
  | 0, _ => none
  | limit + 1, cs =>
    match readKey (skipBlanks cs) with
    | none => none
    | some (key, rest) =>
      match skipBlanks rest with
      | '.' :: rest => (readKeys limit rest).map fun (keys, rest) => (key :: keys, rest)
      | rest => some ([key], rest)

/-- A dotted key as the path to a table and a key in it. -/
def readPath (cs : List Char) : Option (List Key × Key × List Char) :=
  match readKeys (nestingLimit - 1) cs with
  | some (keys, rest) => keys.getLast?.map fun key => (keys.dropLast, key, rest)
  | none => none

end Toml
end DecisionForest
