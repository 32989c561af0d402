import DecisionForest.Toml.Number
import DecisionForest.Toml.Text

/-!
# TOML documents

- `Toml.readValue` reads a value, for nesting up to a given number of levels,
- `Toml.readLine` reads one line, or several if its value takes more,
- `Toml.parse?` reads a document as the entries of its top table.
-/

namespace DecisionForest
namespace Toml

/-! ## Comments -/

/-- The text after a comment, if one stands here, up to its line end. -/
def skipComment : List Char → List Char
  | '#' :: rest => rest.dropWhile isPlain
  | cs => cs

/-- What may follow an expression on its line. -/
def endLine? (cs : List Char) : Option (List Char) :=
  match skipComment (skipBlanks cs) with
  | [] => some []
  | rest => lineEnd? rest

/-- The text after blanks, comments and line ends between the values of an array. -/
def skipSpace : Nat → List Char → List Char
  | 0, cs => cs
  | fuel + 1, cs =>
    let rest := skipBlanks cs
    match lineEnd? (skipComment rest) with
    | some rest => skipSpace fuel rest
    | none => rest

/-! ## Values -/

mutual

def readValue : Nat → Nat → List Char → Option (Toml × List Char)
  | 0, _, _ => none
  | fuel + 1, levels, cs =>
    match cs with
    | '[' :: rest =>
      if levels = 0 then none
      else match skipSpace fuel rest with
        | ']' :: rest => some (.array [], rest)
        | rest => (readItems fuel (levels - 1) rest).map fun (items, rest) => (.array items, rest)
    | '{' :: rest =>
      if levels = 0 then none
      else match skipBlanks rest with
        | '}' :: rest => some (.table .inline [], rest)
        | rest =>
          (readEntries fuel (levels - 1) [] rest).map fun (es, rest) => (.table .inline es, rest)
    | 't' :: 'r' :: 'u' :: 'e' :: rest => some (.boolean true, rest)
    | 'f' :: 'a' :: 'l' :: 's' :: 'e' :: rest => some (.boolean false, rest)
    | '"' :: _ => (readText cs).map fun (content, rest) => (.text content, rest)
    | '\'' :: _ => (readText cs).map fun (content, rest) => (.text content, rest)
    | _ => readNumber cs

/-- One or more values up to the bracket that closes an array; a comma may follow the last. -/
def readItems : Nat → Nat → List Char → Option (List Toml × List Char)
  | 0, _, _ => none
  | fuel + 1, levels, cs =>
    match readValue fuel levels cs with
    | none => none
    | some (v, rest) =>
      match skipSpace fuel rest with
      | ']' :: rest => some ([v], rest)
      | ',' :: rest =>
        match skipSpace fuel rest with
        | ']' :: rest => some ([v], rest)
        | rest => (readItems fuel levels rest).map fun (items, rest) => (v :: items, rest)
      | _ => none

/-- One or more entries up to the brace that closes an inline table. -/
def readEntries : Nat → Nat → Entries → List Char → Option (Entries × List Char)
  | 0, _, _, _ => none
  | fuel + 1, levels, es, cs =>
    match readPath cs with
    | some (path, key, '=' :: rest) =>
      match readValue fuel levels (skipBlanks rest) with
      | none => none
      | some (v, rest) =>
        match assign? path key v es with
        | none => none
        | some es =>
          match skipBlanks rest with
          | '}' :: rest => some (es, rest)
          | ',' :: rest => readEntries fuel levels es rest
          | _ => none
    | _ => none

end

/-- Fuel for a value: every call that nests deeper or goes on to the next item has read at least one
more character since the call before the last, and so has every line that is skipped. -/
def valueFuel (cs : List Char) : Nat :=
  2 * cs.length + 2

/-! ## Lines -/

/-- The expression of a line, if it has one, and the text after the line. -/
def readLine (cs : List Char) : Option (Option Expression × List Char) :=
  match skipBlanks cs with
  | '[' :: '[' :: rest =>
    match readPath rest with
    | some (path, key, ']' :: ']' :: rest) =>
      (endLine? rest).map fun rest => (some (.element path key), rest)
    | _ => none
  | '[' :: rest =>
    match readPath rest with
    | some (path, key, ']' :: rest) =>
      (endLine? rest).map fun rest => (some (.header path key), rest)
    | _ => none
  | rest =>
    match endLine? rest with
    | some rest => some (none, rest)
    | none =>
      match readPath rest with
      | some (path, key, '=' :: rest) =>
        match readValue (valueFuel rest) (nestingLimit - 1) (skipBlanks rest) with
        | some (v, rest) =>
          (endLine? rest).map fun rest => (some (.assignment path key v), rest)
        | none => none
      | _ => none

/-- The expressions of a text with at most `fuel` lines. -/
def readLines : Nat → List Char → Option (List Expression)
  | 0, cs => if cs = [] then some [] else none
  | fuel + 1, cs =>
    if cs = [] then some []
    else match readLine cs with
      | none => none
      | some (none, rest) => readLines fuel rest
      | some (some e, rest) => (readLines fuel rest).map (e :: ·)

/-- A byte order mark in front of a document does not count. -/
def skipMark : List Char → List Char
  | '\uFEFF' :: rest => rest
  | cs => cs

def parse? (document : List Char) : Option Entries :=
  let cs := skipMark document
  (readLines cs.length cs).bind ofExpressions?

end Toml
end DecisionForest
