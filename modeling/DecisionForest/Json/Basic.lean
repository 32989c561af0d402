import DecisionForest.Number.Numeral

/-!
# JSON values

- `Json` is a value; entries of an object keep their order and repetitions,
- `Json.compact` writes a value without spaces,
- `Json.pretty` writes it on lines indented by two spaces a level.

A text written with escapes may hold half of a surrogate pair, which no `String` holds: such a text
is `none`. Of numbers only those written as plain digits have a value here; any other number is kept
as it is written.
-/

namespace DecisionForest

inductive Json where
  | null
  | bool (b : Bool)
  | natural (n : Nat)
  | number (literal : List Char)
  | text (content : Option (List Char))
  | array (items : List Json)
  | object (entries : List (Option (List Char) × Json))
  deriving Repr

namespace Json

/-! ## Texts -/

/-- The digits of one byte. -/
def hexByte (n : Nat) : List Char :=
  [Nat.digitChar (n / 16), Nat.digitChar (n % 16)]

def escapeChar (c : Char) : List Char :=
  if c = '"' then ['\\', '"']
  else if c = '\\' then ['\\', '\\']
  else if c = '\n' then ['\\', 'n']
  else if c = '\r' then ['\\', 'r']
  else if c = '\t' then ['\\', 't']
  else if c = '\x08' then ['\\', 'b']
  else if c = '\x0c' then ['\\', 'f']
  else if c.toNat < 0x20 then ['\\', 'u', '0', '0'] ++ hexByte c.toNat
  else [c]

/-- A text in quotes; the replacement character stands for one that no `String` holds. -/
def quote (content : Option (List Char)) : List Char :=
  '"' :: (content.getD ['\uFFFD']).flatMap escapeChar ++ ['"']

/-! ## Compact form -/

mutual

def compact : Json → List Char
  | .null => "null".toList
  | .bool true => "true".toList
  | .bool false => "false".toList
  | .natural n => Numeral.digits n
  | .number literal => literal
  | .text content => quote content
  | .array items => '[' :: compactItems items ++ [']']
  | .object entries => '{' :: compactEntries entries ++ ['}']

def compactItems : List Json → List Char
  | [] => []
  | [v] => compact v
  | v :: rest => compact v ++ ',' :: compactItems rest

def compactEntries : List (Option (List Char) × Json) → List Char
  | [] => []
  | [(k, v)] => quote k ++ ':' :: compact v
  | (k, v) :: rest => quote k ++ ':' :: compact v ++ ',' :: compactEntries rest

end

/-! ## Indented form -/

def newLine (level : Nat) : List Char :=
  '\n' :: List.replicate (2 * level) ' '

mutual

def prettyAt (level : Nat) : Json → List Char
  | .array [] => ['[', ']']
  | .object [] => ['{', '}']
  | .array (v :: rest) => '[' :: prettyItems (level + 1) (v :: rest) ++ newLine level ++ [']']
  | .object (e :: rest) => '{' :: prettyEntries (level + 1) (e :: rest) ++ newLine level ++ ['}']
  | v => compact v

def prettyItems (level : Nat) : List Json → List Char
  | [] => []
  | [v] => newLine level ++ prettyAt level v
  | v :: rest => newLine level ++ prettyAt level v ++ ',' :: prettyItems level rest

def prettyEntries (level : Nat) : List (Option (List Char) × Json) → List Char
  | [] => []
  | [(k, v)] => newLine level ++ quote k ++ ':' :: ' ' :: prettyAt level v
  | (k, v) :: rest =>
    newLine level ++ quote k ++ ':' :: ' ' :: prettyAt level v ++ ',' :: prettyEntries level rest

end

def pretty (v : Json) : List Char :=
  prettyAt 0 v

end Json
end DecisionForest
