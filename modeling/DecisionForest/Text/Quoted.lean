import DecisionForest.Text.Printable

/-!
# Quoted text

A text in double quotes, in which each character can be told apart: quotes and backslashes follow a
backslash, as do letters for the common controls, and any other character without a visible form is
given by its code point.
-/

namespace DecisionForest
namespace Text

/-- The code point of a character in lower-case hexadecimal digits. -/
def codePoint (c : Char) : List Char :=
  '\\' :: 'u' :: '{' :: Nat.toDigits 16 c.toNat ++ ['}']

def quoteChar (c : Char) : List Char :=
  if c = '"' then ['\\', '"']
  else if c = '\\' then ['\\', '\\']
  else if c = '\n' then ['\\', 'n']
  else if c = '\r' then ['\\', 'r']
  else if c = '\t' then ['\\', 't']
  else if c = '\x00' then ['\\', '0']
  else if isPrintable c then [c]
  else codePoint c

def quote (text : String) : String :=
  String.ofList ('"' :: text.toList.flatMap quoteChar ++ ['"'])

end Text
end DecisionForest
