/-!
# Lines of a byte stream

A line feed ends a line. The bytes after the last line feed are a line of their own unless there are
none, so a stream that ends in a line feed has no further, empty line.

- `lines` cuts a stream into lines without their line feeds,
- `dropReturns` drops the carriage returns and line feeds at the end of a text.
-/

namespace DecisionForest
namespace Text

def lines (stream : List UInt8) : List (List UInt8) :=
  let parts := stream.splitOn 0x0A
  if parts.getLast? = some [] then parts.dropLast else parts

def isReturn (c : Char) : Bool :=
  c == '\r' || c == '\n'

def dropReturns (cs : List Char) : List Char :=
  (cs.reverse.dropWhile isReturn).reverse

end Text
end DecisionForest
