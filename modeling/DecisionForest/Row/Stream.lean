import DecisionForest.Row.Line
import DecisionForest.Storage
import DecisionForest.Text.Line

/-!
# Rows of a stream

Every line of a row stream gives a row, an error or, when it is blank or only a comment, nothing. An
error ends neither the line before it nor the line after it.

Errors name lines by a count that starts at one. A line that is not text is an error without a
number, and the count passes it over.

- `Rows.items` lists what the lines give, in order,
- `Rows.readAll` is all rows, or the first error,
- `Rows.ofFile` reads the rows of a file.
-/

namespace DecisionForest
namespace Rows

/-- The offset of features from columns unless another one is chosen. -/
def defaultOffset : FeatureId := 1

def itemsFrom (offset : FeatureId) (counted : Nat) : List (List UInt8) → List (Except Error Row)
  | [] => []
  | raw :: rest =>
    match Utf8.decode? raw with
    | .error _ => .error (.storage .notText) :: itemsFrom offset counted rest
    | .ok line =>
      match RowLine.read offset line with
      | .ok none => itemsFrom offset (counted + 1) rest
      | .ok (some row) => .ok row :: itemsFrom offset (counted + 1) rest
      | .error fault =>
        .error (.rows (.line (counted + 1) fault)) :: itemsFrom offset (counted + 1) rest

def items (offset : FeatureId) (stream : List UInt8) : List (Except Error Row) :=
  itemsFrom offset 0 (Text.lines stream)

def readAll (offset : FeatureId) (stream : List UInt8) : Except Error (List Row) :=
  (items offset stream).mapM id

def ofFile (offset : FeatureId) (read : Reader) (name : String) : Except Error (List Row) := do
  let stream ← (read name).mapError Error.storage
  readAll offset stream

end Rows
end DecisionForest
