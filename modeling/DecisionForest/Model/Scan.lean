import DecisionForest.Model.Catalog
import DecisionForest.Text.Line
import DecisionForest.Text.Utf8

/-!
# Node lines of a stream

Below the header a model stream holds one node a line, up to the first blank line or its end.

- `readLine` reads one line of bytes: a node, a blank line, or an error that shows the line's text,
- `scan` reads lines in order up to a blank line or the first error, and keeps what it read before.
-/

namespace DecisionForest
namespace Model

def readLine (number : Nat) (raw : List UInt8) : Except ModelError (Option Definition) :=
  match Utf8.decode? raw with
  | .error offset =>
    let content := String.ofList (Text.dropReturns (Utf8.decodeLossy raw))
    .error (.line number content (.encoding offset))
  | .ok text =>
    let content := Text.dropReturns text
    if content = [] then .ok none
    else match NodeLine.read content with
      | .ok node => .ok (some { line := number, node })
      | .error fault => .error (.line number (String.ofList content) fault)

/-- The definitions read, and the error that ended reading, if one did. -/
structure Scan where
  definitions : List Definition
  error? : Option ModelError

def scan (number : Nat) : List (List UInt8) → Scan
  | [] => { definitions := [], error? := none }
  | raw :: rest =>
    match readLine number raw with
    | .error e => { definitions := [], error? := some e }
    | .ok none => { definitions := [], error? := none }
    | .ok (some d) =>
      let s := scan (number + 1) rest
      { s with definitions := d :: s.definitions }

end Model
end DecisionForest
