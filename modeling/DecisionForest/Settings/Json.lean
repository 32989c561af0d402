import DecisionForest.Json.Reader
import DecisionForest.Settings.Field

/-!
# Settings in JSON

Settings are an object of their fields, or an array of values in the written order of the fields, of
which the last ones may be missing.

- `Settings.ofJson?` and `Settings.toJson` go through a JSON value,
- `Settings.parseJson` reads a document.
-/

namespace DecisionForest

def Scalar.ofJson : Json → Scalar
  | .natural n => .number n
  | .bool b => .flag b
  | _ => .other

def Scalar.toJson : Scalar → Json
  | .number n => .natural n
  | .flag b => .bool b
  | .other => .null

namespace Settings

/-- A key that no `String` holds makes the entry unreadable. -/
def keyedScalar? : Option (List Char) × Json → Option (String × Scalar)
  | (some key, v) => some (String.ofList key, Scalar.ofJson v)
  | (none, _) => none

def ofJson? : Json → Option Settings
  | .object entries => (entries.mapM keyedScalar?).bind ofScalars?
  | .array items =>
    if items.length ≤ Field.all.length then
      ofScalars? (Field.all.zipWith (fun f v => (f.key, Scalar.ofJson v)) items)
    else none
  | _ => none

def toJson (s : Settings) : Json :=
  .object (s.scalars.map fun (key, value) => (some key.toList, value.toJson))

/-- The settings of a document, or what is wrong with it. -/
def parseJson (document : List Char) : Except String Settings :=
  match Json.parse? document with
  | none => .error "not a JSON document"
  | some v => required "not a set of settings" (ofJson? v)

end Settings
end DecisionForest
