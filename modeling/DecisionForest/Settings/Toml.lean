import DecisionForest.Settings.Field
import DecisionForest.Toml.Document

/-!
# Settings in TOML

Settings are the entries of the top table of a document.

- `Settings.parseToml` reads a document,
- `Settings.writeToml` writes one with a line for each field; the format has no integers from
  `2 ^ 63` upward, so settings with such a number have no written form.
-/

namespace DecisionForest

def Scalar.ofToml : Toml → Scalar
  | .integer n => if n < 0 then .other else .number n.toNat
  | .boolean b => .flag b
  | _ => .other

namespace Settings

def parseToml (document : List Char) : Except String Settings :=
  match Toml.parse? document with
  | none => .error "not a TOML document"
  | some entries =>
    required "not a set of settings"
      (ofScalars? (entries.map fun (key, v) => (String.ofList key, Scalar.ofToml v)))

/-- The text of a value, where the format has one. -/
def tomlText? : Scalar → Option (List Char)
  | .number n => if n < Toml.integerLimit then some (Numeral.digits n) else none
  | .flag true => some "true".toList
  | .flag false => some "false".toList
  | .other => none

def tomlLine (key : String) (value : Scalar) : Except SettingsFault (List Char) := do
  let text ← required (.tomlRange key) (tomlText? value)
  pure (key.toList ++ " = ".toList ++ text ++ ['\n'])

def writeToml (s : Settings) : Except SettingsFault (List Char) := do
  let lines ← s.scalars.mapM fun (key, value) => tomlLine key value
  pure lines.flatten

end Settings
end DecisionForest
