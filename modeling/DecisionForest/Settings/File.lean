import DecisionForest.Settings.Json
import DecisionForest.Settings.Toml

/-!
# Settings files

The extension of a file's name tells its format.

- `Format` is one of the two, `Format.ofName?` the one of a name,
- `Settings.ofFile` reads and validates a file,
- `Settings.save` writes one; nothing is written when the settings have no written form.
-/

namespace DecisionForest

inductive Format where
  | json
  | toml
  deriving DecidableEq, Repr

namespace Format

def ofName? (name : String) : Option Format :=
  match FileName.extension? name with
  | none => none
  | some ext =>
    if ext = "json".toList then some .json
    else if ext = "toml".toList then some .toml
    else none

def parse (format : Format) (document : List Char) : Except SettingsFault Settings :=
  match format with
  | .json => (Settings.parseJson document).mapError SettingsFault.json
  | .toml => (Settings.parseToml document).mapError SettingsFault.toml

def write (format : Format) (s : Settings) : Except SettingsFault (List Char) :=
  match format with
  | .json => .ok s.toJson.pretty
  | .toml => s.writeToml

end Format

namespace Settings

/-- The settings that a file's text stands for, before they are validated. -/
def ofText (name text : String) : Except SettingsFault Settings := do
  let format ← required .extension (Format.ofName? name)
  format.parse text.toList

def ofFile (read : Reader) (name : String) : Except Error Settings := do
  let text ← (read.text name).mapError fun e => Error.settings (.unreadable e)
  let s ← (ofText name text).mapError Error.settings
  s.validate
  pure s

def save (s : Settings) (files : Storage) (name : String) : Except Error Storage := do
  let format ← required (Error.settings .extension) (Format.ofName? name)
  let text ← (format.write s).mapError Error.settings
  (files.write name (Utf8.encode (String.ofList text))).mapError fun e =>
    Error.settings (.unwritable e)

end Settings
end DecisionForest
