import DecisionForest.Model.Line

/-!
# Errors

Every way in which an operation fails, as a cause; the wording of all of them is in this module.

- `StorageError` is a file that cannot be read or written,
- `ModelError` is a byte stream that is not a model,
- `RowFault` is a row line that is not a row,
- `SettingsFault` is a settings file or variable that cannot be used,
- `Error` is any of them, with `Error.message`, `Error.category` and `Error.source?`.
-/

namespace DecisionForest

/-! ## Files -/

inductive StorageError where
  | notFound
  | isDirectory
  | notDirectory
  | alreadyExists
  | nameTooLong
  | nulInName
  | notText
  | stated (text : String)
  deriving DecidableEq, Repr

def StorageError.message : StorageError → String
  | .notFound => "No such file or directory (os error 2)"
  | .isDirectory => "Is a directory (os error 21)"
  | .notDirectory => "Not a directory (os error 20)"
  | .alreadyExists => "File exists (os error 17)"
  | .nameTooLong => "File name too long (os error 36)"
  | .nulInName => "file name contained an unexpected NUL byte"
  | .notText => "stream did not contain valid UTF-8"
  | .stated text => text

/-! ## Models -/

inductive ModelError where
  /-- A line is not a node line; the stream's first line has number one. -/
  | line (number : Nat) (content : String) (fault : LineFault)
  /-- A branch of `node`, which is defined on line `number`, names a node that is not defined. -/
  | dangling (node referenced : NodeId) (side : Side) (number : Nat)
  | empty
  | cyclic (node : NodeId)
  deriving DecidableEq, Repr

namespace ModelError

def message : ModelError → String
  | .line number content fault =>
    "Parse error at line " ++ toString number ++ ": " ++ fault.reason ++
      " (line='" ++ content ++ "')"
  | .dangling node referenced side number =>
    "Dangling reference at line " ++ toString number ++ ": node " ++ toString node.toNat ++ " " ++
      side.text ++ " branch refers to unknown node " ++ toString referenced.toNat
  | .empty => "Empty model: no node records found"
  | .cyclic node =>
    "Cyclic reference: node " ++ toString node.toNat ++ " is reachable from itself"

/-- The line that the error is about, where there is one. -/
def lineNumber? : ModelError → Option Nat
  | .line number _ _ => some number
  | .dangling _ _ _ number => some number
  | .empty => none
  | .cyclic _ => none

end ModelError

/-! ## Rows -/

inductive RowFault where
  | label (text : String)
  | pair (text : String)
  | index (text : String)
  | value (text : String)
  | overflow (index offset : FeatureId)
  deriving DecidableEq, Repr

def RowFault.reason : RowFault → String
  | .label text => "invalid label '" ++ text ++ "'"
  | .pair text => "expected index:value, got '" ++ text ++ "'"
  | .index text => "invalid index '" ++ text ++ "'"
  | .value text => "invalid value '" ++ text ++ "'"
  | .overflow i offset =>
    "index " ++ toString i.toNat ++ " overflows with offset " ++ toString offset.toNat

/-- Why rows cannot be read. -/
inductive RowsFault where
  | line (number : Nat) (fault : RowFault)
  | stated (text : String)
  deriving DecidableEq, Repr

def RowsFault.message : RowsFault → String
  | .line number fault => "line " ++ toString number ++ ": " ++ fault.reason
  | .stated text => text

/-! ## Features -/

/-- Why a feature list is refused where order is checked. -/
inductive FeaturesFault where
  | notAscending (position : Nat) (feature next : FeatureId)
  | stated (text : String)
  deriving DecidableEq, Repr

def FeaturesFault.message : FeaturesFault → String
  | .notAscending position feature next =>
    "feature ids must be strictly ascending: " ++ toString feature.toNat ++ " at position " ++
      toString position ++ " is followed by " ++ toString next.toNat
  | .stated text => text

/-! ## Settings -/

inductive SettingsFault where
  | unreadable (cause : StorageError)
  | unwritable (cause : StorageError)
  | extension
  | json (detail : String)
  | toml (detail : String)
  | tomlRange (key : String)
  /-- An environment variable that is no number. -/
  | variable (name : String)
  /-- An environment variable that is no flag. -/
  | flag (name value : String)
  | stated (text : String)
  deriving DecidableEq, Repr

def SettingsFault.message : SettingsFault → String
  | .unreadable cause => "Failed to read config file: " ++ cause.message
  | .unwritable cause => "Failed to write config file: " ++ cause.message
  | .extension => "Unsupported config file format. Use .json or .toml"
  | .json detail => "Failed to parse JSON config: " ++ detail
  | .toml detail => "Failed to parse TOML config: " ++ detail
  | .tomlRange key => "Failed to serialize to TOML: " ++ key ++ " is out of range"
  | .variable name => "Invalid " ++ name
  | .flag name value => "Invalid " ++ name ++ ": '" ++ value ++ "'"
  | .stated text => text

/-! ## All errors -/

inductive Error where
  | settings (fault : SettingsFault)
  | parameter (name value reason : String)
  | model (cause : ModelError)
  | rows (fault : RowsFault)
  | features (fault : FeaturesFault)
  | storage (cause : StorageError)
  | json (detail : String)
  /-- The walk of a row through the forest enters a cycle, so its score has no value. -/
  | endless
  deriving DecidableEq, Repr

namespace Error

def category : Error → String
  | .settings _ => "config"
  | .parameter _ _ _ => "invalid_parameter"
  | .model _ => "malformed_model"
  | .rows _ => "data_loading"
  | .features _ => "invalid_input"
  | .storage _ => "io"
  | .json _ => "json"
  | .endless => "endless_walk"

def message : Error → String
  | .settings fault => "Configuration error: " ++ fault.message
  | .parameter name value reason =>
    "Invalid parameter: " ++ name ++ " = " ++ value ++ ", " ++ reason
  | .model cause => "Malformed model: " ++ cause.message
  | .rows fault => "Data loading error: " ++ fault.message
  | .features fault => "Invalid input: " ++ fault.message
  | .storage cause => "I/O error: " ++ cause.message
  | .json detail => "JSON error: " ++ detail
  | .endless => "Endless walk: the branches taken enter a cycle"

/-- The wording of the cause that an error wraps, where it wraps one. -/
def source? : Error → Option String
  | .model cause => some cause.message
  | .storage cause => some cause.message
  | .json detail => some detail
  | _ => none

end Error
end DecisionForest
