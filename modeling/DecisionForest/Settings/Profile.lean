import DecisionForest.Settings.Environment
import DecisionForest.Settings.File
import DecisionForest.Text.Quoted

/-!
# Settings in use

- `Origin` tells where settings come from,
- `Profile` is settings with their origin, `Profile.default` the ones nobody chose,
- `Profile.ofFile` reads them from a file, `Profile.override` applies an environment,
- `Profile.summary` is a profile in one line of text.
-/

namespace DecisionForest

inductive Origin where
  | default
  | file (name : String)
  deriving DecidableEq, Repr

def Origin.text : Origin → String
  | .default => "Default"
  | .file name => "File(" ++ Text.quote name ++ ")"

structure Profile where
  settings : Settings
  origin : Origin
  deriving DecidableEq, Repr

namespace Profile

/-- The settings file that is used when it is there and no other is asked for. -/
def defaultFile : String := "dtree.toml"

def default : Profile :=
  { settings := {}, origin := .default }

def ofFile (read : Reader) (name : String) (machine : Machine := {}) : Logged Error Profile := do
  let s ← Logged.ofExcept (Settings.ofFile read name)
  Logged.report (s.warnings machine)
  Logged.report [.settingsRead name]
  pure { settings := s, origin := .file name }

def override (env : Environment) (p : Profile) : Profile × Except Error Unit :=
  let o := p.settings.override env
  ({ p with settings := o.settings }, match o.error? with
    | some e => .error e
    | none => .ok ())

def flagText (b : Bool) : String :=
  if b then "true" else "false"

def summary (p : Profile) (machine : Machine := {}) : String :=
  let s := p.settings
  "source=" ++ p.origin.text ++
    " feature_offset=" ++ toString s.featureOffset.toNat ++
    " raw_score=" ++ flagText s.rawScore ++
    " strict_features=" ++ flagText s.strictFeatures ++
    " reject_cycles=" ++ flagText s.rejectCycles ++
    " threads=" ++ toString (s.effectiveThreads machine).toNat

end Profile
end DecisionForest
