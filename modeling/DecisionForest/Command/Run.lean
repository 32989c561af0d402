import DecisionForest.Command.Arguments
import DecisionForest.Predictor

/-!
# The command line tool

Scores every row of a row file against a model file and prints one value a line, in row order. A run
prints all its values or none: the first stage that fails ends it.

- `Invocation.settings` layers the settings: file, then variables, then options,
- `Invocation.values` runs the stages,
- `Command.run` is the whole tool as a function of files, variables, arguments and the machine.
-/

namespace DecisionForest

/-- An error with the stage it ended, where the stage has a name. -/
structure Failure where
  stage : Option String
  error : Error
  deriving DecidableEq, Repr

/-- The stage, the error and what the error wraps. -/
def Failure.message (f : Failure) : String :=
  ": ".intercalate (f.stage.toList ++ [f.error.message] ++ f.error.source?.toList)

namespace Invocation

/-! ## Settings -/

/-- The settings file asked for, or the default one when it is there. -/
def settingsFile? (i : Invocation) (read : Reader) : Option String :=
  match i.configFile with
  | some name => some name
  | none => if read.isFile Profile.defaultFile then some Profile.defaultFile else none

def profile (i : Invocation) (read : Reader) (machine : Machine) : Logged Failure Profile :=
  match i.settingsFile? read with
  | none => pure .default
  | some name =>
    (Profile.ofFile read name machine).mapError fun e =>
      { stage := some ("cannot read config " ++ name), error := e }

/-- Options turn flags on and replace numbers. -/
def applyOptions (i : Invocation) (s : Settings) : Settings :=
  { s with
    rawScore := s.rawScore || i.rawScore
    strictFeatures := s.strictFeatures || i.strict
    rejectCycles := s.rejectCycles || i.rejectCycles
    featureOffset := i.featureOffset.getD s.featureOffset
    numThreads := i.threads.getD s.numThreads }

def settings (i : Invocation) (read : Reader) (env : Environment) (machine : Machine) :
    Logged Failure Settings := do
  let p ← i.profile read machine
  let (p, overridden) := p.override env
  Logged.ofExcept (overridden.mapError fun e => { stage := none, error := e })
  Logged.report (p.settings.warnings machine)
  let p := { p with settings := i.applyOptions p.settings }
  (p.settings.check machine).mapError fun e => { stage := none, error := e }
  Logged.report [.settingsUsed (p.summary machine)]
  pure p.settings

/-! ## Stages -/

def predictor (i : Invocation) (read : Reader) (s : Settings) (machine : Machine) :
    Logged Failure Predictor :=
  (Predictor.ofModelFile read i.modelFile s machine).mapError fun e =>
    { stage := some ("cannot load model " ++ i.modelFile), error := e }

def score (i : Invocation) (read : Reader) (p : Predictor) : Logged Failure (List Float) :=
  (p.predictFile read i.rowsFile).mapError fun e =>
    { stage := some ("cannot score " ++ i.rowsFile), error := e }

def values (i : Invocation) (read : Reader) (env : Environment) (machine : Machine) :
    Logged Failure (List Float) := do
  let s ← i.settings read env machine
  let p ← i.predictor read s machine
  i.score read p

end Invocation

/-! ## The whole tool -/

/-- What a run leaves behind: an exit code, what it prints, and the events to log. -/
structure Outcome where
  code : UInt8
  stdout : String
  stderr : String
  log : List Event
  deriving DecidableEq, Repr

namespace Command

def name : String := "forest-predict"

def version : String := "0.1.0"

def usage : String :=
  "Usage: " ++ name ++ " [OPTIONS] <MODEL_FILE> <SVM_FILE>"

def help : String :=
  "\n".intercalate
    [ "Scores every row of an svm file against a forest model",
      "",
      usage,
      "",
      "Arguments:",
      "  <MODEL_FILE>  Model file",
      "  <SVM_FILE>    Sparse svm input file",
      "",
      "Options:",
      "  -c, --config <CONFIG>                  Configuration file (.toml or .json)",
      "      --raw-score                        Print raw scores instead of probabilities",
      "      --strict                           Reject rows whose feature ids are out of order",
      "      --reject-cycles                    Reject models containing cycles",
      "      --feature-offset <FEATURE_OFFSET>  Offset added to zero-based svm indices",
      "  -j, --threads <THREADS>                Scoring threads (0 = all cores)",
      "  -v, --verbose                          Enable debug logging",
      "  -h, --help                             Print help",
      "  -V, --version                          Print version",
      "" ]

/-- The printed form of values, one a line. -/
def printed (values : List Float) : String :=
  String.ofList (values.flatMap fun x => writeShortest x ++ ['\n'])

def stopped : Arguments.Stop → Outcome
  | .help => { code := 0, stdout := help, stderr := "", log := [] }
  | .version => { code := 0, stdout := name ++ " " ++ version ++ "\n", stderr := "", log := [] }
  | .fault f =>
    { code := 2
      stdout := ""
      stderr := "error: " ++ f.message ++ "\n\n" ++ usage ++ "\n"
      log := [] }

/-- Warnings are logged, and on request also what helps to find errors. -/
def logged (i : Invocation) (events : List Event) : List Event :=
  let shown : Level := if i.verbose then .debug else .warn
  events.filter fun e => e.level.rank ≤ shown.rank

def run (read : Reader) (env : Environment) (arguments : List String) (machine : Machine := {}) :
    Outcome :=
  match Arguments.parse env arguments with
  | .error stop => stopped stop
  | .ok i =>
    let x := i.values read env machine
    let log := logged i x.events
    match x.result with
    | .ok values => { code := 0, stdout := printed values, stderr := "", log }
    | .error f => { code := 1, stdout := "", stderr := "Error: " ++ f.message ++ "\n", log }

/-- The files that a run may read, by their names. -/
def fileNames (env : Environment) (arguments : List String) : List String :=
  match Arguments.parse env arguments with
  | .error _ => []
  | .ok i => [i.configFile.getD Profile.defaultFile, i.modelFile, i.rowsFile]

/-- The variables that a run looks at. -/
def variableNames : List String :=
  Arguments.configVariable :: Override.all.map Override.name

end Command
end DecisionForest
