import DecisionForest.Number.Numeral
import DecisionForest.Settings.Profile

/-!
# Command line arguments

The tool takes a model file and a row file, and options in front of, between and after them. After
an argument `--` all arguments are files.

- `Invocation` is what the arguments ask for,
- `Flag` and `Choice` are the options without and with a value,
- `ArgumentFault` is why arguments are refused,
- `Arguments.parse` reads the arguments.

A long option takes its value after an equals sign or from the next argument, a short one also from
the characters that follow it; a next argument that looks like an option is no value. An option is
given at most once.
-/

namespace DecisionForest

structure Invocation where
  modelFile : String
  rowsFile : String
  configFile : Option String := none
  rawScore : Bool := false
  strict : Bool := false
  rejectCycles : Bool := false
  verbose : Bool := false
  featureOffset : Option FeatureId := none
  threads : Option UInt64 := none
  deriving DecidableEq, Repr

inductive ArgumentFault where
  | unknown (argument : String)
  | missingValue (argument : String)
  | unexpectedValue (argument : String)
  | invalidValue (argument value : String)
  | repeated (argument : String)
  | surplus (argument : String)
  | missingFiles
  deriving DecidableEq, Repr

def ArgumentFault.message : ArgumentFault → String
  | .unknown argument => "unexpected argument '" ++ argument ++ "'"
  | .missingValue argument => "a value is required for '" ++ argument ++ "'"
  | .unexpectedValue argument => "no value is taken by '" ++ argument ++ "'"
  | .invalidValue argument value => "invalid value '" ++ value ++ "' for '" ++ argument ++ "'"
  | .repeated argument => "'" ++ argument ++ "' cannot be given more than once"
  | .surplus argument => "unexpected argument '" ++ argument ++ "'"
  | .missingFiles => "a model file and a row file are required"

/-! ## Options -/

inductive Flag where
  | rawScore
  | strict
  | rejectCycles
  | verbose
  | help
  | version
  deriving DecidableEq, Repr

inductive Choice where
  | config
  | featureOffset
  | threads
  deriving DecidableEq, Repr

inductive OptionName where
  | flag (f : Flag)
  | choice (c : Choice)
  deriving DecidableEq, Repr

namespace OptionName

def ofLong? (name : List Char) : Option OptionName :=
  match String.ofList name with
  | "raw-score" => some (.flag .rawScore)
  | "strict" => some (.flag .strict)
  | "reject-cycles" => some (.flag .rejectCycles)
  | "verbose" => some (.flag .verbose)
  | "help" => some (.flag .help)
  | "version" => some (.flag .version)
  | "config" => some (.choice .config)
  | "feature-offset" => some (.choice .featureOffset)
  | "threads" => some (.choice .threads)
  | _ => none

def ofShort? : Char → Option OptionName
  | 'v' => some (.flag .verbose)
  | 'h' => some (.flag .help)
  | 'V' => some (.flag .version)
  | 'c' => some (.choice .config)
  | 'j' => some (.choice .threads)
  | _ => none

end OptionName

/-! ## What has been read so far -/

namespace Arguments

/-- The arguments end the run early, or are refused. -/
inductive Stop where
  | help
  | version
  | fault (f : ArgumentFault)
  deriving DecidableEq, Repr

structure Given where
  flags : List Flag := []
  config : Option String := none
  featureOffset : Option FeatureId := none
  threads : Option UInt64 := none
  files : List String := []
  deriving DecidableEq, Repr

/-- An offset may be written as a signed number. -/
def readOffset? : List Char → Option FeatureId
  | '-' :: cs => if Numeral.readDigits? cs = some 0 then some 0 else none
  | cs => Numeral.readUInt32? cs

/-- A file name is not empty. -/
def readName? (value : String) : Option String :=
  if value = "" then none else some value

namespace Given

def addFlag (g : Given) (argument : String) (f : Flag) : Except Stop Given :=
  match f with
  | .help => .error .help
  | .version => .error .version
  | f =>
    if f ∈ g.flags then .error (.fault (.repeated argument))
    else .ok { g with flags := f :: g.flags }

def addValue (g : Given) (argument value : String) (choice : Choice) : Except Stop Given :=
  let invalid := Stop.fault (.invalidValue argument value)
  let repeated := Stop.fault (.repeated argument)
  match choice with
  | .config =>
    if g.config.isSome then .error repeated
    else (required invalid (readName? value)).map fun v => { g with config := some v }
  | .featureOffset =>
    if g.featureOffset.isSome then .error repeated
    else (required invalid (readOffset? value.toList)).map fun v =>
      { g with featureOffset := some v }
  | .threads =>
    if g.threads.isSome then .error repeated
    else (required invalid (Numeral.readUInt64? value.toList)).map fun v =>
      { g with threads := some v }

def addFile (g : Given) (name : String) : Except Stop Given :=
  if g.files.length ≥ 2 then .error (.fault (.surplus name))
  else (required (.fault (.invalidValue "file" name)) (readName? name)).map fun v =>
    { g with files := g.files ++ [v] }

end Given

/-! ## Reading -/

/-- An argument of one dash alone is a file. -/
def looksLikeOption (argument : String) : Bool :=
  argument.toList.head? = some '-' && argument ≠ "-"

/-- The parts before and after the first equals sign. -/
def splitValue (cs : List Char) : List Char × Option (List Char) :=
  match cs.dropWhile (· ≠ '=') with
  | [] => (cs, none)
  | _ :: value => (cs.takeWhile (· ≠ '='), some value)

/-- What the options of an argument leave to do: nothing, or a value from the next argument. -/
inductive Pending where
  | nothing
  | value (choice : Choice)
  deriving DecidableEq, Repr

/-- The options of an argument after its two dashes. -/
def readLong (g : Given) (argument : String) (cs : List Char) : Except Stop (Given × Pending) :=
  let (name, value) := splitValue cs
  match OptionName.ofLong? name, value with
  | none, _ => .error (.fault (.unknown argument))
  | some (.flag _), some _ => .error (.fault (.unexpectedValue argument))
  | some (.flag f), none => (g.addFlag argument f).map fun g => (g, .nothing)
  | some (.choice choice), some v =>
    (g.addValue argument (String.ofList v) choice).map fun g => (g, .nothing)
  | some (.choice choice), none => .ok (g, .value choice)

/-- The options of an argument after its dash. -/
def readShort (g : Given) (argument : String) : List Char → Except Stop (Given × Pending)
  | [] => .ok (g, .nothing)
  | c :: rest =>
    match OptionName.ofShort? c with
    | none => .error (.fault (.unknown argument))
    | some (.flag f) =>
      match g.addFlag argument f with
      | .ok g => readShort g argument rest
      | .error e => .error e
    | some (.choice choice) =>
      match rest with
      | [] => .ok (g, .value choice)
      | '=' :: v => (g.addValue argument (String.ofList v) choice).map fun g => (g, .nothing)
      | v => (g.addValue argument (String.ofList v) choice).map fun g => (g, .nothing)

/-- Read one argument that is not the value of the one before. -/
def readArgument (g : Given) (argument : String) : Except Stop (Given × Pending) :=
  match argument.toList with
  | '-' :: '-' :: cs => readLong g argument cs
  | '-' :: c :: cs => readShort g argument (c :: cs)
  | _ => (g.addFile argument).map fun g => (g, .nothing)

def readAll (g : Given) : List String → Except Stop Given
  | [] => .ok g
  | argument :: rest =>
    if argument = "--" then rest.foldlM Given.addFile g
    else match readArgument g argument with
      | .error e => .error e
      | .ok (g, .nothing) => readAll g rest
      | .ok (g, .value choice) =>
        match rest with
        | [] => .error (.fault (.missingValue argument))
        | value :: rest =>
          if looksLikeOption value then .error (.fault (.missingValue argument))
          else match g.addValue argument value choice with
            | .error e => .error e
            | .ok g => readAll g rest

/-- The settings file of a variable stands in where no option names one. -/
def configVariable : String := "DTREE_CONFIG"

def withVariable (env : Environment) (g : Given) : Except Stop Given :=
  match g.config, env configVariable with
  | none, some value => g.addValue configVariable value .config
  | _, _ => .ok g

def parse (env : Environment) (arguments : List String) : Except Stop Invocation := do
  let g ← readAll {} arguments
  let g ← withVariable env g
  match g.files with
  | [modelFile, rowsFile] =>
    pure {
      modelFile
      rowsFile
      configFile := g.config
      rawScore := decide (.rawScore ∈ g.flags)
      strict := decide (.strict ∈ g.flags)
      rejectCycles := decide (.rejectCycles ∈ g.flags)
      verbose := decide (.verbose ∈ g.flags)
      featureOffset := g.featureOffset
      threads := g.threads }
  | _ => throw (.fault .missingFiles)

end Arguments
end DecisionForest
