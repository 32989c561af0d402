import DecisionForest.Settings.Basic

/-!
# Settings by key

Every written form of settings is a list of keys with numbers or flags.

- `Field` is the list of keys in their written order, `Field.key` and `Field.ofKey?` their names,
- `Scalar` is a value as any notation may have it,
- `Settings.get` and `Settings.set?` access a field; a value of another kind or out of range is
  refused,
- `Settings.ofScalars?` builds settings from keyed values: unknown keys are passed over, fields
  without a value keep their defaults, and a field given twice is refused,
- `Settings.scalars` lists all fields.
-/

namespace DecisionForest

inductive Field where
  | featureOffset
  | rawScore
  | strictFeatures
  | rejectCycles
  | checkHeader
  | numThreads
  | parallelThreshold
  deriving DecidableEq, Repr

namespace Field

def all : List Field :=
  [.featureOffset, .rawScore, .strictFeatures, .rejectCycles, .checkHeader, .numThreads,
    .parallelThreshold]

def key : Field → String
  | .featureOffset => "feature_offset"
  | .rawScore => "raw_score"
  | .strictFeatures => "strict_features"
  | .rejectCycles => "reject_cycles"
  | .checkHeader => "check_header"
  | .numThreads => "num_threads"
  | .parallelThreshold => "parallel_threshold"

def ofKey? (key : String) : Option Field :=
  all.find? fun f => f.key = key

theorem mem_all (f : Field) : f ∈ all := by
  cases f <;> decide

theorem ofKey?_key (f : Field) : ofKey? f.key = some f := by
  cases f <;> decide

end Field

/-- A value of a written form; what is neither a number nor a flag fits no field. -/
inductive Scalar where
  | number (n : Nat)
  | flag (b : Bool)
  | other
  deriving DecidableEq, Repr

namespace Settings

def get (s : Settings) : Field → Scalar
  | .featureOffset => .number s.featureOffset.toNat
  | .rawScore => .flag s.rawScore
  | .strictFeatures => .flag s.strictFeatures
  | .rejectCycles => .flag s.rejectCycles
  | .checkHeader => .flag s.checkHeader
  | .numThreads => .number s.numThreads.toNat
  | .parallelThreshold => .number s.parallelThreshold.toNat

def set? (s : Settings) : Field → Scalar → Option Settings
  | .featureOffset, .number n =>
    if n < UInt32.size then some { s with featureOffset := UInt32.ofNat n } else none
  | .rawScore, .flag b => some { s with rawScore := b }
  | .strictFeatures, .flag b => some { s with strictFeatures := b }
  | .rejectCycles, .flag b => some { s with rejectCycles := b }
  | .checkHeader, .flag b => some { s with checkHeader := b }
  | .numThreads, .number n =>
    if n < UInt64.size then some { s with numThreads := UInt64.ofNat n } else none
  | .parallelThreshold, .number n =>
    if n < UInt64.size then some { s with parallelThreshold := UInt64.ofNat n } else none
  | _, _ => none

/-- Settings after more keyed values, with the fields given so far. -/
def addScalars? (s : Settings) (given : List Field) : List (String × Scalar) → Option Settings
  | [] => some s
  | (key, value) :: rest =>
    match Field.ofKey? key with
    | none => addScalars? s given rest
    | some f =>
      if f ∈ given then none
      else match s.set? f value with
        | none => none
        | some s => addScalars? s (f :: given) rest

def ofScalars? (values : List (String × Scalar)) : Option Settings :=
  addScalars? {} [] values

def scalars (s : Settings) : List (String × Scalar) :=
  Field.all.map fun f => (f.key, s.get f)

end Settings
end DecisionForest
