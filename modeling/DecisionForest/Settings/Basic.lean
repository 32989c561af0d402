import DecisionForest.Forest.Load
import DecisionForest.Row.Stream

/-!
# Settings

The choices that loading and scoring depend on.

- `Settings` holds them, with their defaults,
- `Machine` is what is known of the machine they are used on,
- `Settings.validate` refuses settings that cannot be used, `Settings.check` also reports the ones
  that are odd,
- `Settings.loadOptions` are the choices that loading looks at,
- `Settings.effectiveThreads` is the number of threads a batch is scored on.
-/

namespace DecisionForest

/-- By default a machine has two threads, and its cores are not counted. -/
structure Machine where
  /-- Threads for batches where the settings leave their number open. -/
  threads : UInt64 := 2
  /-- The number of cores, where it is known. -/
  cores? : Option Nat := none
  deriving DecidableEq, Repr

structure Settings where
  /-- Added to a column's index to get its feature. -/
  featureOffset : FeatureId := Rows.defaultOffset
  /-- Publish scores, not probabilities. -/
  rawScore : Bool := false
  /-- Refuse feature lists that are not in strictly ascending order. -/
  strictFeatures : Bool := false
  rejectCycles : Bool := false
  checkHeader : Bool := false
  /-- Threads for batches; zero leaves the number open. -/
  numThreads : UInt64 := 0
  /-- Smaller batches are scored on one thread. -/
  parallelThreshold : UInt64 := 1024
  deriving DecidableEq, Repr

namespace Settings

def effectiveThreads (s : Settings) (machine : Machine := {}) : UInt64 :=
  if s.numThreads = 0 then machine.threads else s.numThreads

def validate (s : Settings) : Except Error Unit :=
  if s.parallelThreshold = 0 then
    .error (.parameter "parallel_threshold" "0" "must be at least 1")
  else .ok ()

/-- More than four threads for a core are no error, but are reported. -/
def warnings (s : Settings) (machine : Machine) : List Event :=
  match machine.cores? with
  | none => []
  | some cores =>
    if cores * 4 < s.numThreads.toNat then [.manyThreads s.numThreads.toNat cores] else []

def check (s : Settings) (machine : Machine) : Logged Error Unit := do
  Logged.ofExcept s.validate
  Logged.report (s.warnings machine)

def loadOptions (s : Settings) : LoadOptions :=
  { rejectCycles := s.rejectCycles, checkHeader := s.checkHeader }

/-- What is odd is no reason to stop. -/
@[simp] theorem result_check (s : Settings) (machine : Machine) :
    (s.check machine).result = s.validate := by
  rw [check, Logged.result_bind]
  simp only [Logged.result_ofExcept, Logged.result_report]
  cases s.validate <;> rfl

end Settings
end DecisionForest
