import DecisionForest.Forest.Score
import DecisionForest.Settings.Basic

/-!
# Predictors

A forest with the settings under which it scores rows. What it publishes for a row is the
probability, or the score when the settings say so.

A batch below the parallel threshold is scored row by row. A larger one is cut into chunks that are
scored as tasks of their own; the results are put together in row order, so both ways publish the
same values.

- `Predictor.ofForest` and `Predictor.ofModelFile` make a predictor from valid settings,
- `Predictor.rawScore` and `Predictor.predictRow` answer for one row,
- `Predictor.predictBatch` answers for several,
- `Predictor.predictStream` and `Predictor.predictFile` answer for the rows of a stream or a file.
-/

namespace DecisionForest

structure Predictor where
  forest : Forest
  settings : Settings

namespace Predictor

/-! ## Making one -/

def ofForest (F : Forest) (s : Settings) : Except Error Predictor := do
  s.validate
  pure { forest := F, settings := s }

def ofModelFile (read : Reader) (name : String) (s : Settings) (machine : Machine := {}) :
    Logged Error Predictor := do
  let F ← Forest.loadFile s.loadOptions read name
  let p ← Logged.ofExcept (ofForest F s)
  Logged.report (s.warnings machine)
  pure p

/-! ## One row -/

variable (p : Predictor)

def scorer : Scorer :=
  { forest := p.forest, strict := p.settings.strictFeatures }

def rawScore (features : Array FeatureId) : Except Error Float :=
  p.scorer.score features

/-- The published form of a score. -/
def publish (score : Float) : Float :=
  if p.settings.rawScore then score else toProbability score

def predictRow (features : Array FeatureId) : Except Error Float :=
  (p.rawScore features).map p.publish

/-! ## Batches -/

def predictSequentially (rows : List (Array FeatureId)) : Except Error (List Float) :=
  rows.mapM p.predictRow

/-- Cut a list into chunks of `width + 1` elements, the last one possibly shorter. -/
def chunks {α : Type} (width : Nat) (rows : List α) : List (List α) :=
  match rows with
  | [] => []
  | row :: rest => (row :: rest.take width) :: chunks width (rest.drop width)
termination_by rows.length
decreasing_by
  rw [List.length_drop, List.length_cons]
  exact Nat.lt_succ_of_le (Nat.sub_le _ _)

/-- Score each chunk as a task; the first error in row order is the error of the batch. -/
def predictChunks (parts : List (List (Array FeatureId))) : Except Error (List Float) := do
  let tasks := parts.map fun part => Task.spawn fun _ => p.predictSequentially part
  let values ← tasks.mapM Task.get
  pure values.flatten

/-- There are about as many tasks as the settings ask for threads. Where they leave the number open
the quotient is zero, and each row is a task. -/
def predictInParallel (rows : List (Array FeatureId)) : Except Error (List Float) :=
  p.predictChunks (chunks (rows.length / p.settings.numThreads.toNat) rows)

def predictBatch (rows : List (Array FeatureId)) : Logged Error (List Float) :=
  if rows.length < p.settings.parallelThreshold.toNat then
    Logged.ofExcept (p.predictSequentially rows)
  else do
    Logged.report [.parallelBatch rows.length]
    Logged.ofExcept (p.predictInParallel rows)

/-! ## Streams -/

def predictRows (rows : List Row) : Logged Error (List Float) := do
  Logged.report [.rowsRead rows.length]
  p.predictBatch (rows.map fun row => row.features.toArray)

def predictStream (stream : List UInt8) : Logged Error (List Float) := do
  let rows ← Logged.ofExcept (Rows.readAll p.settings.featureOffset stream)
  p.predictRows rows

def predictFile (read : Reader) (name : String) : Logged Error (List Float) := do
  let rows ← Logged.ofExcept (Rows.ofFile p.settings.featureOffset read name)
  p.predictRows rows

end Predictor
end DecisionForest
