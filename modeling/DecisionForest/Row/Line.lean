import DecisionForest.Features
import DecisionForest.Text.Blank

/-!
# Row lines

A row is one line of words: a label, then `index:value` for the columns of the row, up to a `#` that
starts a comment. A column counts when its value is not zero, and stands for the feature whose id is
its index plus an offset. A word whose part before the first colon is `qid` is passed over.

- `Row` is the label and the features, in ascending order,
- `RowLine.read` reads a line; a line without words is no row,
- `RowLine.readColumn` reads one word after the label.
-/

namespace DecisionForest

structure Row where
  label : Float
  features : List FeatureId

namespace RowLine

def commentMark : Char := '#'
def columnSeparator : Char := ':'

/-- The word before the first colon of a column that names the row's group. -/
def groupName : List Char := "qid".toList

/-- The parts of a word before and after its first colon. -/
def splitColumn? (word : List Char) : Option (List Char × List Char) :=
  match word.dropWhile (· ≠ columnSeparator) with
  | [] => none
  | _ :: value => some (word.takeWhile (· ≠ columnSeparator), value)

/-- The feature of an index, which has to fit its word. -/
def shift (offset index : FeatureId) : Except RowFault FeatureId :=
  if index.toNat + offset.toNat < UInt32.size then .ok (index + offset)
  else .error (.overflow index offset)

/-- The feature that a column adds, if it adds one. A value that is not a number counts as set. -/
def readColumn (offset : FeatureId) (word : List Char) : Except RowFault (Option FeatureId) := do
  let (indexText, valueText) ← required (.pair (String.ofList word)) (splitColumn? word)
  if indexText = groupName then return none
  let index ← required (.index (String.ofList indexText)) (Numeral.readUInt32? indexText)
  let value ← required (.value (String.ofList valueText)) (readFloat? valueText)
  if value == 0.0 then return none
  let feature ← shift offset index
  return some feature

def read (offset : FeatureId) (line : List Char) : Except RowFault (Option Row) :=
  match Text.words (line.takeWhile (· ≠ commentMark)) with
  | [] => .ok none
  | labelText :: columns => do
    let label ← required (.label (String.ofList labelText)) (readFloat? labelText)
    let features ← columns.mapM (readColumn offset)
    return some { label, features := Features.ascending (features.filterMap id) }

end RowLine
end DecisionForest
