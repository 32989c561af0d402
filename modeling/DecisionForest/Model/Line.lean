import DecisionForest.Model.Node
import DecisionForest.Number.Literal
import DecisionForest.Number.Numeral

/-!
# Node lines

A node is one line of model text: its id, its base value and its branches, separated by tabs. The
branches are separated by bars, and the feature, the yes id and the no id of a branch by colons; a
node without branches has an empty third field.

- `NodeLine.read` reads a line, or says what is wrong with it first,
- `NodeLine.write` writes one, with `basePlaces` digits after the point of the base value,
- `LineFault` is what can be wrong, `LineFault.reason` its wording.
-/

namespace DecisionForest

/-! ## Layout -/

/-- The first line of every written model. -/
def modelHeader : String := "dtree"

def fieldSeparator : Char := '\t'
def branchSeparator : Char := '|'
def partSeparator : Char := ':'

/-- Digits after the point of a written base value. -/
def basePlaces : Nat := 7

/-! ## Faults -/

/-- Why a line is not a node line. -/
inductive LineFault where
  | fieldCount (found : Nat)
  | nodeId (text : String)
  | base (text : String)
  | branchForm (branch : String)
  | feature (text branch : String)
  | target (side : Side) (text branch : String)
  /-- The line is not text from this byte on. -/
  | encoding (offset : Nat)
  /-- A reason given in words. -/
  | stated (reason : String)
  deriving DecidableEq, Repr

def LineFault.reason : LineFault → String
  | .fieldCount found => "expected 3 tab-separated fields, found " ++ toString found
  | .nodeId text => "invalid node id '" ++ text ++ "'"
  | .base text => "invalid base value '" ++ text ++ "'"
  | .branchForm branch => "branch '" ++ branch ++ "' must have the form feature:yes_id:no_id"
  | .feature text branch => "invalid feature id '" ++ text ++ "' in branch '" ++ branch ++ "'"
  | .target side text branch =>
    "invalid " ++ side.text ++ " node id '" ++ text ++ "' in branch '" ++ branch ++ "'"
  | .encoding offset => "invalid UTF-8 at byte " ++ toString offset
  | .stated reason => reason

/-- The value read, or the fault of its absence. -/
def required {α ε : Type} (fault : ε) : Option α → Except ε α
  | some a => .ok a
  | none => .error fault

theorem required_eq_ok_iff {α ε : Type} {fault : ε} {x : Option α} {a : α} :
    required fault x = .ok a ↔ x = some a := by
  cases x <;> simp [required]

namespace NodeLine

/-! ## Reading -/

def readBranch (cs : List Char) : Except LineFault (Branch NodeId) :=
  let branch := String.ofList cs
  match cs.splitOn partSeparator with
  | [feature, yes, no] => do
    let f ← required (.feature (String.ofList feature) branch) (Numeral.readUInt32? feature)
    let y ← required (.target .yes (String.ofList yes) branch) (Numeral.readUInt64? yes)
    let n ← required (.target .no (String.ofList no) branch) (Numeral.readUInt64? no)
    pure { feature := f, yes := y, no := n }
  | _ => .error (.branchForm branch)

def readBranches (cs : List Char) : Except LineFault (List (Branch NodeId)) :=
  if cs = [] then .ok [] else (cs.splitOn branchSeparator).mapM readBranch

/-- The node of a line; of several faults the leftmost is given. -/
def read (line : List Char) : Except LineFault (Node NodeId) :=
  match line.splitOn fieldSeparator with
  | [idText, baseText, branchText] => do
    let id ← required (.nodeId (String.ofList idText)) (Numeral.readUInt64? idText)
    let base ← required (.base (String.ofList baseText)) (readFloat? baseText)
    let branches ← readBranches branchText
    pure { id, base, branches }
  | fields => .error (.fieldCount fields.length)

/-! ## Writing -/

def writeBranch (b : Branch NodeId) : List Char :=
  [partSeparator].intercalate
    [Numeral.digits b.feature.toNat, Numeral.digits b.yes.toNat, Numeral.digits b.no.toNat]

def writeBranches (bs : List (Branch NodeId)) : List Char :=
  [branchSeparator].intercalate (bs.map writeBranch)

def write (n : Node NodeId) : List Char :=
  [fieldSeparator].intercalate
    [Numeral.digits n.id.toNat, writeFixed basePlaces n.base, writeBranches n.branches]

end NodeLine
end DecisionForest
