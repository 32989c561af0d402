import DecisionForest.Number.Shortest

/-!
# Nodes and branches

A node adds its base value to a score and then follows each of its branches. A branch tests one
feature and goes on at one of two nodes.

Nodes are generic in how a branch names the nodes it goes on at: model text names them by
`NodeId`, a loaded forest by position. `Node.map` changes the naming and keeps all else.

- `Branch`, `Node` are the records,
- `Branch.follow` is the target for a row with or without the feature,
- `Branch.mapM` renames targets where a name may be unknown,
- `Node.targets` lists the targets in branch order, the yes side before the no side,
- `Node.describe` is a node in one line of text.
-/

namespace DecisionForest

/-- The name of a node in model text. -/
abbrev NodeId := UInt64

/-- The name of a feature; a row is the list of features it has. -/
abbrev FeatureId := UInt32

/-- The two continuations of a branch. -/
inductive Side where
  | yes
  | no
  deriving DecidableEq, Repr

def Side.text : Side → String
  | .yes => "yes"
  | .no => "no"

structure Branch (Target : Type) where
  feature : FeatureId
  yes : Target
  no : Target
  deriving DecidableEq, Repr

structure Node (Target : Type) where
  id : NodeId
  base : Float
  branches : List (Branch Target)

variable {α β : Type}

namespace Branch

/-- The target for a row that has the feature, or lacks it. -/
def follow (b : Branch α) (present : Bool) : α :=
  if present then b.yes else b.no

def map (f : α → β) (b : Branch α) : Branch β :=
  { feature := b.feature, yes := f b.yes, no := f b.no }

def mapM {m : Type → Type} [Monad m] (f : Side → α → m β) (b : Branch α) : m (Branch β) := do
  let yes ← f .yes b.yes
  let no ← f .no b.no
  pure { feature := b.feature, yes, no }

def targets (b : Branch α) : List α :=
  [b.yes, b.no]

theorem follow_map (f : α → β) (b : Branch α) (present : Bool) :
    (b.map f).follow present = f (b.follow present) := by
  cases present <;> rfl

end Branch

namespace Node

def map (f : α → β) (n : Node α) : Node β :=
  { id := n.id, base := n.base, branches := n.branches.map (Branch.map f) }

def targets (n : Node α) : List α :=
  n.branches.flatMap Branch.targets

def isLeaf (n : Node α) : Bool :=
  n.branches.isEmpty

def describe (n : Node α) : String :=
  "node " ++ toString n.id.toNat ++ " (base=" ++ String.ofList (writeShortest n.base) ++
    ", branches=" ++ toString n.branches.length ++ ")"

theorem targets_map (f : α → β) (n : Node α) : (n.map f).targets = n.targets.map f := by
  simp [targets, map, List.flatMap_map, List.map_flatMap, Branch.targets, Branch.map]

end Node
end DecisionForest
