import DecisionForest.Features

/-!
# Forests

A loaded model: nodes at positions, branches that go on at positions, and a root. Nodes form a
directed graph, in which a node may be the target of any number of branches and may reach itself.

- `Forest` is the graph; positions are `Fin size`, so every target is a node, and no two nodes have
  one id,
- `Forest.indexOf?` and `Forest.get?` find a node by its id,
- `Forest.record` is a node with its targets named by id,
- `Forest.branchCount` and `Forest.featureIds` describe the whole graph,
- `Forest.mapBase` changes the base values.
-/

namespace DecisionForest

structure Forest where
  size : Nat
  nodes : Vector (Node (Fin size)) size
  indexOf? : NodeId → Option (Fin size)
  root : Fin size
  indexOf?_eq_some_iff : ∀ {id : NodeId} {i : Fin size}, indexOf? id = some i ↔ nodes[i].id = id

namespace Forest

variable (F : Forest)

def node (i : Fin F.size) : Node (Fin F.size) :=
  F.nodes[i]

def idAt (i : Fin F.size) : NodeId :=
  (F.node i).id

def get? (id : NodeId) : Option (Node (Fin F.size)) :=
  (F.indexOf? id).map F.node

/-- A position as text. -/
def positionText {n : Nat} (i : Fin n) : String :=
  "#" ++ toString i.val

/-- The positions that a position's branches go on at. -/
def targets (i : Fin F.size) : List (Fin F.size) :=
  (F.node i).targets

/-- A node as model text has it. -/
def record (i : Fin F.size) : Node NodeId :=
  (F.node i).map F.idAt

def records : List (Node NodeId) :=
  (List.finRange F.size).map F.record

def branchCount : Nat :=
  (F.nodes.toList.flatMap Node.branches).length

/-- The features that some branch tests, each once, in ascending order. -/
def featureIds : List FeatureId :=
  Features.ascending (F.nodes.toList.flatMap fun n => n.branches.map Branch.feature)

def mapBase (f : Float → Float) : Forest :=
  { F with
    nodes := F.nodes.map fun n => { n with base := f n.base }
    indexOf?_eq_some_iff := by simp [F.indexOf?_eq_some_iff] }

end Forest
end DecisionForest
