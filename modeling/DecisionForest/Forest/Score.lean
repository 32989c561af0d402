import DecisionForest.Forest.Basic

/-!
# Scores

The score of a row is the base value of the root, to which the scores of the branches taken are
added one after another in branch order; a branch is taken to its yes side when the row has the
branch's feature. The probability of a row is the logistic transform of its score.

A walk through the forest that enters a cycle has no score. A walk that enters none visits a node at
most once on the way down, so its depth is at most the number of nodes.

- `Forest.walk` scores a position down to a given depth, for any way to add,
- `Forest.score` is the score of a row, `Forest.scoreChecked` refuses rows out of order,
- `toProbability` is the logistic transform,
- `Scorer` is a forest with the choice whether rows are checked.
-/

namespace DecisionForest
namespace Forest

variable (F : Forest)

/-- The score of a position by branches at most `depth` deep, if that is all of them. -/
def walk (add : Float → Float → Float) (present : FeatureId → Bool) :
    Nat → Fin F.size → Option Float
  | 0, _ => none
  | depth + 1, i =>
    (F.node i).branches.foldlM
      (fun sum b => (walk add present depth (b.follow (present b.feature))).map (add sum))
      (F.node i).base

/-- The score from the root, where it has one. -/
def scoreWith (add : Float → Float → Float) (features : Array FeatureId) : Option Float :=
  F.walk add (Features.contains features) F.size F.root

def score (features : Array FeatureId) : Except Error Float :=
  required .endless (F.scoreWith (· + ·) features)

def scoreChecked (features : Array FeatureId) : Except Error Float := do
  Features.check features.toList
  F.score features

end Forest

/-! ## Probabilities -/

def toProbability (score : Float) : Float :=
  1.0 / (1.0 + (-score).exp)

/-! ## Scorers -/

structure Scorer where
  forest : Forest
  strict : Bool

namespace Scorer

def score (s : Scorer) (features : Array FeatureId) : Except Error Float :=
  if s.strict then s.forest.scoreChecked features else s.forest.score features

def probability (s : Scorer) (features : Array FeatureId) : Except Error Float :=
  (s.score features).map toProbability

end Scorer
end DecisionForest
