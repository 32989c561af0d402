import DecisionForest.Forest.Reachable
import DecisionForest.Log

/-!
# Model text

The written form of a forest: the header line, then one line for each node that the root leads to,
in depth-first pre-order, the root first.

- `Forest.lines` lists the lines without their line feeds,
- `Forest.text` ends each with a line feed.
-/

namespace DecisionForest
namespace Forest

variable (F : Forest)

def lines : List (List Char) :=
  modelHeader.toList :: F.reachable.map fun i => NodeLine.write (F.record i)

def text : String :=
  String.ofList (F.lines.flatMap (· ++ ['\n']))

end Forest
end DecisionForest
