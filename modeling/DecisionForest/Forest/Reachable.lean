import DecisionForest.Forest.Basic

/-!
# Reachable nodes

The nodes that some chain of branches leads to from the root, each once, in depth-first pre-order: a
node, then for each of its branches all that the yes side leads to and all that the no side leads
to.

- `Forest.preorderFrom` runs on a stack of positions still to visit and the marks of those visited,
- `Forest.reachable` starts it at the root.
-/

namespace DecisionForest

/-- Marking a position leaves one fewer that is unmarked. -/
theorem count_false_set_lt {n : Nat} (marks : Vector Bool n) (i : Fin n)
    (h : marks.get i = false) : (marks.set i true i.isLt).count false < marks.count false := by
  have hpos : 0 < marks.count false := by
    rw [Vector.count_pos_iff]
    exact h ▸ Vector.getElem_mem i.isLt
  rw [Vector.count_set i.isLt]
  have hi : marks[i.val] = false := h
  rw [hi, if_pos (beq_self_eq_true false), if_neg (by decide)]
  exact Nat.sub_lt hpos Nat.one_pos

namespace Forest

variable (F : Forest)

def preorderFrom (visited : Vector Bool F.size) :
    List (Fin F.size) → List (Fin F.size)
  | [] => []
  | i :: stack =>
    if h : visited[i] = true then preorderFrom visited stack
    else i :: preorderFrom (visited.set i true) (F.targets i ++ stack)
termination_by stack => (visited.count false, stack.length)
decreasing_by
  · exact Prod.Lex.right _ (by simp)
  · exact Prod.Lex.left _ _ (count_false_set_lt visited i (eq_false_of_ne_true h))

def reachable : List (Fin F.size) :=
  F.preorderFrom (Vector.replicate F.size false) [F.root]

end Forest
end DecisionForest
