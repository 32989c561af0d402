import DecisionForest.Forest.Basic

/-!
# Cycles

A depth-first search for a node that can reach itself. It starts at every position in turn, so it
also finds cycles that the root does not lead to.

- `Mark` tells the positions not seen yet, those on the search's current path and those finished,
- `Forest.descend` runs the search on the path, each position with its targets still to be looked
  at,
- `Forest.findCycle?` is the id of a node on a cycle, if there is one.
-/

namespace DecisionForest

inductive Mark where
  | fresh
  | active
  | done
  deriving DecidableEq, Repr

/-- Marking a fresh position leaves one fewer fresh. -/
theorem count_fresh_set_lt {n : Nat} (marks : Vector Mark n) (i : Fin n)
    (h : marks.get i = .fresh) :
    (marks.set i .active i.isLt).count .fresh < marks.count .fresh := by
  have hpos : 0 < marks.count .fresh := by
    rw [Vector.count_pos_iff]
    exact h ▸ Vector.getElem_mem i.isLt
  rw [Vector.count_set i.isLt]
  have hi : marks[i.val] = .fresh := h
  rw [hi, if_pos (beq_self_eq_true Mark.fresh), if_neg (by decide)]
  exact Nat.sub_lt hpos Nat.one_pos

theorem count_fresh_set_done_le {n : Nat} (marks : Vector Mark n) (i : Fin n) :
    (marks.set i .done i.isLt).count .fresh ≤ marks.count .fresh := by
  rw [Vector.count_set i.isLt]
  simp

namespace Forest

variable (F : Forest)

/-- A position on the current path, with its targets still to be looked at. -/
abbrev Frame := Fin F.size × List (Fin F.size)

/-- What is left to look at along a path. -/
def pending : List F.Frame → Nat
  | [] => 0
  | (_, js) :: path => js.length + 1 + pending path

/-- Finish the path: an active position that one of its positions goes on at, or the final marks. -/
def descend (marks : Vector Mark F.size) :
    List F.Frame → Except (Fin F.size) (Vector Mark F.size)
  | [] => .ok marks
  | (i, []) :: path => descend (marks.set i .done) path
  | (i, j :: js) :: path =>
    match h : marks[j] with
    | .active => .error j
    | .done => descend marks ((i, js) :: path)
    | .fresh => descend (marks.set j .active) ((j, F.targets j) :: (i, js) :: path)
termination_by path => (marks.count .fresh, F.pending path)
decreasing_by
  · rcases Nat.lt_or_eq_of_le (count_fresh_set_done_le marks i) with hlt | heq
    · exact Prod.Lex.left _ _ hlt
    · rw [heq]
      exact Prod.Lex.right _ (by simp [pending])
  · exact Prod.Lex.right _ (by simp [pending])
  · exact Prod.Lex.left _ _ (count_fresh_set_lt marks j h)

/-- Search from each of the given positions that is still fresh. -/
def searchCycle (marks : Vector Mark F.size) : List (Fin F.size) → Option (Fin F.size)
  | [] => none
  | i :: rest =>
    if marks[i] = .fresh then
      match F.descend (marks.set i .active) [(i, F.targets i)] with
      | .error j => some j
      | .ok marks => searchCycle marks rest
    else searchCycle marks rest

def findCycle? : Option NodeId :=
  (F.searchCycle (Vector.replicate F.size .fresh) (List.finRange F.size)).map F.idAt

end Forest
end DecisionForest
