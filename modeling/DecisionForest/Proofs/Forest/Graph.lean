import Mathlib.Data.Fintype.Card
import Mathlib.Logic.Relation
import DecisionForest.Forest.Basic

/-!
# The graph of a forest

- `Forest.Edge` says that some branch of a position goes on at another,
- `Forest.Reaches` is any number of edges, `Forest.OnCycle` says that a position comes back to
  itself by at least one,
- `exists_path` and `onCycle_iff` carry paths and cycles along a function that keeps the edges of
  each position,
- `Forest.length_le_size` bounds a list of positions without repeats,
- `mark_set_self` and `mark_set_of_ne` read the marks that a search puts on positions.
-/

namespace DecisionForest

/-! ## Marks on positions -/

section Marks

variable {α : Type} {n : Nat} (marks : Vector α n) (i : Fin n) (m : α)

theorem mark_set_self : (marks.set i m i.isLt).get i = m :=
  Vector.getElem_set_self i.isLt

theorem mark_set_of_ne {j : Fin n} (h : j ≠ i) : (marks.set i m i.isLt).get j = marks.get j := by
  have hne : i.val ≠ j.val := fun hval => h (Fin.ext hval.symm)
  exact Vector.getElem_set_ne i.isLt j.isLt hne

theorem mark_replicate : (Vector.replicate n m).get i = m :=
  Vector.getElem_replicate i.isLt

end Marks

/-! ## Graphs that keep their edges under a function -/

section Lift

variable {α β : Type} {r : α → α → Prop} {s : β → β → Prop} {f : α → β}

/-- Paths that start in the image stay there. -/
theorem exists_path (hedge : ∀ k j, s (f k) j ↔ ∃ l, f l = j ∧ r k l) {k : α} {j : β}
    (hpath : Relation.TransGen s (f k) j) : ∃ l, f l = j ∧ Relation.TransGen r k l := by
  -- Each edge of the path starts in the image.
  induction hpath with
  | single hkj =>
      rcases (hedge k _).1 hkj with ⟨l, hl, hkl⟩
      exact ⟨l, hl, .single hkl⟩
  | tail _ hmj ih =>
      rcases ih with ⟨m, rfl, hkm⟩
      rcases (hedge m _).1 hmj with ⟨l, hl, hml⟩
      exact ⟨l, hl, hkm.tail hml⟩

theorem onCycle_iff (hedge : ∀ k j, s (f k) j ↔ ∃ l, f l = j ∧ r k l)
    (hf : Function.Injective f) {k : α} :
    Relation.TransGen s (f k) (f k) ↔ Relation.TransGen r k k := by
  constructor
  · intro hcycle
    rcases exists_path hedge hcycle with ⟨l, hl, hkl⟩
    -- The path ends where it starts, not merely at another element with the same image.
    rw [hf hl] at hkl
    exact hkl
  · intro hcycle
    exact hcycle.lift f fun k l hkl => (hedge k (f l)).2 ⟨l, rfl, hkl⟩

end Lift

/-! ## Edges, paths and cycles -/

namespace Forest

variable (F : Forest)

def Edge (i j : Fin F.size) : Prop :=
  ∃ b ∈ (F.node i).branches, b.yes = j ∨ b.no = j

def Reaches : Fin F.size → Fin F.size → Prop :=
  Relation.ReflTransGen F.Edge

def OnCycle (i : Fin F.size) : Prop :=
  Relation.TransGen F.Edge i i

theorem toList_nodes (F : Forest) : F.nodes.toList = (List.finRange F.size).map F.node := by
  apply List.ext_getElem
  · simp
  · intro i hi _
    simp [node]

theorem mem_targets_iff {i j : Fin F.size} : j ∈ F.targets i ↔ F.Edge i j := by
  simp [targets, Node.targets, Branch.targets, Edge, eq_comm]

variable {F}

theorem length_le_size {is : List (Fin F.size)} (h : is.Nodup) : is.length ≤ F.size := by
  simpa using h.length_le_card

end Forest
end DecisionForest
