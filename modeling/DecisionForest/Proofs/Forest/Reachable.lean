import DecisionForest.Forest.Reachable
import DecisionForest.Proofs.Forest.Graph

/-!
# The pre-order lists what the root reaches

- `Forest.Visits` is what a traversal from a stack of positions adds to those visited before: each
  new position once, each led to from the stack, and nothing left out,
- `Forest.visits_preorderFrom` says that the pre-order is such a traversal,
- `Forest.mem_reachable_iff`, `Forest.nodup_reachable` and `Forest.reachable_eq_cons` are about the
  positions that the root reaches.
-/

namespace DecisionForest
namespace Forest

variable {F : Forest}

/-! ## Traversals -/

/-- The positions listed by a traversal of a stack, with marks on those visited before. -/
structure Visits (visited : Vector Bool F.size) (stack listed : List (Fin F.size)) : Prop where
  fresh : ∀ i ∈ listed, visited.get i = false
  nodup : listed.Nodup
  sound : ∀ j ∈ listed, ∃ i ∈ stack, F.Reaches i j
  seen : ∀ i ∈ stack, visited.get i = true ∨ i ∈ listed
  closed : ∀ i ∈ listed, ∀ j, F.Edge i j → visited.get j = true ∨ j ∈ listed

namespace Visits

variable {visited : Vector Bool F.size} {stack listed : List (Fin F.size)} {i : Fin F.size}

theorem nil : Visits visited [] [] := by
  refine ⟨?_, List.nodup_nil, ?_, ?_, ?_⟩ <;> simp

theorem skip (h : Visits visited stack listed) (hi : visited.get i = true) :
    Visits visited (i :: stack) listed where
  fresh := h.fresh
  nodup := h.nodup
  closed := h.closed
  sound := by
    intro j hj
    rcases h.sound j hj with ⟨k, hk, hkj⟩
    exact ⟨k, List.mem_cons_of_mem i hk, hkj⟩
  seen := by
    intro k hk
    rcases List.mem_cons.1 hk with rfl | hk
    · exact Or.inl hi
    · exact h.seen k hk

/-- A position that is marked for a traversal was marked before, or is the one just visited. -/
theorem marked_set {j : Fin F.size} (hj : (visited.set i true i.isLt).get j = true) :
    visited.get j = true ∨ j = i := by
  by_cases hji : j = i
  · exact Or.inr hji
  · rw [mark_set_of_ne visited i true hji] at hj
    exact Or.inl hj

/-- A new position comes before all that its targets lead to. -/
theorem visit (h : Visits (visited.set i true i.isLt) (F.targets i ++ stack) listed)
    (hi : visited.get i = false) : Visits visited (i :: stack) (i :: listed) := by
  have hnot : i ∉ listed := by
    intro hmem
    have hfresh := h.fresh i hmem
    rw [mark_set_self] at hfresh
    cases hfresh
  have hlisted : ∀ j, (visited.set i true i.isLt).get j = true ∨ j ∈ listed →
      visited.get j = true ∨ j ∈ i :: listed := by
    intro j hj
    rcases hj with hmark | hmem
    · rcases marked_set hmark with hbefore | rfl
      · exact Or.inl hbefore
      · exact Or.inr (by simp)
    · exact Or.inr (List.mem_cons_of_mem i hmem)
  refine ⟨?_, List.nodup_cons.2 ⟨hnot, h.nodup⟩, ?_, ?_, ?_⟩
  · -- The others were not marked after the position was, so not before either.
    intro j hj
    rcases List.mem_cons.1 hj with rfl | hj
    · exact hi
    · have hfresh := h.fresh j hj
      have hne : j ≠ i := fun heq => hnot (heq ▸ hj)
      rwa [mark_set_of_ne visited i true hne] at hfresh
  · -- What its targets lead to, the position leads to.
    intro j hj
    rcases List.mem_cons.1 hj with rfl | hj
    · exact ⟨j, by simp, Relation.ReflTransGen.refl⟩
    · rcases h.sound j hj with ⟨k, hk, hkj⟩
      rcases List.mem_append.1 hk with hk | hk
      · exact ⟨i, by simp, Relation.ReflTransGen.head (F.mem_targets_iff.1 hk) hkj⟩
      · exact ⟨k, List.mem_cons_of_mem i hk, hkj⟩
  · intro k hk
    rcases List.mem_cons.1 hk with rfl | hk
    · exact Or.inr (by simp)
    · exact hlisted k (h.seen k (List.mem_append_right _ hk))
  · intro k hk j hkj
    rcases List.mem_cons.1 hk with rfl | hk
    · exact hlisted j (h.seen j (List.mem_append_left _ (F.mem_targets_iff.2 hkj)))
    · exact hlisted j (h.closed k hk j hkj)

end Visits

theorem visits_preorderFrom (visited : Vector Bool F.size) (stack : List (Fin F.size)) :
    Visits visited stack (F.preorderFrom visited stack) := by
  -- One case for each equation of the traversal: an old position is skipped, a new one visited.
  fun_induction F.preorderFrom visited stack with
  | case1 visited =>
      exact .nil
  | case2 visited i stack hi ih =>
      exact ih.skip hi
  | case3 visited i stack hi ih =>
      exact ih.visit (eq_false_of_ne_true hi)

/-! ## What the root reaches -/

theorem visits_reachable :
    Visits (Vector.replicate F.size false) [F.root] F.reachable :=
  visits_preorderFrom _ _

theorem nodup_reachable : F.reachable.Nodup :=
  visits_reachable.nodup

theorem length_reachable_le : F.reachable.length ≤ F.size :=
  length_le_size nodup_reachable

/-- No position is visited at the start. -/
theorem mem_of_visits_fresh {listed : List (Fin F.size)} {i : Fin F.size}
    (h : (Vector.replicate F.size false).get i = true ∨ i ∈ listed) : i ∈ listed := by
  rcases h with hmark | hmem
  · rw [mark_replicate] at hmark
    cases hmark
  · exact hmem

theorem mem_reachable_iff {i : Fin F.size} : i ∈ F.reachable ↔ F.Reaches F.root i := by
  constructor
  · intro hi
    rcases visits_reachable.sound i hi with ⟨root, hroot, hreach⟩
    rw [List.mem_singleton.1 hroot] at hreach
    exact hreach
  · intro hreach
    -- The root is listed, and the list is closed under edges.
    induction hreach with
    | refl =>
        exact mem_of_visits_fresh (visits_reachable.seen F.root (by simp))
    | @tail j k _ hjk ih =>
        exact mem_of_visits_fresh (visits_reachable.closed j ih k hjk)

theorem reachable_eq_cons : ∃ rest, F.reachable = F.root :: rest := by
  have hfresh : ¬ (Vector.replicate F.size false).get F.root = true := by
    rw [mark_replicate]
    decide
  unfold reachable preorderFrom
  exact ⟨_, dif_neg hfresh⟩

end Forest
end DecisionForest
