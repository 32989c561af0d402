import DecisionForest.Forest.Text
import DecisionForest.Proofs.Forest.Embedding
import DecisionForest.Proofs.Forest.Reachable

/-!
# Pre-orders and texts under an embedding

The pre-order looks at targets only. So it goes the same way through two forests when positions of
the one stand for positions of the other and their targets for the targets there.

- `Forest.preorderFrom_map` and `Forest.reachable_map` carry a traversal along such positions,
- `Forest.Embeds.text_eq` says that a forest has the text of every forest that it is embedded in at
  the root,
- `Forest.reachable_mapBase` is the pre-order with other base values.
-/

namespace DecisionForest
namespace Forest

variable {F G : Forest}

/-! ## Traversals -/

section Map

variable {f : Fin G.size → Fin F.size}

/-- Positions that stand for each other are marked alike after one more visit. -/
theorem mark_set_map (hf : Function.Injective f) {visited : Vector Bool G.size}
    {visited' : Vector Bool F.size} (hmarks : ∀ k, visited'.get (f k) = visited.get k)
    (i k : Fin G.size) :
    (visited'.set (f i) true (f i).isLt).get (f k) = (visited.set i true i.isLt).get k := by
  by_cases hki : k = i
  · rw [hki, mark_set_self, mark_set_self]
  · have hne : f k ≠ f i := fun heq => hki (hf heq)
    rw [mark_set_of_ne visited' (f i) true hne, mark_set_of_ne visited i true hki, hmarks]

theorem preorderFrom_map (hf : Function.Injective f)
    (htargets : ∀ k, F.targets (f k) = (G.targets k).map f) {visited : Vector Bool G.size}
    {visited' : Vector Bool F.size} (hmarks : ∀ k, visited'.get (f k) = visited.get k)
    (stack : List (Fin G.size)) :
    F.preorderFrom visited' (stack.map f) = (G.preorderFrom visited stack).map f := by
  -- One case for each equation of the traversal, which both sides take together.
  fun_induction G.preorderFrom visited stack generalizing visited' with
  | case1 visited =>
      simp [preorderFrom]
  | case2 visited i stack hi ih =>
      have hi' : visited'[f i] = true := (hmarks i).trans hi
      rw [List.map_cons, preorderFrom, dif_pos hi']
      exact ih hmarks
  | case3 visited i stack hi ih =>
      have hi' : ¬ visited'[f i] = true := fun h => hi ((hmarks i).symm.trans h)
      have hstack : F.targets (f i) ++ stack.map f = (G.targets i ++ stack).map f := by
        rw [htargets, List.map_append]
      rw [List.map_cons, preorderFrom, dif_neg hi', hstack, List.map_cons]
      exact congrArg (f i :: ·) (ih (mark_set_map hf hmarks i))

theorem reachable_map (hf : Function.Injective f)
    (htargets : ∀ k, F.targets (f k) = (G.targets k).map f) (hroot : f G.root = F.root) :
    F.reachable = G.reachable.map f := by
  have hmarks : ∀ k, (Vector.replicate F.size false).get (f k) =
      (Vector.replicate G.size false).get k := by
    intro k
    rw [mark_replicate, mark_replicate]
  unfold reachable
  rw [← hroot]
  exact preorderFrom_map hf htargets hmarks [G.root]

end Map

/-! ## Embedded forests -/

namespace Embeds

variable {f : Fin G.size → Fin F.size}

theorem targets_eq (h : Embeds G F f) (k : Fin G.size) :
    F.targets (f k) = (G.targets k).map f := by
  unfold targets
  rw [h.node]
  exact Node.targets_map f (G.node k)

theorem record_eq (h : Embeds G F f) (k : Fin G.size) : F.record (f k) = G.record k := by
  have hids : (fun l => F.idAt (f l)) = G.idAt := funext h.idAt_eq
  calc
    F.record (f k) = ((G.node k).map f).map F.idAt := by
      rw [record, h.node]
    _ = (G.node k).map fun l => F.idAt (f l) := Node.map_map f F.idAt (G.node k)
    _ = G.record k := by
      rw [hids]
      rfl

theorem reachable_eq (h : Embeds G F f) (hroot : f G.root = F.root) :
    F.reachable = G.reachable.map f :=
  reachable_map h.injective h.targets_eq hroot

/-- Only what the root leads to is written, and it is written by ids. -/
theorem text_eq (h : Embeds G F f) (hroot : f G.root = F.root) : F.text = G.text := by
  have hwrite : (fun k => NodeLine.write (F.record (f k))) =
      fun k => NodeLine.write (G.record k) :=
    funext fun k => congrArg NodeLine.write (h.record_eq k)
  have hlines : F.lines = G.lines := by
    unfold lines
    rw [h.reachable_eq hroot, List.map_map, Function.comp_def, hwrite]
  unfold text
  rw [hlines]

end Embeds

/-! ## Other base values -/

theorem targets_mapBase (F : Forest) (g : Float → Float) (i : Fin F.size) :
    (F.mapBase g).targets i = F.targets i := by
  unfold targets Node.targets
  exact congrArg (List.flatMap Branch.targets) (F.branches_mapBase g i)

theorem reachable_mapBase (F : Forest) (g : Float → Float) :
    (F.mapBase g).reachable = F.reachable := by
  have htargets : ∀ i, (F.mapBase g).targets i = (F.targets i).map id := by
    intro i
    rw [List.map_id]
    exact F.targets_mapBase g i
  have hsame : (F.mapBase g).reachable = F.reachable.map id :=
    reachable_map (F := F.mapBase g) (G := F) (f := id) Function.injective_id htargets rfl
  rw [hsame, List.map_id]

end Forest
end DecisionForest
