import Mathlib.Data.List.Basic
import DecisionForest.Model.Node

/-!
# Changes to nodes

- `Node.map_injective` and `Node.map_map` are about new names for targets,
- `Node.mapBase` is a node with another base value.
-/

namespace DecisionForest

variable {α β γ : Type}

theorem Branch.map_injective {f : α → β} (hf : Function.Injective f) :
    Function.Injective (Branch.map f) := by
  intro b c h
  cases b
  cases c
  simp only [Branch.map, Branch.mk.injEq] at h ⊢
  exact ⟨h.1, hf h.2.1, hf h.2.2⟩

namespace Node

theorem map_injective {f : α → β} (hf : Function.Injective f) :
    Function.Injective (Node.map f) := by
  intro n m h
  cases n
  cases m
  simp only [map, mk.injEq] at h ⊢
  exact ⟨h.1, h.2.1, List.map_injective_iff.2 (Branch.map_injective hf) h.2.2⟩

theorem map_map (f : α → β) (g : β → γ) (n : Node α) :
    (n.map f).map g = n.map fun a => g (f a) := by
  simp [map, Branch.map, Function.comp_def]

/-- The node with another base value. -/
def mapBase (f : Float → Float) (n : Node α) : Node α :=
  { n with base := f n.base }

end Node
end DecisionForest
