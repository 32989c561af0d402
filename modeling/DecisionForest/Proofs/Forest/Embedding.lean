import DecisionForest.Proofs.Forest.Evaluation
import DecisionForest.Proofs.Forest.Graph
import DecisionForest.Proofs.Model.Node

/-!
# Forests inside forests

A forest is embedded in another one when its positions stand for positions there that hold the same
nodes. Scores and cycles are then the same in both, wherever other positions of the larger forest
lead.

- `Forest.Embeds` is an embedding; `Forest.embeds_of_record` finds one from the nodes as they are
  written,
- `Forest.Embeds.scoreWith_eq` and `Forest.Embeds.onCycle_iff` carry scores and cycles over,
- `Forest.record_mapBase`, `Forest.reaches_mapBase` and `Forest.isSome_scoreWith_mapBase` are about
  other base values in the same graph.
-/

namespace DecisionForest

/-! ## Other base values -/

section Branches

variable {κ : Type} {add : Float → Float → Float} {present : FeatureId → Bool}

/-- Whether an evaluation comes to an end depends on branches only. -/
theorem Adds.exists_of_branches {node? node'? : κ → Option (Node κ)}
    (hsame : ∀ k n, node? k = some n → ∃ n', node'? k = some n' ∧ n'.branches = n.branches)
    {sum total : Float} {bs : List (Branch κ)} (h : Adds add present node? sum bs total)
    (sum' : Float) : ∃ total', Adds add present node'? sum' bs total' := by
  -- Both the sum so far and the values of the targets are different ones.
  induction h generalizing sum' with
  | nil sum =>
      exact ⟨sum', .nil sum'⟩
  | @cons sum value total b bs n hn _ _ ihvalue ihrest =>
      rcases hsame _ n hn with ⟨n', hn', hbranches⟩
      rcases ihvalue n'.base with ⟨value', hvalue'⟩
      rcases ihrest (add sum' value') with ⟨total', htotal'⟩
      rw [← hbranches] at hvalue'
      exact ⟨total', .cons hn' hvalue' htotal'⟩

theorem Evaluates.exists_of_branches {node? node'? : κ → Option (Node κ)}
    (hsame : ∀ k n, node? k = some n → ∃ n', node'? k = some n' ∧ n'.branches = n.branches)
    {k : κ} {value : Float} (h : Evaluates add present node? k value) :
    ∃ value', Evaluates add present node'? k value' := by
  rcases h with ⟨n, hn, hadds⟩
  rcases hsame k n hn with ⟨n', hn', hbranches⟩
  rcases hadds.exists_of_branches hsame n'.base with ⟨value', hvalue'⟩
  rw [← hbranches] at hvalue'
  exact ⟨value', n', hn', hvalue'⟩

end Branches

namespace Forest

section MapBase

variable (F : Forest) (f : Float → Float)

theorem node_mapBase (i : Fin F.size) : (F.mapBase f).node i = (F.node i).mapBase f := by
  change (F.nodes.map _).get i = _
  exact Vector.getElem_map _ i.isLt

theorem branches_mapBase (i : Fin F.size) :
    ((F.mapBase f).node i).branches = (F.node i).branches := by
  rw [node_mapBase]
  rfl

theorem idAt_mapBase (i : Fin F.size) : (F.mapBase f).idAt i = F.idAt i := by
  change ((F.mapBase f).node i).id = F.idAt i
  rw [node_mapBase]
  rfl

theorem record_mapBase (i : Fin F.size) : (F.mapBase f).record i = (F.record i).mapBase f := by
  have hids : (F.mapBase f).idAt = F.idAt := funext (F.idAt_mapBase f)
  change ((F.mapBase f).node i).map (F.mapBase f).idAt = _
  rw [node_mapBase, hids]
  rfl

theorem edge_mapBase {i j : Fin F.size} : (F.mapBase f).Edge i j ↔ F.Edge i j := by
  change (∃ b ∈ ((F.mapBase f).node i).branches, b.yes = j ∨ b.no = j) ↔ _
  rw [node_mapBase]
  rfl

theorem onCycle_mapBase {i : Fin F.size} : (F.mapBase f).OnCycle i ↔ F.OnCycle i := by
  have hedge : (F.mapBase f).Edge = F.Edge := by
    funext i j
    exact propext (F.edge_mapBase f)
  change Relation.TransGen (F.mapBase f).Edge i i ↔ _
  rw [hedge]
  rfl

/-- Other base values change scores, but not whether there is one. -/
theorem isSome_scoreWith_mapBase (add : Float → Float → Float) (features : Array FeatureId) :
    ((F.mapBase f).scoreWith add features).isSome = (F.scoreWith add features).isSome := by
  rw [Bool.eq_iff_iff, Option.isSome_iff_exists, Option.isSome_iff_exists]
  constructor
  · rintro ⟨value, hvalue⟩
    have hsame : ∀ (i : Fin F.size) n, some ((F.mapBase f).node i) = some n →
        ∃ n', some (F.node i) = some n' ∧ n'.branches = n.branches := by
      intro i n hn
      cases hn
      exact ⟨F.node i, rfl, (F.branches_mapBase f i).symm⟩
    rcases (walk_eq_some_iff.1 hvalue).exists_of_branches hsame with ⟨value', hvalue'⟩
    exact ⟨value', walk_eq_some_iff.2 hvalue'⟩
  · rintro ⟨value, hvalue⟩
    have hsame : ∀ (i : Fin F.size) n, some (F.node i) = some n →
        ∃ n', some ((F.mapBase f).node i) = some n' ∧ n'.branches = n.branches := by
      intro i n hn
      cases hn
      exact ⟨(F.mapBase f).node i, rfl, F.branches_mapBase f i⟩
    rcases (walk_eq_some_iff.1 hvalue).exists_of_branches hsame with ⟨value', hvalue'⟩
    exact ⟨value', walk_eq_some_iff.2 hvalue'⟩

end MapBase

/-! ## Embeddings -/

/-- Positions of `G` that stand for positions of `F` with the same nodes. -/
structure Embeds (G F : Forest) (f : Fin G.size → Fin F.size) : Prop where
  node : ∀ k, F.node (f k) = (G.node k).map f

theorem embeds_of_record {G F : Forest} {f : Fin G.size → Fin F.size}
    (h : ∀ k, F.record (f k) = G.record k) : Embeds G F f where
  node := by
    have hids : G.idAt = fun k => F.idAt (f k) := by
      funext k
      exact (congrArg Node.id (h k)).symm
    intro k
    -- A node is determined by how it is written, as no two positions have one id.
    apply Node.map_injective F.idAt_injective
    calc
      (F.node (f k)).map F.idAt = (G.node k).map G.idAt := h k
      _ = (G.node k).map fun k => F.idAt (f k) := by rw [hids]
      _ = ((G.node k).map f).map F.idAt := (Node.map_map f F.idAt (G.node k)).symm

/-- A forest all of whose nodes another one has is embedded in it. -/
theorem exists_embeds_of_mem {G F : Forest} (h : ∀ n ∈ G.records, n ∈ F.records) :
    ∃ f, Embeds G F f := by
  have hposition : ∀ k, ∃ i, F.record i = G.record k := by
    intro k
    obtain ⟨i, _, hi⟩ := List.mem_map.1 (h (G.record k) (List.mem_map_of_mem (List.mem_finRange k)))
    exact ⟨i, hi⟩
  choose f hf using hposition
  exact ⟨f, embeds_of_record hf⟩

namespace Embeds

variable {G F : Forest} {f : Fin G.size → Fin F.size}

theorem idAt_eq (h : Embeds G F f) (k : Fin G.size) : F.idAt (f k) = G.idAt k := by
  unfold idAt
  rw [h.node]
  rfl

theorem injective (h : Embeds G F f) : Function.Injective f := by
  intro k l hkl
  apply G.idAt_injective
  rw [← h.idAt_eq, ← h.idAt_eq, hkl]

theorem scoreWith_eq (h : Embeds G F f) (hroot : f G.root = F.root)
    (add : Float → Float → Float) (features : Array FeatureId) :
    G.scoreWith add features = F.scoreWith add features := by
  have hrename : ∀ k, (some (F.node (f k)) : Option (Node (Fin F.size))) =
      (some (G.node k)).map (Node.map f) := by
    intro k
    rw [h.node]
    rfl
  ext value
  unfold scoreWith
  rw [walk_eq_some_iff, walk_eq_some_iff, ← hroot]
  exact (evaluates_rename_iff hrename).symm

theorem edge_iff (h : Embeds G F f) {k : Fin G.size} {j : Fin F.size} :
    F.Edge (f k) j ↔ ∃ l, f l = j ∧ G.Edge k l := by
  unfold Edge
  rw [h.node]
  constructor
  · rintro ⟨b', hb', htarget⟩
    rcases List.mem_map.1 hb' with ⟨b, hb, rfl⟩
    rcases htarget with rfl | rfl
    · exact ⟨b.yes, rfl, b, hb, Or.inl rfl⟩
    · exact ⟨b.no, rfl, b, hb, Or.inr rfl⟩
  · rintro ⟨l, rfl, b, hb, htarget⟩
    refine ⟨b.map f, List.mem_map.2 ⟨b, hb, rfl⟩, ?_⟩
    rcases htarget with rfl | rfl
    · exact Or.inl rfl
    · exact Or.inr rfl

theorem onCycle_iff (h : Embeds G F f) {k : Fin G.size} : F.OnCycle (f k) ↔ G.OnCycle k :=
  DecisionForest.onCycle_iff (fun _ _ => h.edge_iff) h.injective

end Embeds

end Forest
end DecisionForest
